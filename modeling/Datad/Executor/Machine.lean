/-
  Datad/Executor/Machine.lean
  ===========================
  **The executor** (`executor.rs`): the one task that makes the ubus requests.

  What it is doing is a stack of frames.  The main loop drains the queue or runs a round;
  a drain runs queued jobs one after the other; a job makes requests and may itself be a
  round (`round_now`); a round reads the blocks that are due, then runs the old collection,
  and drains the queue at its safe points.  Other tasks push jobs, mark blocks and set the
  sample interval at any moment.
-/
import Datad.Hub.Executor

namespace Datad

namespace Executor

open Hub Transition

/-- `CONTROL_QUEUE`: how many control jobs may be queued. -/
def controlQueue : Nat := 8

/-- `LEGACY_TIMEOUT_LIMIT`: once so many objects have timed out in a round, the old
    collection makes no more requests. -/
def legacyTimeoutLimit : Nat := 6

structure Config where
  budget : Duration := secs 3
  cache : Bool := true
  controlQueue : Nat := Executor.controlQueue
  /-- How long the old collection leaves alone an object that timed out; zero: it does not. -/
  cooldown : Duration := 0

/-! ### The queue -/

structure Job where
  id : Nat
  control : Bool
deriving DecidableEq

inductive Busy where
  | busy
deriving DecidableEq

structure Queue where
  jobs : List Job := []
  /-- How many control jobs are queued. -/
  controls : Nat := 0

namespace Queue

def push (q : Queue) (cap : Nat) (job : Job) : Except Busy Queue :=
  if job.control then
    if cap ≤ q.controls then .error .busy
    else .ok { jobs := q.jobs ++ [job], controls := q.controls + 1 }
  else .ok { q with jobs := q.jobs ++ [job] }

def pop (q : Queue) : Option (Job × Queue) :=
  match q.jobs with
  | [] => none
  | job :: jobs =>
    some (job, { jobs, controls := if job.control then q.controls - 1 else q.controls })

end Queue

/-! ### What a round keeps -/

/-- `skips` are the objects that timed out, each once (`RoundSkips`). -/
structure RoundState where
  skips : List String := []
  used : Duration := 0
  cutLogged : Bool := false

def isTimeout : Except UbusError Value → Bool
  | .error (.timeout _) => true
  | _ => false

/-- `RoundSkips::record`, for the outcome of a call of `object`. -/
def record (skips : List String) (object : String) (result : Except UbusError Value) :
    List String :=
  if isTimeout result && !skips.contains object then object :: skips else skips

/-! ### Frames -/

/-- Where a round is.  `k` counts the blocks from `start` on. -/
inductive Point where
  /-- Before the safe point ahead of the `k`-th block. -/
  | block (start k : Nat)
  | test (start k : Nat)
  /-- Decided to read block `i`. -/
  | read (start k i : Nat)
  /-- The call of block `i`, of this object, is under way. -/
  | waiting (start k i : Nat) (object : String)
  /-- Past the blocks. -/
  | blocks
  /-- In the old collection, between two calls. -/
  | legacy
  /-- A call of the old collection is under way. -/
  | calling (object : String)
  /-- Past the last safe point. -/
  | ended
deriving DecidableEq

inductive Frame where
  /-- `queued` jobs were queued when the drain was entered, it has started `started`. -/
  | drain (queued started : Nat)
  | job (j : Job)
  | round (legacy : Bool) (point : Point)
deriving DecidableEq

/-- Where the main loop is.  `idle`: there was no deadline when the drain was entered. -/
inductive Main where
  | head
  | waiting (deadline : Option Instant)
  | draining (idle : Bool)
  | round
deriving DecidableEq

structure Shared where
  queue : Queue := {}
  /-- A permit of `Notify` is stored. -/
  wake : Bool := false
  round : RoundState := {}
  hub : Inner
  interval : Duration
  /-- Where the next round starts. -/
  cursor : Nat := 0
  driver : Bool := false
  kick : Bool := false
  cooldown : String → Option Instant := fun _ => none
  lastRoundEnd : Instant := 0
  main : Main := .head
  /-- The innermost first. -/
  frames : List Frame := []

/-- What a round does. -/
inductive RoundAct where
  | safePoint
  | test (now : Instant)
  | send (now : Instant) (wall : Nat)
  | reply (result : Except UbusError Value) (elapsed : Duration) (now : Instant) (wall : Nat)
  /-- The old collection makes a request. -/
  | call (object : String) (now : Instant)
  | answer (result : Except UbusError Value) (elapsed : Duration) (now : Instant)
  /-- The old collection is over. -/
  | done
  | roundEnd (now : Instant)

inductive Act where
  | push (j : Job)
  | setInterval (d : Duration)
  | startRounds
  | kick (names : List String)
  | mark (names : Option (List String))
  | record (name : String) (result : Except String Value) (now : Instant) (wall : Nat)
  | expire (now : Instant)
  | heartbeat (now : Instant) (execAgeMs : Nat) (quiet : Duration)
  /-- The head of the main loop. -/
  | loop (now : Instant)
  /-- The main loop is woken by a permit. -/
  | woken
  | timeout (now : Instant)
  /-- The innermost drain starts its next job or ends. -/
  | drain (now : Instant)
  /-- The innermost job makes a request. -/
  | jobCall (object : String) (result : Except UbusError Value) (elapsed : Duration)
      (now : Instant)
  | jobRound (legacy : Bool)
  | jobEnd
  | round (r : RoundAct)

namespace Shared

def new (specs : List BlockSpec) (interval : Duration) : Shared :=
  { hub := Hub.new specs, interval }

/-- The number of blocks. -/
def n (s : Shared) : Nat := s.hub.blocks.length

def due (cfg : Config) (s : Shared) (i : Nat) (now : Instant) : Bool :=
  s.hub.blocks[i]?.any fun b => Hub.due b now ⟨cfg.cache, s.interval⟩

def object (s : Shared) (i : Nat) : String :=
  (s.hub.blocks[i]?.map (·.spec.object)).getD ""

/-! ### Requests -/

/-- Whether the object is left alone for longer than this round. -/
def cooling (s : Shared) (object : String) (now : Instant) : Bool × Shared :=
  match s.cooldown object with
  | some until_ =>
    if now < until_ then (true, s)
    else (false, { s with cooldown := fun o => if o = object then none else s.cooldown o })
  | none => (false, s)

def legacyCut (s : Shared) : Bool × Shared :=
  if s.round.skips.length < legacyTimeoutLimit then (false, s)
  else (true, { s with round := { s.round with cutLogged := true } })

/-- The start of `raw_call`: whether the request goes out. -/
def passes (cfg : Config) (s : Shared) (round cool : Bool) (object : String) (now : Instant) :
    Bool × Shared :=
  let legacy := round && cool
  if round && s.round.skips.contains object then (false, s)
  else
    match if legacy && cfg.cooldown ≠ 0 then s.cooling object now else (false, s) with
    | (true, s) => (false, s)
    | (false, s) =>
      match if legacy then s.legacyCut else (false, s) with
      | (cut, s) => (!cut, s)

/-- The end of `raw_call`, once the reply is there. -/
def called (cfg : Config) (s : Shared) (round cool : Bool) (object : String)
    (result : Except UbusError Value) (elapsed : Duration) (now : Instant) : Shared :=
  let s :=
    if round then
      { s with round := { s.round with
          used := s.round.used + elapsed
          skips := Executor.record s.round.skips object result } }
    else s
  if round && cool && cfg.cooldown ≠ 0 && isTimeout result then
    { s with cooldown := fun o => if o = object then some (now + cfg.cooldown) else s.cooldown o }
  else s

def recordRead (s : Shared) (i : Nat) (result : Except UbusError Value) (now : Instant)
    (wall : Nat) : Shared :=
  { s with hub := (Hub.recordRead s.hub i (result.mapError UbusError.text) now wall).1 }

/-! ### Drains and rounds -/

/-- The start of `drain`. -/
def drain (s : Shared) : Shared :=
  { s with frames := .drain s.queue.jobs.length 0 :: s.frames }

/-- The end of `drain`; in the main loop, sampling may have begun meanwhile. -/
def drained (s : Shared) (rest : List Frame) (now : Instant) : Shared :=
  match rest with
  | [] =>
    { s with
      frames := []
      main := .head
      lastRoundEnd := if s.main = .draining true && s.driver then now else s.lastRoundEnd }
  | _ => { s with frames := rest }

@[simp] theorem drained_frames (s : Shared) (rest : List Frame) (now : Instant) :
    (s.drained rest now).frames = rest := by
  cases rest <;> rfl

/-- The start of `round`. -/
def beginRound (s : Shared) (legacy : Bool) : Shared :=
  { s with
    round := {}
    frames := .round legacy (.block (s.cursor % s.n) 0) :: s.frames }

def atPoint (s : Shared) (legacy : Bool) (rest : List Frame) (p : Point) : Shared :=
  { s with frames := .round legacy p :: rest }

/-- The end of `round`. -/
def roundEnd (s : Shared) (rest : List Frame) (now : Instant) : Shared :=
  let s := { s with hub := (Hub.roundEnd s.hub now s.interval).1, frames := rest }
  match rest with
  | [] => { s with main := .head, lastRoundEnd := now }
  | _ => s

@[simp] theorem roundEnd_frames (s : Shared) (rest : List Frame) (now : Instant) :
    (s.roundEnd rest now).frames = rest := by
  cases rest <;> rfl

/-- A step of the innermost round (`round`, `read_blocks`, `preempt`). -/
def roundStep (cfg : Config) (s : Shared) (legacy : Bool) (rest : List Frame) :
    Point → RoundAct → Option Shared
  | .block start k, .safePoint =>
    if k < s.n then some (s.atPoint legacy rest (.test start k)).drain
    else some (s.atPoint legacy rest .blocks)
  | .test start k, .test now =>
    let i := (start + k) % s.n
    if !s.due cfg i now then some (s.atPoint legacy rest (.block start (k + 1)))
    else if cfg.budget ≤ s.round.used then
      -- no new request in this round, the next one starts here
      some { s.atPoint legacy rest .blocks with cursor := i }
    else some (s.atPoint legacy rest (.read start k i))
  | .read start k i, .send now wall =>
    let r := s.passes cfg true false (s.object i) now
    if r.1 then some (r.2.atPoint legacy rest (.waiting start k i (s.object i)))
    else
      some ((r.2.recordRead i (.error (.skipped (s.object i))) now wall).atPoint legacy rest
        (.block start (k + 1)))
  | .waiting start k i object, .reply result elapsed now wall =>
    some (((s.called cfg true false object result elapsed now).recordRead i result now
      wall).atPoint legacy rest (.block start (k + 1)))
  | .blocks, .safePoint =>
    some (s.atPoint legacy rest (if legacy then .legacy else .ended)).drain
  | .legacy, .safePoint => some (s.atPoint legacy rest .legacy).drain
  | .legacy, .call object now =>
    let r := s.passes cfg true true object now
    some (r.2.atPoint legacy rest (if r.1 then .calling object else .legacy))
  | .calling object, .answer result elapsed now =>
    some ((s.called cfg true true object result elapsed now).atPoint legacy rest .legacy)
  | .legacy, .done => some (s.atPoint legacy rest .ended).drain
  | .ended, .roundEnd now => some (s.roundEnd rest now)
  | _, _ => none

/-! ### The main loop -/

/-- The main loop finds no round to run now. -/
def pause (s : Shared) (deadline : Option Instant) : Shared :=
  if s.queue.jobs.isEmpty then { s with main := .waiting deadline }
  else { s.drain with main := .draining deadline.isNone }

/-- The head of the main loop (`run`). -/
def loop (s : Shared) (now : Instant) : Shared :=
  if s.driver then
    let deadline := s.lastRoundEnd + s.interval
    if s.kick || deadline ≤ now then { s.beginRound true with kick := false, main := .round }
    else s.pause (some deadline)
  else s.pause none

def next (cfg : Config) (s : Shared) : Act → Option Shared
  | .push j =>
    match s.queue.push cfg.controlQueue j with
    | .ok queue => some { s with queue, wake := true }
    | .error _ => some s
  | .setInterval d => some { s with interval := d, wake := true }
  | .startRounds => some { s with driver := true, wake := true }
  | .kick names =>
    some { s with hub := markImmediate s.hub (some names), kick := true, wake := true }
  | .mark names => some { s with hub := markImmediate s.hub names }
  | .record name result now wall => some { s with hub := (Hub.record s.hub name result now wall).1 }
  | .expire now => some { s with hub := (Hub.expire s.hub now s.interval).1 }
  | .heartbeat now execAgeMs quiet =>
    some { s with hub := (heartbeatIfQuiet s.hub now execAgeMs quiet).1 }
  | .loop now => if s.main = .head then some (s.loop now) else none
  | .woken =>
    match s.main with
    | .waiting deadline =>
      if s.wake then some { s.drain with wake := false, main := .draining deadline.isNone }
      else none
    | _ => none
  | .timeout now =>
    match s.main with
    | .waiting (some deadline) =>
      if deadline ≤ now then some { s.drain with main := .draining false } else none
    | _ => none
  | .drain now =>
    match s.frames with
    | .drain queued started :: rest =>
      if started < queued then
        match s.queue.pop with
        | some (job, queue) =>
          some { s with queue, frames := .job job :: .drain queued (started + 1) :: rest }
        | none => some (s.drained rest now)
      else some (s.drained rest now)
    | _ => none
  | .jobCall object result elapsed now =>
    match s.frames with
    | .job _ :: _ => some (s.called cfg false false object result elapsed now)
    | _ => none
  | .jobRound legacy =>
    match s.frames with
    | .job _ :: _ => some (s.beginRound legacy)
    | _ => none
  | .jobEnd =>
    match s.frames with
    | .job _ :: rest => some { s with frames := rest }
    | _ => none
  | .round r =>
    match s.frames with
    | .round legacy point :: rest => s.roundStep cfg legacy rest point r
    | _ => none

end Shared

/-! ### What a step can do -/

section Pass

variable {cfg : Config} {s s' : Shared} {round cool legacy : Bool} {object : String}
  {now : Instant} {rest : List Frame} {p : Point} {r : RoundAct}

/-- What `raw_call` does before the request: a call of the round goes out only for an
    object that has not timed out in it, one of the old collection only below the limit;
    the cut may be logged, and a cool-down that is over is dropped. -/
theorem Shared.passes_spec (cfg : Config) (s : Shared) (cool : Bool) (object : String)
    (now : Instant) :
    (∃ cutLogged cooldown, (s.passes cfg true cool object now).2 =
      { s with round := { s.round with cutLogged }, cooldown }) ∧
    ((s.passes cfg true cool object now).1 = true → object ∉ s.round.skips ∧
      (cool = true → s.round.skips.length < legacyTimeoutLimit)) := by
  have hcool : ∃ cooldown, (if (true && cool && cfg.cooldown ≠ 0 : Bool) then
      s.cooling object now else (false, s)).2 = { s with cooldown } := by
    rw [Shared.cooling]
    split
    · split
      · split
        · exact ⟨s.cooldown, rfl⟩
        · exact ⟨_, rfl⟩
      · exact ⟨s.cooldown, rfl⟩
    · exact ⟨s.cooldown, rfl⟩
  obtain ⟨cooldown, hcool⟩ := hcool
  simp only [Shared.passes]
  by_cases hskip : s.round.skips.contains object = true
  · rw [if_pos (by simpa using hskip)]
    exact ⟨⟨s.round.cutLogged, s.cooldown, rfl⟩, by simp⟩
  · rw [if_neg (by simpa using hskip)]
    have hout : object ∉ s.round.skips := by simpa using hskip
    split
    · rename_i heq
      rw [heq] at hcool
      exact ⟨⟨s.round.cutLogged, cooldown, hcool⟩, by simp⟩
    · rename_i s₁ heq
      rw [heq] at hcool
      obtain rfl : s₁ = { s with cooldown } := hcool
      cases cool
      · exact ⟨⟨s.round.cutLogged, cooldown, rfl⟩, fun _ => ⟨hout, by simp⟩⟩
      · by_cases hcut : s.round.skips.length < legacyTimeoutLimit
        · simp only [Bool.and_self, if_true, Shared.legacyCut, hcut]
          exact ⟨⟨s.round.cutLogged, cooldown, rfl⟩, fun _ => ⟨hout, by simp⟩⟩
        · simp only [Bool.and_self, if_true, Shared.legacyCut, hcut, if_false]
          exact ⟨⟨true, cooldown, rfl⟩, by simp⟩

/-- The round state after a call of the round. -/
def RoundState.after (rs : RoundState) (object : String) (result : Except UbusError Value)
    (elapsed : Duration) : RoundState :=
  { rs with used := rs.used + elapsed, skips := record rs.skips object result }

/-- What `raw_call` changes after the reply. -/
theorem Shared.called_frame (cfg : Config) (s : Shared) (round cool : Bool) (object : String)
    (result : Except UbusError Value) (elapsed : Duration) (now : Instant) :
    ∃ cooldown, s.called cfg round cool object result elapsed now =
      { s with
        round := if round then s.round.after object result elapsed else s.round
        cooldown } := by
  cases round
  · simp only [Shared.called, Bool.false_and]
    exact ⟨s.cooldown, rfl⟩
  · simp only [Shared.called, if_true]
    split
    · exact ⟨_, rfl⟩
    · exact ⟨s.cooldown, rfl⟩

/-- A step of a round at a point: the code's branches, one by one. -/
inductive Pass (cfg : Config) (s : Shared) (legacy : Bool) (rest : List Frame) :
    Point → RoundAct → Shared → Prop where
  | block {start k : Nat} (hk : k < s.n) :
      Pass cfg s legacy rest (.block start k) .safePoint
        (s.atPoint legacy rest (.test start k)).drain
  | last {start k : Nat} (hk : ¬k < s.n) :
      Pass cfg s legacy rest (.block start k) .safePoint (s.atPoint legacy rest .blocks)
  | notDue {start k : Nat} {now : Instant} (hd : s.due cfg ((start + k) % s.n) now = false) :
      Pass cfg s legacy rest (.test start k) (.test now)
        (s.atPoint legacy rest (.block start (k + 1)))
  | left {start k : Nat} {now : Instant} (hd : s.due cfg ((start + k) % s.n) now = true)
      (hb : cfg.budget ≤ s.round.used) :
      Pass cfg s legacy rest (.test start k) (.test now)
        { s.atPoint legacy rest .blocks with cursor := (start + k) % s.n }
  | due {start k : Nat} {now : Instant} (hd : s.due cfg ((start + k) % s.n) now = true)
      (hb : s.round.used < cfg.budget) :
      Pass cfg s legacy rest (.test start k) (.test now)
        (s.atPoint legacy rest (.read start k ((start + k) % s.n)))
  | send {start k i : Nat} {now : Instant} {wall : Nat}
      (h : (s.passes cfg true false (s.object i) now).1 = true) :
      Pass cfg s legacy rest (.read start k i) (.send now wall)
        ((s.passes cfg true false (s.object i) now).2.atPoint legacy rest
          (.waiting start k i (s.object i)))
  | skip {start k i : Nat} {now : Instant} {wall : Nat}
      (h : (s.passes cfg true false (s.object i) now).1 = false) :
      Pass cfg s legacy rest (.read start k i) (.send now wall)
        (((s.passes cfg true false (s.object i) now).2.recordRead i
          (.error (.skipped (s.object i))) now wall).atPoint legacy rest (.block start (k + 1)))
  | reply {start k i : Nat} {object : String} (result : Except UbusError Value)
      (elapsed : Duration) (now : Instant) (wall : Nat) :
      Pass cfg s legacy rest (.waiting start k i object) (.reply result elapsed now wall)
        (((s.called cfg true false object result elapsed now).recordRead i result now
          wall).atPoint legacy rest (.block start (k + 1)))
  | blocks : Pass cfg s legacy rest .blocks .safePoint
      (s.atPoint legacy rest (if legacy then .legacy else .ended)).drain
  | legacy : Pass cfg s legacy rest .legacy .safePoint (s.atPoint legacy rest .legacy).drain
  | call {object : String} {now : Instant}
      (h : (s.passes cfg true true object now).1 = true) :
      Pass cfg s legacy rest .legacy (.call object now)
        ((s.passes cfg true true object now).2.atPoint legacy rest (.calling object))
  | skipCall {object : String} {now : Instant}
      (h : (s.passes cfg true true object now).1 = false) :
      Pass cfg s legacy rest .legacy (.call object now)
        ((s.passes cfg true true object now).2.atPoint legacy rest .legacy)
  | answer {object : String} (result : Except UbusError Value) (elapsed : Duration)
      (now : Instant) :
      Pass cfg s legacy rest (.calling object) (.answer result elapsed now)
        ((s.called cfg true true object result elapsed now).atPoint legacy rest .legacy)
  | done : Pass cfg s legacy rest .legacy .done (s.atPoint legacy rest .ended).drain
  | ended (now : Instant) : Pass cfg s legacy rest .ended (.roundEnd now) (s.roundEnd rest now)

theorem Shared.roundStep_pass (h : s.roundStep cfg legacy rest p r = some s') :
    Pass cfg s legacy rest p r s' := by
  unfold Shared.roundStep at h
  split at h
  · split at h
    · rename_i hk
      cases h
      exact .block hk
    · rename_i hk
      cases h
      exact .last hk
  · rename_i start k now
    by_cases hd : s.due cfg ((start + k) % s.n) now = true
    · by_cases hb : cfg.budget ≤ s.round.used
      · simp only [hd, hb, Bool.not_true, if_true] at h
        cases h
        exact .left hd hb
      · simp only [hd, hb, Bool.not_true, if_false] at h
        cases h
        exact .due hd (Nat.lt_of_not_le hb)
    · simp only [hd, Bool.not_false, if_true] at h
      cases h
      exact .notDue (by simpa using hd)
  · dsimp only at h
    split at h
    · rename_i ha
      cases h
      exact .send ha
    · rename_i ha
      cases h
      exact .skip (by simpa using ha)
  · cases h
    exact .reply ..
  · cases h
    exact .blocks
  · cases h
    exact .legacy
  · rename_i object now
    dsimp only at h
    cases h
    by_cases ha : (s.passes cfg true true object now).1 = true
    · rw [if_pos ha]
      exact .call ha
    · rw [if_neg ha]
      exact .skipCall (by simpa using ha)
  · cases h
    exact .answer ..
  · cases h
    exact .done
  · cases h
    exact .ended _
  · cases h

end Pass

end Executor

end Datad
