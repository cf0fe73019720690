/-
  Datad/Hub/Executor.lean
  =======================
  **The executor's rounds** (`executor.rs`) over the block hub.

  One task reads the blocks: it goes over them once a round, tests whether each is due,
  calls ubus and records the reply.  Event listeners and control requests mark blocks
  for immediate reading from other tasks, at any moment, in particular while a call is
  in flight.  Queued jobs run at safe points only, between two blocks or after them; a
  job may itself be a round, so the rounds under way form a stack.
-/
import Datad.Hub.Publication
import Datad.Lib.Transition

namespace Datad.Hub

open Transition

structure Config where
  budget : Duration := secs 3
  cache : Bool := true

/-- The errors of a call as far as the round tells them apart. -/
inductive UbusError where
  | timeout (detail : String)
  | skipped (object : String)
  | other (text : String)

def UbusError.text : UbusError → String
  | .timeout detail => detail
  | .skipped object => "ubus " ++ object ++ ": skipped after a recent timeout"
  | .other text => text

/-- Where a round is: before testing the `k`-th block, counted from `start`; decided to
    read block `i`; waiting for its call (`sent`: there is one, the object was not
    skipped); or past the blocks, in the old collection. -/
inductive Phase where
  | scan (start k : Nat)
  | ready (start k i : Nat)
  | call (start k i : Nat) (sent : Bool)
  | legacy
deriving DecidableEq

structure Round where
  /-- Started by the main loop, not as a job. -/
  main : Bool
  phase : Phase
deriving DecidableEq

structure Shared where
  hub : Inner
  /-- Time the current round has spent in ubus calls. -/
  used : Duration := 0
  /-- Objects that timed out in the current round. -/
  skips : List String := []
  /-- Where the next round starts. -/
  cursor : Nat := 0
  kick : Bool := false
  lastRoundEnd : Instant := 0
  /-- The rounds under way, the innermost first. -/
  rounds : List Round := []
  /-- The blocks marked since the last request for them went out.  The code does not
      keep this. -/
  asked : Nat → Bool := fun _ => false

inductive Act where
  /-- `/control` marks blocks, `none` marks all. -/
  | mark (names : Option (List String))
  /-- An event listener marks blocks and asks for a round. -/
  | kick (names : List String)
  /-- The old collection and the transaction engine hand in derived blocks. -/
  | record (name : String) (result : Except String Value) (now : Instant) (wall : Nat)
  | expire (now : Instant) (sampleInterval : Duration)
  | heartbeat (now : Instant) (execAgeMs : Nat) (quiet : Duration)
  /-- The main loop starts a round. -/
  | round (now : Instant) (sampleInterval : Duration)
  /-- A queued job starts a round. -/
  | roundJob
  | test (now : Instant) (sampleInterval : Duration)
  | send
  | reply (result : Except UbusError Value) (elapsed : Duration) (now : Instant) (wall : Nat)
  /-- A call of the old collection. -/
  | legacyCall (object : String) (elapsed : Duration) (timedOut : Bool)
  | roundEnd (now : Instant) (sampleInterval : Duration)

namespace Shared

def new (specs : List BlockSpec) : Shared := { hub := Hub.new specs }

def marked (s : Shared) (names : Option (List String)) : Shared :=
  { s with
    hub := markImmediate s.hub names
    asked := fun i => s.asked i ||
      s.hub.blocks[i]?.any fun b => names.all (·.contains b.spec.name) }

/-- The start of `round`. -/
def startRound (s : Shared) (main : Bool) : Shared :=
  { s with
    used := 0, skips := []
    rounds := ⟨main, .scan (s.cursor % s.hub.blocks.length) 0⟩ :: s.rounds }

/-- Jobs do not run between the test of a block and the record of its reply. -/
def atSafePoint (s : Shared) : Bool :=
  match s.rounds with
  | ⟨_, .ready ..⟩ :: _ | ⟨_, .call ..⟩ :: _ => false
  | _ => true

/-- Test the next block: whether it is due, and whether the budget admits a request. -/
def test (cfg : Config) (s : Shared) (main : Bool) (start k : Nat) (rest : List Round)
    (now : Instant) (sampleInterval : Duration) : Shared :=
  let i := (start + k) % s.hub.blocks.length
  match if k < s.hub.blocks.length then s.hub.blocks[i]? else none with
  | none => { s with rounds := ⟨main, .legacy⟩ :: rest }
  | some b =>
    if !due b now ⟨cfg.cache, sampleInterval⟩ then
      { s with rounds := ⟨main, .scan start (k + 1)⟩ :: rest }
    else if cfg.budget ≤ s.used then
      -- no new request in this round, the next one starts here
      { s with cursor := i, rounds := ⟨main, .legacy⟩ :: rest }
    else { s with rounds := ⟨main, .ready start k i⟩ :: rest }

def object (s : Shared) (i : Nat) : String :=
  (s.hub.blocks[i]?.map (·.spec.object)).getD ""

/-- Start the call of block `i` (`raw_call`): no request for an object that has timed out
    in this round. -/
def send (s : Shared) (main : Bool) (start k i : Nat) (rest : List Round) : Shared :=
  if s.skips.contains (s.object i) then
    { s with rounds := ⟨main, .call start k i false⟩ :: rest }
  else
    { s with
      rounds := ⟨main, .call start k i true⟩ :: rest
      asked := fun j => s.asked j && j != i }

/-- The call of block `i` returns (`raw_call`, `read_blocks`). -/
def reply (s : Shared) (main : Bool) (start k i : Nat) (sent : Bool) (rest : List Round)
    (result : Except UbusError Value) (elapsed : Duration) (now : Instant) (wall : Nat) :
    Shared :=
  let result := if sent then result else .error (.skipped (s.object i))
  { s with
    hub := (recordRead s.hub i (result.mapError UbusError.text) now wall).1
    used := if sent then s.used + elapsed else s.used
    skips := match result with
      | .error (.timeout _) => s.object i :: s.skips
      | _ => s.skips
    rounds := ⟨main, .scan start (k + 1)⟩ :: rest }

def next (cfg : Config) (s : Shared) : Act → Option Shared
  | .mark names => some (s.marked names)
  | .kick names => some { s.marked (some names) with kick := true }
  | .record name result now wall =>
    -- the callers hand in derived blocks only
    match position s.hub name with
    | none => some s
    | some i =>
      if s.hub.blocks[i]?.all (·.spec.derived) then
        some { s with hub := (recordRead s.hub i result now wall).1 }
      else none
  | .expire now sampleInterval => some { s with hub := (expire s.hub now sampleInterval).1 }
  | .heartbeat now execAgeMs quiet =>
    some { s with hub := (heartbeatIfQuiet s.hub now execAgeMs quiet).1 }
  | .round now sampleInterval =>
    if s.rounds = [] ∧ (s.kick ∨ s.lastRoundEnd + sampleInterval ≤ now) then
      some { s.startRound true with kick := false }
    else none
  | .roundJob => if s.atSafePoint then some (s.startRound false) else none
  | .test now sampleInterval =>
    match s.rounds with
    | ⟨main, .scan start k⟩ :: rest => some (s.test cfg main start k rest now sampleInterval)
    | _ => none
  | .send =>
    match s.rounds with
    | ⟨main, .ready start k i⟩ :: rest => some (s.send main start k i rest)
    | _ => none
  | .reply result elapsed now wall =>
    match s.rounds with
    | ⟨main, .call start k i sent⟩ :: rest =>
      some (s.reply main start k i sent rest result elapsed now wall)
    | _ => none
  | .legacyCall object elapsed timedOut =>
    match s.rounds with
    | ⟨_, .legacy⟩ :: _ =>
      some { s with
        used := s.used + elapsed
        skips := if timedOut then object :: s.skips else s.skips }
    | _ => none
  | .roundEnd now sampleInterval =>
    match s.rounds with
    | ⟨main, .legacy⟩ :: rest =>
      some { s with
        hub := (roundEnd s.hub now sampleInterval).1
        lastRoundEnd := if main then now else s.lastRoundEnd
        rounds := rest }
    | _ => none

end Shared

/-! ### Marks and attempts of one block -/

/-- A change that neither reads nor marks a block. -/
structure Untried (b b' : Block) : Prop where
  spec : b'.spec = b.spec
  immediate : b'.immediate = b.immediate
  lastAttempt : b'.lastAttempt = b.lastAttempt
  lastFailed : b'.lastFailed = b.lastFailed

theorem Untried.refl (b : Block) : Untried b b := ⟨rfl, rfl, rfl, rfl⟩

theorem Untried.trans {a b c : Block} (h : Untried a b) (h' : Untried b c) : Untried a c :=
  ⟨h'.spec.trans h.spec, h'.immediate.trans h.immediate, h'.lastAttempt.trans h.lastAttempt,
    h'.lastFailed.trans h.lastFailed⟩

variable {g : Inner} {i j : Nat} {b b' : Block} {now : Instant}

theorem publish_untried (seq : Nat) (b : Block) (decision : Publish) (flipped : Bool)
    (now : Instant) : Untried b (publish seq b decision flipped now).2.1 := by
  cases decision <;> simp only [publish] <;> split <;> exact ⟨rfl, rfl, rfl, rfl⟩

theorem expire_untried (g : Inner) (now : Instant) (sampleInterval : Duration) :
    Pointwise Untried g.blocks (expire g now sampleInterval).1.blocks := by
  refine sweep_pointwise Untried.refl Untried.trans (fun seq b => ?_) _ g
  rw [expireBlock]
  split
  · have hflip : Untried b { b with stale := true } := ⟨rfl, rfl, rfl, rfl⟩
    exact hflip.trans (publish_untried ..)
  · exact .refl b

theorem roundEnd_untried (g : Inner) (now : Instant) (sampleInterval : Duration) :
    Pointwise Untried g.blocks (roundEnd g now sampleInterval).1.blocks := by
  refine (expire_untried g now sampleInterval).trans Untried.trans
    (sweep_pointwise Untried.refl Untried.trans (fun seq b => ?_) _ _)
  rw [roundEndBlock]
  split
  · exact .refl b
  · dsimp only
    split
    · exact .refl b
    · exact publish_untried ..

theorem heartbeatIfQuiet_untried (g : Inner) (now : Instant) (execAgeMs : Nat)
    (quiet : Duration) :
    Pointwise Untried g.blocks (heartbeatIfQuiet g now execAgeMs quiet).1.blocks := by
  rw [heartbeatIfQuiet]
  split
  · exact .refl Untried.refl g.blocks
  · exact .refl Untried.refl g.blocks

theorem reshapeDependents_untried (g : Inner) (i : Nat) (name : String) (now : Instant) :
    Pointwise Untried g.blocks (reshapeDependents g i name now).1.blocks := by
  refine reshapeDependents_pointwise Untried.refl Untried.trans (fun seq b d => ?_) g i name
  have hdata : Untried b { b with data := some d } := ⟨rfl, rfl, rfl, rfl⟩
  exact hdata.trans (publish_untried ..)

/-- What recording the outcome of an attempt leaves of it. -/
structure Tried (result : Except String Value) (now : Instant) (b b' : Block) : Prop where
  spec : b'.spec = b.spec
  immediate : b'.immediate = false
  lastAttempt : b'.lastAttempt = some now
  lastFailed : b'.lastFailed = (accepted result).isNone

theorem Tried.untried {result : Except String Value} {b₁ : Block} (h : Tried result now b b₁)
    (hu : Untried b₁ b') : Tried result now b b' :=
  ⟨hu.spec.trans h.spec, hu.immediate.trans h.immediate, hu.lastAttempt.trans h.lastAttempt,
    hu.lastFailed.trans h.lastFailed⟩

/-- The block that was read is put back, then its dependents may be recomputed. -/
theorem recordRead_tried (hb : g.blocks[i]? = some b) (result : Except String Value)
    (now : Instant) (wall : Nat) :
    ∃ b₁, Tried result now b b₁ ∧
      Pointwise Untried (g.blocks.set i b₁) (recordRead g i result now wall).1.blocks := by
  simp only [recordRead, hb]
  rcases ha : accepted result with _ | v
  · have hfail : Tried result now b (b.fail now) := ⟨rfl, rfl, rfl, by rw [ha]; rfl⟩
    have hflip : Untried (b.fail now) { b.fail now with stale := true } := ⟨rfl, rfl, rfl, rfl⟩
    dsimp only
    split
    · exact ⟨b.fail now, hfail, .refl Untried.refl _⟩
    · exact ⟨_, hfail.untried (hflip.trans (publish_untried ..)), .refl Untried.refl _⟩
  · have hread : Tried result now b (b.read v (shape g.blocks b.spec v) now wall) :=
      ⟨rfl, rfl, rfl, by rw [ha]; rfl⟩
    dsimp only
    generalize hb₁ : publishRead g.seq (b.read v (shape g.blocks b.spec v) now wall) b.stale now = r
    have htried : Tried result now b r.2.1 := hb₁ ▸ hread.untried (publish_untried ..)
    refine ⟨r.2.1, htried, ?_⟩
    split
    · exact .refl Untried.refl _
    · exact reshapeDependents_untried (put g i r).1 i b.spec.name now

/-- Recording a read touches the attempts of that block only. -/
theorem recordRead_get {result : Except String Value} {wall : Nat}
    (hb' : (recordRead g i result now wall).1.blocks[j]? = some b') :
    ∃ b, g.blocks[j]? = some b ∧ (j ≠ i → Untried b b') ∧ (j = i → Tried result now b b') := by
  rcases hb : g.blocks[i]? with _ | b
  · simp only [recordRead, hb] at hb'
    refine ⟨b', hb', fun _ => .refl b', ?_⟩
    rintro rfl
    cases hb.symm.trans hb'
  · obtain ⟨b₁, htried, hp⟩ := recordRead_tried hb result now wall
    obtain ⟨x, hx, hu⟩ := hp.get hb'
    by_cases hij : i = j
    · subst hij
      rw [List.getElem?_set_self (List.getElem?_eq_some_iff.mp hb).1] at hx
      obtain rfl := Option.some.inj hx
      exact ⟨b, hb, fun h => absurd rfl h, fun _ => htried.untried hu⟩
    · rw [List.getElem?_set_ne hij] at hx
      exact ⟨x, hx, fun _ => hu, fun h => absurd h.symm hij⟩

/-! ### Marks that are still open -/

/-- The block is due at every test, but for the retry pause after a failed attempt. -/
def Prompt (b : Block) : Prop :=
  ∀ now sched, (∀ last, b.lastFailed = true → b.lastAttempt = some last →
    failureRetry - sched.sampleInterval ≤ now - last) → due b now sched = true

/-- What keeps a block from waiting for its interval. -/
def Heard (b : Block) : Prop :=
  b.lastAttempt = none ∨ b.immediate = true ∨ b.lastFailed = true

theorem Heard.prompt (h : Heard b) (hd : b.spec.derived = false) : Prompt b := by
  intro now sched hpause
  rw [due, if_neg (by simp [hd])]
  rcases hl : b.lastAttempt with _ | last
  · rfl
  · rcases h with h | h | h
    · exact nomatch h.symm.trans hl
    · simp [h]
    · have hle := hpause last h hl
      dsimp only
      split
      · rfl
      · rw [decide_eq_true_eq]
        exact Nat.le_trans (Nat.min_le_left _ _) hle

theorem Untried.heard (hu : Untried b b') (h : Heard b) : Heard b' := by
  rw [Heard, hu.lastAttempt, hu.immediate, hu.lastFailed]
  exact h

namespace Shared

variable {cfg : Config} {s s' : Shared} {a : Act}

/-- Every open mark of a block the executor reads is heard. -/
def Open (s : Shared) : Prop :=
  ∀ i b, s.hub.blocks[i]? = some b → b.spec.derived = false → s.asked i = true → Heard b

/-- No mark has arrived since the read began that now succeeds. -/
def timely (s : Shared) : Act → Bool
  | .reply result .. =>
    match s.rounds with
    | ⟨_, .call _ _ i true⟩ :: _ =>
      (accepted (result.mapError UbusError.text)).isNone || !s.asked i
    | _ => true
  | _ => true

theorem Open.untried (h : s.Open) (hp : Pointwise Untried s.hub.blocks s'.hub.blocks)
    (hasked : ∀ i, s'.asked i = true → s.asked i = true) : s'.Open := by
  intro i b' hb' hd ha
  obtain ⟨b, hb, hu⟩ := hp.get hb'
  exact hu.heard (h i b hb (hu.spec ▸ hd) (hasked i ha))

theorem Open.marked (h : s.Open) (names : Option (List String)) : (s.marked names).Open := by
  intro i b' hb' hd ha
  simp only [Shared.marked, markImmediate, List.getElem?_map] at hb' ha
  obtain ⟨b, hb, rfl⟩ := Option.map_eq_some_iff.mp hb'
  simp only [hb, Option.any_some, Bool.or_eq_true] at ha
  split
  · exact .inr (.inl rfl)
  · rename_i hno
    rw [if_neg hno] at hd
    rcases ha with ha | ha
    · exact h i b hb hd ha
    · exact absurd ha hno

/-- A recorded outcome answers no mark: the block is derived, or no mark is open, or the
    attempt failed and is repeated. -/
theorem Open.recordRead (h : s.Open) {i : Nat} {result : Except String Value} {now : Instant}
    {wall : Nat} (hub : s'.hub = (recordRead s.hub i result now wall).1)
    (hasked : s'.asked = s.asked)
    (hok : ∀ b, s.hub.blocks[i]? = some b → b.spec.derived = false → s.asked i = true →
      accepted result = none) : s'.Open := by
  intro j b' hb' hd ha
  rw [hub] at hb'
  rw [hasked] at ha
  obtain ⟨b, hb, hother, hself⟩ := recordRead_get hb'
  by_cases hij : j = i
  · subst hij
    have ht := hself rfl
    refine .inr (.inr ?_)
    rw [ht.lastFailed, hok b hb (ht.spec ▸ hd) ha]
    rfl
  · have hu := hother hij
    exact hu.heard (h j b hb (hu.spec ▸ hd) ha)

/-- A step that leaves the hub alone can only answer marks. -/
theorem Open.same (h : s.Open) (hhub : s'.hub = s.hub)
    (hasked : ∀ i, s'.asked i = true → s.asked i = true) : s'.Open :=
  h.untried (hhub ▸ .refl Untried.refl _) hasked

theorem Open.test (h : s.Open) (cfg : Config) (main : Bool) (start k : Nat)
    (rest : List Round) (now : Instant) (sampleInterval : Duration) :
    (s.test cfg main start k rest now sampleInterval).Open := by
  rw [Shared.test]
  split
  · exact h.same rfl fun _ => id
  · split
    · exact h.same rfl fun _ => id
    · split
      · exact h.same rfl fun _ => id
      · exact h.same rfl fun _ => id

theorem Open.send (h : s.Open) (main : Bool) (start k i : Nat) (rest : List Round) :
    (s.send main start k i rest).Open := by
  rw [Shared.send]
  split
  · exact h.same rfl fun _ => id
  · exact h.same rfl fun j hj => (Bool.and_eq_true_iff.mp hj).1

theorem Open.reply (h : s.Open) {main : Bool} {start k i : Nat} {sent : Bool}
    {rest : List Round} {result : Except UbusError Value} {elapsed : Duration} {now : Instant}
    {wall : Nat} (hr : s.rounds = ⟨main, .call start k i sent⟩ :: rest)
    (hok : s.timely (.reply result elapsed now wall) = true) :
    (s.reply main start k i sent rest result elapsed now wall).Open := by
  refine h.recordRead rfl rfl fun b hb _ ha => ?_
  cases sent with
  | false => rfl
  | true =>
    simp only [timely, hr, ha, Bool.not_true, Bool.or_false, Option.isNone_iff_eq_none] at hok
    exact hok

theorem Open.next (h : s.Open) (hok : s.timely a = true) (hs : next cfg s a = some s') :
    s'.Open := by
  have hpure {s₁ : Shared} (hp : Pointwise Untried s.hub.blocks s₁.hub.blocks)
      (ha : s₁.asked = s.asked) : s₁.Open :=
    h.untried hp fun _ hi => ha ▸ hi
  cases a with
  | mark names =>
    obtain rfl := Option.some.inj hs
    exact h.marked names
  | kick names =>
    obtain rfl := Option.some.inj hs
    exact h.marked (some names)
  | record name result now wall =>
    simp only [Shared.next] at hs
    split at hs
    · obtain rfl := Option.some.inj hs
      exact h
    · split at hs
      · rename_i i _ hder
        obtain rfl := Option.some.inj hs
        refine h.recordRead rfl rfl fun b hb hd => ?_
        simp [hb, hd] at hder
      · cases hs
  | expire now sampleInterval =>
    obtain rfl := Option.some.inj hs
    exact hpure (expire_untried s.hub now sampleInterval) rfl
  | heartbeat now execAgeMs quiet =>
    obtain rfl := Option.some.inj hs
    exact hpure (heartbeatIfQuiet_untried s.hub now execAgeMs quiet) rfl
  | round now sampleInterval =>
    simp only [Shared.next] at hs
    split at hs
    · obtain rfl := Option.some.inj hs
      exact h.same rfl fun _ => id
    · cases hs
  | roundJob =>
    simp only [Shared.next] at hs
    split at hs
    · obtain rfl := Option.some.inj hs
      exact h.same rfl fun _ => id
    · cases hs
  | test now sampleInterval =>
    simp only [Shared.next] at hs
    split at hs
    · obtain rfl := Option.some.inj hs
      exact h.test _ _ _ _ _ _ _
    · cases hs
  | send =>
    simp only [Shared.next] at hs
    split at hs
    · obtain rfl := Option.some.inj hs
      exact h.send _ _ _ _ _
    · cases hs
  | reply result elapsed now wall =>
    simp only [Shared.next] at hs
    split at hs
    · rename_i hr
      obtain rfl := Option.some.inj hs
      exact h.reply hr hok
    · cases hs
  | legacyCall object elapsed timedOut =>
    simp only [Shared.next] at hs
    split at hs
    · obtain rfl := Option.some.inj hs
      exact h.same rfl fun _ => id
    · cases hs
  | roundEnd now sampleInterval =>
    simp only [Shared.next] at hs
    split at hs
    · obtain rfl := Option.some.inj hs
      exact hpure (roundEnd_untried s.hub now sampleInterval) rfl
    · cases hs

theorem new_open (specs : List BlockSpec) : (Shared.new specs).Open :=
  fun _ _ _ _ ha => nomatch ha

/-- **Marks are not lost.**  In every run in which no mark of a block arrives during a
    read of it that succeeds: as long as no request for a marked block has gone out since
    the mark, the block does not wait for its interval.  It is due at every test, but for
    the retry pause after a failed attempt, and no test passes it over: it is read next, or
    the budget is spent and the next round starts with it. -/
theorem mark_not_lost (cfg : Config) (specs : List BlockSpec)
    (h : Exec (next cfg) (fun s a => s.timely a = true) (Shared.new specs) s) {i : Nat}
    {b : Block} (hb : s.hub.blocks[i]? = some b) (hd : b.spec.derived = false)
    (ha : s.asked i = true) :
    Prompt b ∧ ∀ main start k rest now sampleInterval,
      s.rounds = ⟨main, .scan start k⟩ :: rest → k < s.hub.blocks.length →
      (start + k) % s.hub.blocks.length = i →
      (∀ last, b.lastFailed = true → b.lastAttempt = some last →
        failureRetry - sampleInterval ≤ now - last) →
      ∃ s', next cfg s (.test now sampleInterval) = some s' ∧
        (s'.rounds = ⟨main, .ready start k i⟩ :: rest ∨
          cfg.budget ≤ s.used ∧ s'.cursor = i) := by
  have hopen : s.Open :=
    h.invariant Open (fun ho hok hs => ho.next hok hs) (new_open specs)
  have hprompt : Prompt b := (hopen i b hb hd ha).prompt hd
  refine ⟨hprompt, ?_⟩
  intro main start k rest now sampleInterval hr hk hi hpause
  have hdue : due b now ⟨cfg.cache, sampleInterval⟩ = true := hprompt now _ hpause
  refine ⟨s.test cfg main start k rest now sampleInterval, by simp [next, hr], ?_⟩
  simp only [Shared.test, hi, if_pos hk, hb, hdue, Bool.not_true]
  by_cases hbudget : cfg.budget ≤ s.used
  · right
    simp [hbudget]
  · left
    simp [hbudget]

/-- A mark that arrives during a read that succeeds is lost: with caching on, the block
    waits for its whole interval although no request has gone out since the mark. -/
theorem late_mark_lost {main : Bool} {start k i : Nat} {rest : List Round} {b : Block}
    {result : Except UbusError Value} {v : Value}
    (hr : s.rounds = ⟨main, .call start k i true⟩ :: rest) (hb : s.hub.blocks[i]? = some b)
    (ha : s.asked i = true) (hv : accepted (result.mapError UbusError.text) = some v)
    (hint : b.spec.interval ≠ 0) (elapsed : Duration) (now : Instant) (wall : Nat) :
    ∃ s' b', next cfg s (.reply result elapsed now wall) = some s' ∧
      s'.hub.blocks[i]? = some b' ∧ s'.asked i = true ∧
      ∀ later sampleInterval, later - now < b.spec.interval →
        due b' later ⟨true, sampleInterval⟩ = false := by
  obtain ⟨b₁, ht₁, hp⟩ := recordRead_tried hb (result.mapError UbusError.text) now wall
  have hi : (s.hub.blocks.set i b₁)[i]? = some b₁ :=
    List.getElem?_set_self (List.getElem?_eq_some_iff.mp hb).1
  have hrel := hp i
  rw [hi] at hrel
  generalize hx : (recordRead s.hub i (result.mapError UbusError.text) now wall).1.blocks[i]? = x
    at hrel
  cases hrel with
  | @some _ b' hu =>
    have ht := ht₁.untried hu
    refine ⟨s.reply main start k i true rest result elapsed now wall, b', by simp [next, hr],
      by simpa [Shared.reply] using hx, ha, ?_⟩
    intro later sampleInterval hlt
    have hfail : b'.lastFailed = false := by rw [ht.lastFailed, hv]; rfl
    simp [due, ht.spec, ht.immediate, ht.lastAttempt, hfail, hint, hlt]

/-- One round over the daemon's blocks.  `during` happens while the third call, that of
    the Type-C port, is in flight. -/
def sampleRound (during : List Act) : List Act :=
  let call : List Act :=
    [.test (secs 1) (secs 1), .send, .reply (.ok (.obj [])) 1000000 (secs 1) 100]
  [.round (secs 1) (secs 1)] ++ call ++ call ++ [.test (secs 1) (secs 1), .send] ++ during ++
    [.reply (.ok (.obj [])) 1000000 (secs 1) 100] ++ call ++
    List.replicate 14 (.test (secs 1) (secs 1)) ++ [.roundEnd (secs 1) (secs 1)]

/-- A plug event while the Type-C port is being read, and the round it asks for, up to
    the port. -/
def pluggedRun : List Act :=
  sampleRound [.kick ["typec", "powerbank", "charger"]] ++
    [.round (secs 1) (secs 1), .test (secs 1) (secs 1), .test (secs 1) (secs 1), .send,
      .reply (.ok (.obj [])) 1000000 (secs 1) 100, .test (secs 1) (secs 1)]

/-- The round asked for passes the port over, and the port is not due. -/
theorem plug_event_during_read_lost :
    ∃ s, Exec (next {}) (fun _ _ => True) (Shared.new sampleSpecs) s ∧
      ∃ b, s.hub.blocks[2]? = some b ∧ b.spec.derived = false ∧ s.asked 2 = true ∧
        s.rounds = [⟨true, .scan 0 3⟩] ∧ ¬ Prompt b := by
  obtain ⟨s, hs, hp⟩ : ∃ s, Exec (next {}) (fun _ _ => True) (Shared.new sampleSpecs) s ∧
      (s.asked 2 && s.rounds == [⟨true, .scan 0 3⟩] && s.hub.blocks[2]?.any fun b =>
        !b.spec.derived && !b.lastFailed && !due b (secs 1) ⟨true, secs 1⟩) = true := by
    have hrun : ((Transition.run (next {}) (fun _ _ => true) (Shared.new sampleSpecs)
        pluggedRun).any fun s => s.asked 2 && s.rounds == [⟨true, .scan 0 3⟩] &&
          s.hub.blocks[2]?.any fun b =>
            !b.spec.derived && !b.lastFailed && !due b (secs 1) ⟨true, secs 1⟩) = true := by
      decide +kernel
    exact Exec.exists_of_run (fun _ _ _ => trivial) (.refl _) hrun
  simp only [Bool.and_eq_true, beq_iff_eq] at hp
  obtain ⟨⟨hasked, hrounds⟩, hblock⟩ := hp
  rcases hb : s.hub.blocks[2]? with _ | b
  · simp [hb] at hblock
  · simp only [hb, Option.any_some, Bool.and_eq_true, Bool.not_eq_true'] at hblock
    obtain ⟨⟨hder, hfail⟩, hdue⟩ := hblock
    refine ⟨s, hs, b, hb, hder, hasked, hrounds, fun hprompt => ?_⟩
    have hno := hprompt (secs 1) ⟨true, secs 1⟩ fun last hf => nomatch hfail.symm.trans hf
    exact nomatch hdue.symm.trans hno

/-- The same event between two rounds: the port is due in the next one. -/
theorem plug_event_between_rounds_kept :
    ∃ s b, Exec (next {}) (fun s a => s.timely a = true) (Shared.new sampleSpecs) s ∧
      s.hub.blocks[2]? = some b ∧ b.spec.derived = false ∧ s.asked 2 = true ∧ Prompt b := by
  obtain ⟨s, hs, hp⟩ : ∃ s, Exec (next {}) (fun s a => s.timely a = true)
      (Shared.new sampleSpecs) s ∧
      (s.asked 2 && s.hub.blocks[2]?.any fun b => !b.spec.derived) = true := by
    have hrun : ((Transition.run (next {}) timely (Shared.new sampleSpecs)
        (sampleRound [] ++ [.kick ["typec", "powerbank", "charger"]])).any fun s =>
          s.asked 2 && s.hub.blocks[2]?.any fun b => !b.spec.derived) = true := by
      decide +kernel
    exact Exec.exists_of_run (fun _ _ h => h) (.refl _) hrun
  rw [Bool.and_eq_true] at hp
  rcases hb : s.hub.blocks[2]? with _ | b
  · simp [hb] at hp
  · have hder : b.spec.derived = false := by simpa [hb] using hp.2
    exact ⟨s, b, hs, hb, hder, hp.1, (mark_not_lost {} sampleSpecs hs hb hder hp.1).1⟩

end Shared

end Datad.Hub
