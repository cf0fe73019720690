/-
  Datad/Executor/Watchdog.lean
  ============================
  **The watchdog ends the process when its executor is stuck, and only then** (`watchdog.rs`,
  `Liveness` of `executor.rs`).

  The executor marks its progress, notes until when a call may take and says whether it has
  work; each of these is a store of its own.  The watchdog is a thread of its own and loads
  them one after another, so that a look may fall between any two of the stores.

  `exit_stalled` says what was so when the process ended.  `paced_alive` says when it never
  does: calls may begin at any time and take their whole limit.  `stuck_noticed` is the other
  direction: an executor that has work and stops moving is noticed.
-/
import Datad.Lib.Transition
import Datad.Sms.ListAfter

namespace Datad

namespace Watchdog

open Transition

/-! ### Settings -/

/-- Durations and instants are in nanoseconds. -/
def secs (n : Nat) : Nat := n * 1000000000

def CALL_LIMIT : Nat := secs 10

def DEFAULT_LIMIT : Nat := secs 30

/-- `limit_from_env`; nothing where the watchdog is off. -/
def limitFromEnv (v : Option String) : Option Nat :=
  let limit : Option Nat :=
    match v with
    | none => some DEFAULT_LIMIT
    | some v =>
        match Sms.parseU64 (Sms.trim v) with
        | some 0 => none
        | some s => some (secs s)
        | none => some DEFAULT_LIMIT
  limit.map (max · (CALL_LIMIT + secs 1))

def millis (d : Nat) : Nat := d / 1000000

/-- `Liveness::at`, of the time since `epoch`. -/
def atMs (t : Nat) : Nat := millis t + 1

/-! ### The two threads -/

/-- Where the executor is. -/
inductive Place where
  | works
  /-- A call is under way. -/
  | calls
  /-- The call is over, and its progress not yet marked. -/
  | replied
  | idle
  /-- Woken, and not yet marked as busy. -/
  | woken
deriving DecidableEq

/-- Where the watchdog is, with what it has loaded so far. -/
inductive Dog where
  | sleeps (wake : Nat)
  | clock (now : Nat)
  | call (now until' : Nat)
  | busy (now until' : Nat)
deriving DecidableEq

/-- The stores of the executor, and the end. -/
inductive Event where
  | mark (time : Nat)
  | asleep (time : Nat)
  | awake (time : Nat)
  | started (time : Nat)
  | ended (time : Nat)
  /-- `now` is what the watchdog took for the time. -/
  | exit (now : Nat)
deriving DecidableEq

structure State where
  /-- Since the start. -/
  now : Nat := 0
  lastMs : Nat := 1
  busy : Bool := true
  callUntilMs : Nat := 0
  place : Place := .works
  dog : Dog := .sleeps (secs 1)
  exited : Bool := false
  /-- The last event first. -/
  log : List Event := []
deriving DecidableEq

inductive Act where
  | tick (d : Nat)
  /-- Progress, of the executor or of a thread that works for it. -/
  | mark
  | callStarted
  | callEnded
  | replied
  | sleep
  | wake
  | setBusy
  | look

/-- `Liveness::progress`. -/
def State.progress (s : State) : State :=
  { s with lastMs := atMs s.now, log := .mark s.now :: s.log }

/-- `Liveness::stalled`, one load at a time, and the loop of `watchdog::spawn` around it. -/
def State.look (limit : Nat) (s : State) : Option State :=
  match s.dog with
  | .sleeps wake => if s.now < wake then none else some { s with dog := .clock s.now }
  | .clock now => some { s with dog := .call now s.callUntilMs }
  | .call now until' =>
      some { s with dog := if s.busy then .busy now until' else .sleeps (s.now + secs 1) }
  | .busy now until' =>
      if millis limit < atMs now - s.lastMs ∧ ¬(until' ≠ 0 ∧ atMs now < until') then
        some { s with exited := true, log := .exit now :: s.log }
      else some { s with dog := .sleeps (s.now + secs 1) }

/-- A step of a process that is still there. -/
def step (limit : Nat) (s : State) : Act → Option State
  | .tick d => some { s with now := s.now + d }
  | .mark => some s.progress
  | .callStarted =>
      if s.place = .works then
        some { s with
          callUntilMs := atMs (s.now + CALL_LIMIT)
          place := .calls
          log := .started s.now :: s.log }
      else none
  | .callEnded =>
      if s.place = .calls then
        some { s with callUntilMs := 0, place := .replied, log := .ended s.now :: s.log }
      else none
  | .replied => if s.place = .replied then some { s.progress with place := .works } else none
  | .sleep =>
      if s.place = .works then
        some { s with busy := false, place := .idle, log := .asleep s.now :: s.log }
      else none
  | .wake => if s.place = .idle then some { s.progress with place := .woken } else none
  | .setBusy =>
      if s.place = .woken then
        some { s with busy := true, place := .works, log := .awake s.now :: s.log }
      else none
  | .look => s.look limit

def next (limit : Nat) (s : State) (a : Act) : Option State :=
  if s.exited then none else step limit s a

/-- The call that is under way. -/
def inFlight : List Event → Option Nat
  | [] => none
  | .started t :: _ => some t
  | .ended _ :: _ => none
  | _ :: log => inFlight log

/-- The time of the last store. -/
def touched : List Event → Nat
  | [] => 0
  | .exit _ :: log => touched log
  | .mark t :: _ | .asleep t :: _ | .awake t :: _ | .started t :: _ | .ended t :: _ => t

variable {limit : Nat} {s s' : State}

theorem atMs_mono {t u : Nat} (h : t ≤ u) : atMs t ≤ atMs u :=
  Nat.succ_le_succ (Nat.div_le_div_right h)

/-! ### What a step does -/

/-- One constructor for each act, with what it needs and what it leaves. -/
inductive Goes (limit : Nat) (s : State) : Act → State → Prop where
  | tick (d : Nat) : Goes limit s (.tick d) { s with now := s.now + d }
  | mark : Goes limit s .mark s.progress
  | callStarted (hp : s.place = .works) : Goes limit s .callStarted
      { s with
        callUntilMs := atMs (s.now + CALL_LIMIT)
        place := .calls
        log := .started s.now :: s.log }
  | callEnded (hp : s.place = .calls) : Goes limit s .callEnded
      { s with callUntilMs := 0, place := .replied, log := .ended s.now :: s.log }
  | replied (hp : s.place = .replied) :
      Goes limit s .replied { s.progress with place := .works }
  | sleep (hp : s.place = .works) : Goes limit s .sleep
      { s with busy := false, place := .idle, log := .asleep s.now :: s.log }
  | wake (hp : s.place = .idle) : Goes limit s .wake { s.progress with place := .woken }
  | setBusy (hp : s.place = .woken) : Goes limit s .setBusy
      { s with busy := true, place := .works, log := .awake s.now :: s.log }
  | look {s' : State} (hs : s.look limit = some s') : Goes limit s .look s'

theorem step_goes {a : Act} (hs : step limit s a = some s') : Goes limit s a s' := by
  cases a with
  | look => exact .look hs
  | tick d =>
    cases hs
    exact .tick d
  | mark =>
    cases hs
    exact .mark
  | _ =>
    obtain ⟨hp, hs⟩ := Option.ite_none_right_eq_some.mp hs
    cases hs
    constructor
    exact hp

/-- Only a process that is still there takes a step. -/
theorem next_goes {a : Act} (hs : next limit s a = some s') :
    s.exited = false ∧ Goes limit s a s' := by
  unfold next at hs
  split at hs
  · cases hs
  · rename_i hlive
    exact ⟨Bool.eq_false_iff.mpr hlive, step_goes hs⟩

/-! ### What was so at the end -/

/-- For longer than the limit before `now` no progress was marked and there was work all the
    time; and a call that was under way had had its whole limit. -/
structure Stalled (limit now : Nat) (past : List Event) : Prop where
  marks : ∀ t, .mark t ∈ past → atMs t + millis limit < atMs now
  work : ∀ t, .asleep t ∈ past → atMs t + millis limit < atMs now ∨ now ≤ t
  call : ∀ t, inFlight past = some t → atMs (t + CALL_LIMIT) ≤ atMs now ∨ now ≤ t

/-- What has been loaded of the call is of the one that is still under way, if there is one
    that began before. -/
def OfCall (s : State) (now until' : Nat) : Prop :=
  now ≤ s.now ∧ ∀ t, inFlight s.log = some t → until' = atMs (t + CALL_LIMIT) ∨ now ≤ t

def Loaded (s : State) : Prop :=
  match s.dog with
  | .sleeps _ => True
  | .clock now => now ≤ s.now
  | .call now until' => OfCall s now until'
  | .busy now until' =>
      OfCall s now until' ∧ ∀ t, .asleep t ∈ s.log → atMs t ≤ s.lastMs ∨ now ≤ t

structure Told (limit : Nat) (s : State) : Prop where
  last : s.lastMs ≤ atMs s.now
  marks : ∀ t, .mark t ∈ s.log → atMs t ≤ s.lastMs
  /-- Who has woken up has marked it. -/
  slept : s.place ≠ .idle → ∀ t, .asleep t ∈ s.log → atMs t ≤ s.lastMs
  busy : s.busy = true → s.place ≠ .idle
  past : ∀ t, .asleep t ∈ s.log → t ≤ s.now
  call : s.place = .calls → ∃ t, inFlight s.log = some t ∧ s.callUntilMs = atMs (t + CALL_LIMIT)
  nocall : s.place ≠ .calls → inFlight s.log = none
  loaded : s.exited = false → Loaded s
  stalled : ∀ now past, s.log = .exit now :: past → Stalled limit now past
  exits : s.exited = false → ∀ now past, s.log ≠ .exit now :: past

theorem told_start (limit : Nat) : Told limit {} where
  last := Nat.le_refl _
  marks := nofun
  slept _ := nofun
  busy _ := nofun
  past := nofun
  call := nofun
  nocall _ := rfl
  loaded _ := trivial
  stalled := nofun
  exits _ := nofun

theorem Told.tick (h : Told limit s) (hlive : s.exited = false) (d : Nat) :
    Told limit { s with now := s.now + d } := by
  have hmore : s.now ≤ s.now + d := Nat.le_add_right _ _
  refine { h with
    last := Nat.le_trans h.last (atMs_mono hmore)
    past := fun t ht => Nat.le_trans (h.past t ht) hmore
    loaded := fun _ => ?_ }
  have hloaded := h.loaded hlive
  unfold Loaded at hloaded ⊢
  dsimp only
  split at hloaded
  · trivial
  · exact Nat.le_trans hloaded hmore
  · exact ⟨Nat.le_trans hloaded.1 hmore, hloaded.2⟩
  · exact ⟨⟨Nat.le_trans hloaded.1.1 hmore, hloaded.1.2⟩, hloaded.2⟩

theorem Told.progress (h : Told limit s) (hlive : s.exited = false) {place : Place}
    (hcalls : place = .calls ↔ s.place = .calls) (hbusy : s.busy = true → place ≠ .idle) :
    Told limit { s.progress with place } := by
  have hmarks : ∀ t, .mark t ∈ s.progress.log → atMs t ≤ atMs s.now := by
    intro t ht
    rcases List.mem_cons.mp ht with ht | ht
    · cases ht
      exact Nat.le_refl _
    · exact Nat.le_trans (h.marks t ht) h.last
  have hpast : ∀ t, .asleep t ∈ s.progress.log → t ≤ s.now := by
    intro t ht
    rcases List.mem_cons.mp ht with ht | ht
    · cases ht
    · exact h.past t ht
  refine
    { last := Nat.le_refl _
      marks := hmarks
      slept := fun _ t ht => atMs_mono (hpast t ht)
      busy := hbusy
      past := hpast
      call := fun hp => h.call (hcalls.mp hp)
      nocall := fun hp => h.nocall fun hp' => hp (hcalls.mpr hp')
      loaded := fun _ => ?_
      stalled := fun now past hlog => absurd (List.cons.inj hlog).1 nofun
      exits := fun _ now past hlog => absurd (List.cons.inj hlog).1 nofun }
  have hloaded := h.loaded hlive
  unfold Loaded at hloaded ⊢
  dsimp only [State.progress]
  split at hloaded
  · trivial
  · exact hloaded
  · exact hloaded
  · exact ⟨hloaded.1, fun t ht => Or.inl (atMs_mono (hpast t ht))⟩

/-- Stores that say nothing about progress or calls. -/
theorem Loaded.cons (h : Loaded s) {e : Event} (hcall : inFlight (e :: s.log) = inFlight s.log)
    (hsleep : ∀ t, e = .asleep t → t = s.now) {place : Place} {busy : Bool} :
    Loaded { s with place, busy, log := e :: s.log } := by
  unfold Loaded at h ⊢
  dsimp only [OfCall]
  rw [hcall]
  split at h
  · trivial
  · exact h
  · exact h
  · refine ⟨h.1, fun t ht => ?_⟩
    rcases List.mem_cons.mp ht with ht | ht
    · exact Or.inr (hsleep t ht.symm ▸ h.1.1)
    · exact h.2 t ht

/-- The beginning or the end of a call. -/
theorem Loaded.callEvent (h : Loaded s) {e : Event} (he : ∀ t, e ≠ .asleep t)
    (hcall : ∀ t, inFlight (e :: s.log) = some t → t = s.now) {place : Place}
    {callUntilMs : Nat} : Loaded { s with place, callUntilMs, log := e :: s.log } := by
  unfold Loaded at h ⊢
  dsimp only [OfCall]
  split at h
  · trivial
  · exact h
  · exact ⟨h.1, fun t ht => Or.inr (hcall t ht ▸ h.1)⟩
  · refine ⟨⟨h.1.1, fun t ht => Or.inr (hcall t ht ▸ h.1.1)⟩, fun t ht => ?_⟩
    rcases List.mem_cons.mp ht with ht | ht
    · exact absurd ht.symm (he t)
    · exact h.2 t ht

/-- Every other store of the executor. -/
theorem Told.store (h : Told limit s) {e : Event} {place : Place} {busy : Bool}
    {callUntilMs : Nat} (hmark : ∀ t, e ≠ .mark t) (hexit : ∀ t, e ≠ .exit t)
    (hsleep : ∀ t, e = .asleep t → t = s.now)
    (hslept : place ≠ .idle → s.place ≠ .idle ∧ ∀ t, e ≠ .asleep t)
    (hbusy : busy = true → place ≠ .idle)
    (hcall : place = .calls →
      ∃ t, inFlight (e :: s.log) = some t ∧ callUntilMs = atMs (t + CALL_LIMIT))
    (hnone : place ≠ .calls → inFlight (e :: s.log) = none)
    (hloaded : Loaded { s with place, busy, callUntilMs, log := e :: s.log }) :
    Told limit { s with place, busy, callUntilMs, log := e :: s.log } where
  last := h.last
  marks t ht := by
    rcases List.mem_cons.mp ht with ht | ht
    · exact absurd ht.symm (hmark t)
    · exact h.marks t ht
  slept hp t ht := by
    obtain ⟨hidle, he⟩ := hslept hp
    rcases List.mem_cons.mp ht with ht | ht
    · exact absurd ht.symm (he t)
    · exact h.slept hidle t ht
  busy := hbusy
  past t ht := by
    rcases List.mem_cons.mp ht with ht | ht
    · exact Nat.le_of_eq (hsleep t ht.symm)
    · exact h.past t ht
  call := hcall
  nocall := hnone
  loaded _ := hloaded
  stalled now past hlog := absurd (List.cons.inj hlog).1 (hexit now)
  exits _ now past hlog := absurd (List.cons.inj hlog).1 (hexit now)

/-- **A look that ends the process** has seen that the executor is stuck. -/
theorem Told.exit (h : Told limit s) (hlive : s.exited = false) {now until' : Nat}
    (hdog : s.dog = .busy now until')
    (hstalled : millis limit < atMs now - s.lastMs ∧ ¬(until' ≠ 0 ∧ atMs now < until')) :
    Stalled limit now s.log := by
  have hloaded := h.loaded hlive
  unfold Loaded at hloaded
  rw [hdog] at hloaded
  obtain ⟨⟨-, hcall⟩, hsleep⟩ := hloaded
  obtain ⟨hage, hover⟩ := hstalled
  refine ⟨fun t ht => ?_, fun t ht => ?_, fun t ht => ?_⟩
  · have := h.marks t ht
    omega
  · rcases hsleep t ht with hle | hlater
    · exact Or.inl (by omega)
    · exact Or.inr hlater
  · rcases hcall t ht with rfl | hlater
    · refine Or.inl ?_
      by_contra hno
      exact hover ⟨Nat.succ_ne_zero _, Nat.lt_of_not_le hno⟩
    · exact Or.inr hlater

theorem Told.look (h : Told limit s) (hlive : s.exited = false)
    (hs : s.look limit = some s') : Told limit s' := by
  unfold State.look at hs
  have hloaded := h.loaded hlive
  unfold Loaded at hloaded
  split at hs
  · split at hs
    · cases hs
    · cases hs
      exact { h with loaded := fun _ => Nat.le_refl _ }
  · rename_i now hdog
    rw [hdog] at hloaded
    cases hs
    refine { h with loaded := fun _ => ⟨hloaded, fun t ht => Or.inl ?_⟩ }
    -- what is loaded is of the call under way
    by_cases hp : s.place = .calls
    · obtain ⟨u, hu, huntil⟩ := h.call hp
      rw [hu] at ht
      cases ht
      exact huntil
    · rw [h.nocall hp] at ht
      cases ht
  · rename_i now until' hdog
    rw [hdog] at hloaded
    cases hs
    refine { h with loaded := fun _ => ?_ }
    by_cases hbusy : s.busy = true
    · rw [if_pos hbusy]
      exact ⟨hloaded, fun t ht => Or.inl (h.slept (h.busy hbusy) t ht)⟩
    · rw [if_neg hbusy]
      trivial
  · rename_i now until' hdog
    split at hs
    · rename_i hstalled
      cases hs
      have hseen := h.exit hlive hdog hstalled
      exact
        { last := h.last
          marks := fun t ht => h.marks t ((List.mem_cons.mp ht).resolve_left nofun)
          slept := fun hp t ht => h.slept hp t ((List.mem_cons.mp ht).resolve_left nofun)
          busy := h.busy
          past := fun t ht => h.past t ((List.mem_cons.mp ht).resolve_left nofun)
          call := h.call
          nocall := h.nocall
          loaded := nofun
          stalled := fun now' past hlog => by
            obtain ⟨heq, rfl⟩ := List.cons.inj hlog
            cases heq
            exact hseen
          exits := nofun }
    · cases hs
      exact { h with loaded := fun _ => trivial }

theorem Told.step (h : Told limit s) (hlive : s.exited = false) {a : Act}
    (hs : Goes limit s a s') : Told limit s' := by
  have hloaded := h.loaded hlive
  cases hs with
  | look hs => exact h.look hlive hs
  | tick d => exact h.tick hlive d
  | mark => exact h.progress hlive Iff.rfl h.busy
  | callStarted hp =>
    refine h.store nofun nofun nofun (fun _ => ⟨by rw [hp]; decide, nofun⟩)
      (fun _ => by decide) (fun _ => ⟨s.now, rfl, rfl⟩) (fun hno => absurd rfl hno)
      (hloaded.callEvent (by nofun) ?_)
    intro t ht
    exact (Option.some.inj ht).symm
  | callEnded hp =>
    exact h.store nofun nofun nofun (fun _ => ⟨by rw [hp]; decide, nofun⟩)
      (fun _ => by decide) nofun (fun _ => rfl) (hloaded.callEvent (by nofun) (by nofun))
  | replied hp => exact h.progress hlive (by rw [hp]; decide) fun _ => nofun
  | sleep hp =>
    have hnone := h.nocall (by rw [hp]; decide)
    refine h.store nofun nofun ?_ (fun hno => absurd rfl hno) nofun nofun (fun _ => hnone)
      (hloaded.cons rfl ?_)
    all_goals
      intro t ht
      cases ht
      rfl
  | wake hp => exact h.progress hlive (by rw [hp]; decide) fun _ => nofun
  | setBusy hp =>
    have hnone := h.nocall (by rw [hp]; decide)
    exact h.store nofun nofun nofun (fun _ => ⟨by rw [hp]; decide, nofun⟩)
      (fun _ => by decide) nofun (fun _ => hnone) (hloaded.cons rfl (by nofun))

/-- **What the watchdog ends was stuck**, however its look falls between the executor's
    stores. -/
theorem exit_stalled (limit : Nat) (s : State)
    (hrun : Exec (next limit) (fun _ _ => True) {} s) (now : Nat) (past : List Event)
    (hexit : s.log = .exit now :: past) : Stalled limit now past :=
  (hrun.invariant (Told limit) (fun h _ hs => h.step (next_goes hs).1 (next_goes hs).2)
    (told_start limit)).stalled now past hexit

/-- The second look comes after the limit; the call that never returned has been under way for
    ten seconds by then. -/
def stuckActs : List Act :=
  [.tick (secs 1), .mark, .callStarted, .look, .look, .look, .look, .tick (secs 31), .look, .look,
    .look, .look]

theorem exit_stalled_stuck :
    ∃ s past, Exec (next DEFAULT_LIMIT) (fun _ _ => True) {} s ∧
      s.log = .exit (secs 32) :: past ∧ Stalled DEFAULT_LIMIT (secs 32) past := by
  have hrun : (run (next DEFAULT_LIMIT) (fun _ _ => true) {} stuckActs).any (fun s => decide
      (s.log = [.exit (secs 32), .started (secs 1), .mark (secs 1)])) = true := by decide
  obtain ⟨s, hs, hp⟩ := Exec.exists_of_run (fun _ _ _ => trivial) (.refl _) hrun
  have hlog := of_decide_eq_true hp
  exact ⟨s, _, hs, hlog, exit_stalled DEFAULT_LIMIT s hs _ _ hlog⟩

/-! ### An executor that moves -/

/-- Less than the limit passes between two marks, and a call takes less than its own.  The
    third condition is about a call with work before it: `call_done` forgets the call first
    and marks the progress after. -/
def Paced (limit : Nat) (s : State) : Act → Prop
  | .tick d =>
      (s.place = .calls → atMs (s.now + d) < s.callUntilMs) ∧
        (s.place = .works ∨ s.place = .woken → atMs (s.now + d) ≤ s.lastMs + millis limit)
  | .look =>
      match s.dog with
      | .clock now => s.place = .replied → atMs now ≤ s.lastMs + millis limit
      | _ => True
  | _ => True

instance (limit : Nat) (s : State) : DecidablePred (Paced limit s)
  | .tick _ => inferInstanceAs (Decidable (_ ∧ _))
  | .look => by
      unfold Paced
      exact
        match s.dog with
        | .clock _ => inferInstanceAs (Decidable (_ → _))
        | .sleeps _ | .call _ _ | .busy _ _ => inferInstanceAs (Decidable True)
  | .mark | .callStarted | .callEnded | .replied | .sleep | .wake | .setBusy =>
      inferInstanceAs (Decidable True)

/-- What the watchdog has loaded does not end the process. -/
def Spared (limit now until' lastMs : Nat) : Prop :=
  (until' ≠ 0 ∧ atMs now < until') ∨ atMs now ≤ lastMs + millis limit

def Harmless (limit : Nat) (s : State) : Prop :=
  match s.dog with
  | .sleeps _ => True
  | .clock now => now ≤ s.now
  | .call now until' => Spared limit now until' s.lastMs ∨ (s.place = .idle ∧ now ≤ s.now)
  | .busy now until' => Spared limit now until' s.lastMs

structure OnPace (limit : Nat) (s : State) : Prop where
  alive : s.exited = false
  last : s.lastMs ≤ atMs s.now
  calls : s.place = .calls → atMs s.now < s.callUntilMs
  works : s.place = .works ∨ s.place = .woken → atMs s.now ≤ s.lastMs + millis limit
  busy : s.busy = true → s.place ≠ .idle
  harmless : Harmless limit s

theorem Spared.mono {now until' last last' : Nat} (h : Spared limit now until' last)
    (hle : last ≤ last') : Spared limit now until' last' :=
  h.imp_right fun hage => Nat.le_trans hage (Nat.add_le_add_right hle _)

theorem onPace_start (limit : Nat) : OnPace limit {} where
  alive := rfl
  last := Nat.le_refl _
  calls := nofun
  works _ := Nat.le_add_right _ _
  busy _ := nofun
  harmless := trivial

/-- Progress spares whoever is being looked at. -/
theorem Harmless.progress (h : Harmless limit s) (hlast : s.lastMs ≤ atMs s.now)
    {place : Place} : Harmless limit { s.progress with place } := by
  unfold Harmless at h ⊢
  dsimp only [State.progress]
  split at h
  · trivial
  · exact h
  · refine Or.inl ?_
    rcases h with h | ⟨-, hle⟩
    · exact h.mono hlast
    · exact Or.inr (Nat.le_trans (atMs_mono hle) (Nat.le_add_right _ _))
  · exact h.mono hlast

theorem OnPace.progress (h : OnPace limit s) {place : Place}
    (hcalls : place = .calls → s.place = .calls) (hbusy : s.busy = true → place ≠ .idle) :
    OnPace limit { s.progress with place } where
  alive := h.alive
  last := Nat.le_refl _
  calls hp := h.calls (hcalls hp)
  works _ := Nat.le_add_right _ _
  busy := hbusy
  harmless := h.harmless.progress h.last

/-- The stores that leave the last progress as it is. -/
theorem OnPace.store (h : OnPace limit s) {place : Place} {busy : Bool} {callUntilMs : Nat}
    {log : List Event} (hplace : s.place ≠ .idle)
    (hcalls : place = .calls → atMs s.now < callUntilMs)
    (hworks : place = .works ∨ place = .woken → s.place = .works ∨ s.place = .woken)
    (hbusy : busy = true → place ≠ .idle) :
    OnPace limit { s with place, busy, callUntilMs, log } where
  alive := h.alive
  last := h.last
  calls := hcalls
  works hp := h.works (hworks hp)
  busy := hbusy
  harmless := by
    have hharmless := h.harmless
    unfold Harmless at hharmless ⊢
    dsimp only
    split at hharmless
    · trivial
    · exact hharmless
    · exact Or.inl (hharmless.resolve_right fun hidle => hplace hidle.1)
    · exact hharmless

theorem OnPace.tick (h : OnPace limit s) {d : Nat} (hpace : Paced limit s (.tick d)) :
    OnPace limit { s with now := s.now + d } := by
  have hmore : s.now ≤ s.now + d := Nat.le_add_right _ _
  refine { h with
    last := Nat.le_trans h.last (atMs_mono hmore)
    calls := hpace.1
    works := hpace.2
    harmless := ?_ }
  have hharmless := h.harmless
  unfold Harmless at hharmless ⊢
  dsimp only
  split at hharmless
  · trivial
  · exact Nat.le_trans hharmless hmore
  · exact hharmless.imp_right fun hidle => ⟨hidle.1, Nat.le_trans hidle.2 hmore⟩
  · exact hharmless

/-- What is loaded of the call is harmless, wherever the executor is. -/
theorem OnPace.spared (h : OnPace limit s) (hpace : Paced limit s .look) {now : Nat}
    (hdog : s.dog = .clock now) (hle : now ≤ s.now) :
    Spared limit now s.callUntilMs s.lastMs ∨ (s.place = .idle ∧ now ≤ s.now) := by
  have hms := atMs_mono hle
  cases hp : s.place with
  | works => exact Or.inl (Or.inr (Nat.le_trans hms (h.works (Or.inl hp))))
  | woken => exact Or.inl (Or.inr (Nat.le_trans hms (h.works (Or.inr hp))))
  | replied =>
    unfold Paced at hpace
    rw [hdog] at hpace
    exact Or.inl (Or.inr (hpace hp))
  | idle => exact Or.inr ⟨rfl, hle⟩
  | calls =>
    have hcall := h.calls hp
    exact Or.inl (Or.inl ⟨by omega, by omega⟩)

theorem OnPace.look (h : OnPace limit s) (hpace : Paced limit s .look)
    (hs : s.look limit = some s') : OnPace limit s' := by
  have hharmless := h.harmless
  unfold State.look at hs
  unfold Harmless at hharmless
  split at hs
  · split at hs
    · cases hs
    · cases hs
      exact { h with harmless := Nat.le_refl _ }
  · rename_i now hdog
    rw [hdog] at hharmless
    cases hs
    exact { h with harmless := h.spared hpace hdog hharmless }
  · rename_i now until' hdog
    rw [hdog] at hharmless
    cases hs
    refine { h with harmless := ?_ }
    by_cases hbusy : s.busy = true
    · rw [if_pos hbusy]
      exact hharmless.resolve_right fun hidle => h.busy hbusy hidle.1
    · rw [if_neg hbusy]
      trivial
  · rename_i now until' hdog
    rw [hdog] at hharmless
    split at hs
    · rename_i hstalled
      rcases hharmless with hcall | hage
      · exact absurd hcall hstalled.2
      · have := hstalled.1
        omega
    · cases hs
      exact { h with harmless := trivial }

theorem OnPace.step (h : OnPace limit s) {a : Act} (hpace : Paced limit s a)
    (hs : Goes limit s a s') : OnPace limit s' := by
  cases hs with
  | look hs => exact h.look hpace hs
  | tick d => exact h.tick hpace
  | mark => exact h.progress id h.busy
  | callStarted hp =>
    refine h.store (by rw [hp]; decide) ?_ (by nofun) (fun _ => by decide)
    intro _
    exact Nat.succ_lt_succ (by unfold millis CALL_LIMIT secs; omega)
  | callEnded hp =>
    exact h.store (by rw [hp]; decide) (by nofun) (by nofun) (fun _ => by decide)
  | replied hp => exact h.progress (by nofun) fun _ => nofun
  | sleep hp => exact h.store (by rw [hp]; decide) (by nofun) (by nofun) (by nofun)
  | wake hp => exact h.progress (by nofun) fun _ => nofun
  | setBusy hp =>
    exact h.store (by rw [hp]; decide) (by nofun) (fun _ => Or.inr hp) (fun _ => by decide)

/-- **An executor that moves is left alone**, whatever the interleaving. -/
theorem paced_alive (limit : Nat) (s : State)
    (hrun : Exec (next limit) (Paced limit) {} s) : s.exited = false :=
  (hrun.invariant (OnPace limit) (fun h hpace hs => h.step hpace (next_goes hs).2)
    (onPace_start limit)).alive

/-- Work, a call of nine seconds that the watchdog looks at, its answer and its mark. -/
def pacedActs : List Act :=
  [.tick (secs 29), .look, .look, .look, .look, .mark, .callStarted, .tick (secs 9), .look, .look,
    .look, .callEnded, .replied, .look, .sleep, .tick (secs 600), .look, .look, .look, .wake,
    .setBusy, .tick (secs 30), .look, .look, .look, .look]

theorem paced_alive_slow_call :
    ∃ s : State, (Exec (next DEFAULT_LIMIT) (Paced DEFAULT_LIMIT) {} s ∧ s.now = secs 668) ∧
      s.exited = false := by
  have hrun : (run (next DEFAULT_LIMIT) (fun s a => decide (Paced DEFAULT_LIMIT s a)) {}
      pacedActs).any (fun s => decide (s.now = secs 668)) = true := by decide
  obtain ⟨s, hs, hp⟩ := @Exec.exists_of_run _ _ _ (Paced DEFAULT_LIMIT) _
    (fun _ _ h => of_decide_eq_true h) _ _ _ _ (.refl _) hrun
  exact ⟨s, ⟨hs, of_decide_eq_true hp⟩, paced_alive DEFAULT_LIMIT s hs⟩

/-! ### An executor that is stuck -/

/-- The watchdog wakes up at most `lag` after its second, and looks at once. -/
def OnTime (lag : Nat) (s : State) : Act → Prop
  | .tick d =>
      match s.dog with
      | .sleeps wake => s.now + d ≤ wake + lag
      | _ => False
  | _ => True

instance (lag : Nat) (s : State) : DecidablePred (OnTime lag s)
  | .tick _ => by
      unfold OnTime
      exact
        match s.dog with
        | .sleeps _ => inferInstanceAs (Decidable (_ ≤ _))
        | .clock _ | .call _ _ | .busy _ _ => inferInstanceAs (Decidable False)
  | .mark | .callStarted | .callEnded | .replied | .sleep | .wake | .setBusy | .look =>
      inferInstanceAs (Decidable True)

/-- By then an executor that has work is seen: the limit, one second between two looks, and a
    millisecond for what the clock's marks round off. -/
def seenBy (limit : Nat) (log : List Event) : Nat := touched log + limit + 1000000 + secs 1

/-- Where the watchdog is, and what it has loaded. -/
def Watches (limit : Nat) (s : State) : Prop :=
  match s.dog with
  | .sleeps wake => wake ≤ s.now + secs 1 ∧ (s.busy = true → wake ≤ seenBy limit s.log)
  | .clock now => now = s.now
  | .call now until' | .busy now until' =>
      now = s.now ∧ until' ≤ atMs (touched s.log + CALL_LIMIT)

structure Noticed (limit lag : Nat) (s : State) : Prop where
  past : touched s.log ≤ s.now
  last : s.lastMs ≤ atMs (touched s.log)
  call : s.callUntilMs ≤ atMs (touched s.log + CALL_LIMIT)
  seen : s.busy = true → s.now ≤ seenBy limit s.log + lag
  watches : Watches limit s

theorem noticed_start (limit lag : Nat) : Noticed limit lag {} where
  past := Nat.le_refl _
  last := Nat.le_refl _
  call := Nat.zero_le _
  seen _ := Nat.zero_le _
  watches := ⟨Nat.le_refl _, fun _ => Nat.le_add_left _ _⟩

theorem limitFromEnv_call {v : Option String} (h : limitFromEnv v = some limit) :
    CALL_LIMIT + secs 1 ≤ limit := by
  obtain ⟨d, -, rfl⟩ := Option.map_eq_some_iff.mp h
  exact Nat.le_max_right _ _

theorem Noticed.store {lag : Nat} (h : Noticed limit lag s) {place : Place} {busy : Bool}
    {lastMs callUntilMs : Nat} {log : List Event} (hnow : touched log = s.now)
    (hlast : lastMs ≤ atMs s.now) (hcall : callUntilMs ≤ atMs (s.now + CALL_LIMIT)) :
    Noticed limit lag { s with place, busy, lastMs, callUntilMs, log } where
  past := Nat.le_of_eq hnow
  last := hnow.symm ▸ hlast
  call := hnow.symm ▸ hcall
  seen _ := by
    dsimp only [seenBy]
    omega
  watches := by
    have hwatches := h.watches
    have hpast := h.past
    have hmono : atMs (touched s.log + CALL_LIMIT) ≤ atMs (s.now + CALL_LIMIT) :=
      atMs_mono (Nat.add_le_add_right hpast _)
    unfold Watches at hwatches ⊢
    dsimp only [seenBy]
    rw [hnow]
    split at hwatches
    · exact ⟨hwatches.1, fun _ => by omega⟩
    · exact hwatches
    · exact ⟨hwatches.1, Nat.le_trans hwatches.2 hmono⟩
    · exact ⟨hwatches.1, Nat.le_trans hwatches.2 hmono⟩

theorem Noticed.tick {lag : Nat} (h : Noticed limit lag s) {d : Nat}
    (htime : OnTime lag s (.tick d)) : Noticed limit lag { s with now := s.now + d } := by
  have hwatches := h.watches
  dsimp only [OnTime] at htime
  unfold Watches at hwatches
  split at htime
  · rename_i wake hdog
    rw [hdog] at hwatches
    refine { h with
      past := Nat.le_trans h.past (Nat.le_add_right _ _)
      seen := fun hbusy => Nat.le_trans htime (Nat.add_le_add_right (hwatches.2 hbusy) _)
      watches := ?_ }
    unfold Watches
    dsimp only
    rw [hdog]
    exact ⟨by omega, hwatches.2⟩
  · exact htime.elim

/-- **A look that spares the executor** leaves it no more than its limit. -/
theorem Noticed.spared {lag : Nat} (h : Noticed limit lag s) (hlimit : CALL_LIMIT ≤ limit)
    {until' : Nat} (huntil : until' ≤ atMs (touched s.log + CALL_LIMIT))
    (hspared : ¬(millis limit < atMs s.now - s.lastMs ∧ ¬(until' ≠ 0 ∧ atMs s.now < until'))) :
    s.now + secs 1 ≤ seenBy limit s.log := by
  have hlast := h.last
  unfold seenBy
  by_cases hage : millis limit < atMs s.now - s.lastMs
  · have hcall : atMs s.now < until' := by
      by_contra hno
      exact hspared ⟨hage, fun hboth => hno hboth.2⟩
    unfold atMs millis at hcall huntil
    omega
  · unfold atMs millis at hage hlast
    omega

theorem Noticed.look {lag : Nat} (h : Noticed limit lag s) (hlimit : CALL_LIMIT ≤ limit)
    (hs : s.look limit = some s') : Noticed limit lag s' := by
  have hwatches := h.watches
  unfold State.look at hs
  unfold Watches at hwatches
  split at hs
  · split at hs
    · cases hs
    · cases hs
      exact { h with watches := rfl }
  · rename_i now hdog
    rw [hdog] at hwatches
    cases hs
    exact { h with watches := ⟨hwatches, h.call⟩ }
  · rename_i now until' hdog
    rw [hdog] at hwatches
    cases hs
    refine { h with watches := ?_ }
    by_cases hbusy : s.busy = true
    · rw [if_pos hbusy]
      exact hwatches
    · rw [if_neg hbusy]
      exact ⟨Nat.le_refl _, fun hb => absurd hb hbusy⟩
  · rename_i now until' hdog
    rw [hdog] at hwatches
    obtain ⟨rfl, huntil⟩ := hwatches
    split at hs
    · cases hs
      refine { h with watches := ?_ }
      unfold Watches
      dsimp only
      rw [hdog]
      exact ⟨rfl, huntil⟩
    · rename_i hspared
      cases hs
      exact { h with watches := ⟨Nat.le_refl _, fun _ => h.spared hlimit huntil hspared⟩ }

theorem Noticed.step {lag : Nat} (h : Noticed limit lag s) (hlimit : CALL_LIMIT ≤ limit) {a : Act}
    (htime : OnTime lag s a) (hs : Goes limit s a s') : Noticed limit lag s' := by
  -- what no store of this step touches is still within its bound
  have hlast : s.lastMs ≤ atMs s.now := Nat.le_trans h.last (atMs_mono h.past)
  have hcall : s.callUntilMs ≤ atMs (s.now + CALL_LIMIT) :=
    Nat.le_trans h.call (atMs_mono (Nat.add_le_add_right h.past _))
  cases hs with
  | look hs => exact h.look hlimit hs
  | tick d => exact h.tick htime
  | mark => exact h.store rfl (Nat.le_refl _) hcall
  | callStarted => exact h.store rfl hlast (Nat.le_refl _)
  | callEnded => exact h.store rfl hlast (Nat.zero_le _)
  | replied => exact h.store rfl (Nat.le_refl _) hcall
  | sleep => exact h.store rfl hlast hcall
  | wake => exact h.store rfl (Nat.le_refl _) hcall
  | setBusy => exact h.store rfl hlast hcall

/-- **An executor that has work and stops moving is noticed**: as long as the process is there,
    the executor's last store is not older than its limit, the second of the watchdog and the
    time by which the watchdog is late. -/
theorem stuck_noticed (v : Option String) (limit : Nat) (hlimit : limitFromEnv v = some limit)
    (lag : Nat) (s : State) (hrun : Exec (next limit) (OnTime lag) {} s)
    (hbusy : s.busy = true) : s.now ≤ seenBy limit s.log + lag := by
  have hcall : CALL_LIMIT ≤ limit :=
    Nat.le_trans (Nat.le_add_right _ _) (limitFromEnv_call hlimit)
  exact (hrun.invariant (Noticed limit lag)
    (fun h htime hs => h.step hcall htime (next_goes hs).2) (noticed_start limit lag)).seen hbusy

/-- The limit is raised to eleven seconds; the watchdog is late each time. -/
def lateActs : List Act :=
  let look := [.tick (secs 2), .look, .look, .look, .look]
  look ++ [.mark, .callStarted] ++ look ++ [.callEnded] ++ look ++ look ++ look ++ look ++
    [.tick (secs 2)]

theorem stuck_noticed_short :
    ∃ s : State, (Exec (next (secs 11)) (OnTime (secs 1)) {} s ∧ s.busy = true ∧
      s.now = secs 14) ∧ s.now ≤ seenBy (secs 11) s.log + secs 1 := by
  have hrun : (run (next (secs 11)) (fun s a => decide (OnTime (secs 1) s a)) {} lateActs).any
      (fun s => decide (s.busy = true ∧ s.now = secs 14)) = true := by decide
  obtain ⟨s, hs, hp⟩ := @Exec.exists_of_run _ _ _ (OnTime (secs 1)) _
    (fun _ _ h => of_decide_eq_true h) _ _ _ _ (.refl _) hrun
  have hend := of_decide_eq_true hp
  exact ⟨s, ⟨hs, hend⟩,
    stuck_noticed (some "5") (secs 11) (by decide) (secs 1) s hs hend.1⟩

end Watchdog

end Datad
