/-
  Datad/Executor/Waking.lean
  ==========================
  **The main loop does not sleep through its work** (`run`, `push`, `kick`,
  `set_interval_ms`, `start_rounds` of `executor.rs`).

  `Datad.Executor.Machine` takes the head of the loop in one step.  Here every look it
  takes is a step of its own, and so are a change from outside and the notification after
  it; in between, anything may happen.  The loop is a waiter of `Permit`
  (`Loop.simulates`), so where it sleeps without a permit it has seen all there is.
-/
import Datad.Hub.Block
import Datad.Lib.Permit

namespace Datad

namespace Executor

open Hub Transition

/-- Where the loop is, with what it has looked at.  The deadline is `lastRoundEnd` and the
    interval, if sampling has begun. -/
inductive LoopAt where
  | head
  | driver (driver : Bool)
  | deadline (interval : Option Duration)
  /-- The kick has been taken back, if there is a deadline. -/
  | kicked (interval : Option Duration) (kicked : Bool)
  /-- There is no round to run now. -/
  | early (interval : Option Duration)
  | waiting (interval : Option Duration)
  /-- At the start of `drain`. -/
  | drain (idle : Bool)
  | draining (idle : Bool) (left : Nat)
  | round
deriving DecidableEq

structure Loop where
  /-- How many jobs are queued. -/
  queue : Nat := 0
  driver : Bool := false
  interval : Duration
  kick : Bool := false
  permit : Bool := false
  /-- Calls of `notify_one` that are still to come. -/
  owed : Nat := 0
  lastRoundEnd : Instant := 0
  main : LoopAt := .head

inductive LoopAct where
  | push
  | startRounds
  | setInterval (d : Duration)
  | kick
  | notify
  /-- The next step of the loop, at this time. -/
  | step (now : Instant)
  | timeout (now : Instant)
  /-- `drain` takes its next job. -/
  | pop
  /-- A drain inside a round, or inside a job, takes one. -/
  | inner

namespace Loop

/-- The next step of the loop itself. -/
def step (s : Loop) (now : Instant) : Option Loop :=
  match s.main with
  | .head => some { s with main := .driver s.driver }
  | .driver driver => some { s with main := .deadline (if driver then some s.interval else none) }
  | .deadline none => some { s with main := .kicked none false }
  | .deadline (some i) => some { s with main := .kicked (some i) s.kick, kick := false }
  | .kicked none _ => some { s with main := .early none }
  | .kicked (some i) kicked =>
      some { s with
        main := if kicked || decide (s.lastRoundEnd + i ≤ now) then .round else .early (some i) }
  | .early i => some { s with main := if 0 < s.queue then .drain i.isNone else .waiting i }
  | .waiting i =>
      if s.permit then some { s with permit := false, main := .drain i.isNone } else none
  | .drain idle => some { s with main := .draining idle s.queue }
  | .draining idle left =>
      if left = 0 ∨ s.queue = 0 then
        some { s with
          main := .head
          -- sampling has begun: the first interval starts now
          lastRoundEnd := if idle && s.driver then now else s.lastRoundEnd }
      else none
  | .round => some { s with main := .head, lastRoundEnd := now }

def pop (s : Loop) : Option Loop :=
  match s.main with
  | .draining idle (left + 1) =>
      if 0 < s.queue then some { s with queue := s.queue - 1, main := .draining idle left }
      else none
  | _ => none

def inner (s : Loop) : Option Loop :=
  match s.main with
  | .draining .. | .round => if 0 < s.queue then some { s with queue := s.queue - 1 } else none
  | _ => none

def next (s : Loop) : LoopAct → Option Loop
  | .push => some { s with queue := s.queue + 1, owed := s.owed + 1 }
  | .startRounds => some { s with driver := true, owed := s.owed + 1 }
  | .setInterval d => some { s with interval := d, owed := s.owed + 1 }
  | .kick => some { s with kick := true, owed := s.owed + 1 }
  | .notify => if 0 < s.owed then some { s with permit := true, owed := s.owed - 1 } else none
  | .step now => s.step now
  | .timeout now =>
      match s.main with
      | .waiting (some i) =>
          if s.lastRoundEnd + i ≤ now then some { s with main := .drain false } else none
      | _ => none
  | .pop => s.pop
  | .inner => s.inner

/-! ### The loop as a waiter -/

/-- What the loop looks at. -/
inductive Cell where
  | driver
  | interval
  | kick
  | empty
deriving DecidableEq

def Cell.Value : Cell → Type
  | .driver => Bool
  | .interval => Duration
  | .kick => Bool
  | .empty => Bool

def data (s : Loop) : (i : Cell) → i.Value
  | .driver => s.driver
  | .interval => s.interval
  | .kick => s.kick
  | .empty => decide (s.queue = 0)

/-- What the loop has read so far. -/
def seen (s : Loop) : (i : Cell) → Option i.Value
  | .driver =>
      match s.main with
      | .driver driver => some driver
      | .deadline i | .kicked i _ | .early i | .waiting i => some i.isSome
      | _ => none
  | .interval =>
      match s.main with
      | .deadline i | .kicked i _ | .early i | .waiting i => i
      | _ => none
  | .kick =>
      match s.main with
      | .kicked (some _) _ | .early (some _) | .waiting (some _) => some false
      | _ => none
  | .empty =>
      match s.main with
      | .waiting _ => some true
      | _ => none

/-- The waiter has seen what the loop has, and maybe more. -/
structure Waits (s : Loop) (p : Permit.State Cell.Value) : Prop where
  data : p.data = s.data
  permit : p.permit = s.permit
  owed : p.owed = s.owed
  seen : ∀ i v, s.seen i = some v → p.seen i = some v

/-- The waiter does nothing. -/
theorem Waits.stay {s s' : Loop} {p : Permit.State Cell.Value} (h : Waits s p)
    (hdata : s'.data = s.data) (hpermit : s'.permit = s.permit) (howed : s'.owed = s.owed)
    (hseen : ∀ i v, s'.seen i = some v → s.seen i = some v) :
    ∃ p', Exec Permit.next (fun _ _ => True) p p' ∧ Waits s' p' :=
  ⟨p, .refl p,
    { data := h.data.trans hdata.symm
      permit := h.permit.trans hpermit.symm
      owed := h.owed.trans howed.symm
      seen := fun i v hv => h.seen i v (hseen i v hv) }⟩

/-- Somebody changes something, and will notify. -/
theorem Waits.write {s s' : Loop} {p : Permit.State Cell.Value} (h : Waits s p) (i : Cell)
    (v : i.Value) (hdata : s'.data = Function.update s.data i v) (hpermit : s'.permit = s.permit)
    (howed : s'.owed = s.owed + 1) (hseen : s'.seen = s.seen) :
    ∃ p', Exec Permit.next (fun _ _ => True) p p' ∧ Waits s' p' :=
  ⟨_, .single (.write i v) trivial rfl,
    { data := by rw [hdata, ← h.data]
      permit := h.permit.trans hpermit.symm
      owed := by rw [howed, ← h.owed]
      seen := fun j w hw => h.seen j w (hseen ▸ hw) }⟩

/-- The loop reads or writes something, and knows it then. -/
theorem Waits.know {s s' : Loop} {p : Permit.State Cell.Value} (h : Waits s p) (i : Cell)
    (v : i.Value) (hdata : s'.data = Function.update s.data i v) (hpermit : s'.permit = s.permit)
    (howed : s'.owed = s.owed)
    (hseen : ∀ j w, s'.seen j = some w → (j ≠ i ∧ s.seen j = some w) ∨ s'.seen i = some v ∧ j = i) :
    ∃ p', Exec Permit.next (fun _ _ => True) p p' ∧ Waits s' p' := by
  refine ⟨_, .single (.own i v) trivial rfl, ?_⟩
  exact
    { data := by rw [hdata, ← h.data]
      permit := h.permit.trans hpermit.symm
      owed := h.owed.trans howed.symm
      seen := fun j w hw => by
        dsimp only
        rcases hseen j w hw with ⟨hne, hj⟩ | ⟨hi, rfl⟩
        · rw [Function.update_of_ne hne]
          exact h.seen j w hj
        · rw [Function.update_self, ← hi, hw] }

theorem seen_congr {s s' : Loop} (h : s'.main = s.main) : s'.seen = s.seen := by
  funext i
  cases i
  all_goals
    unfold seen
    rw [h]

/-- The loop has looked at nothing. -/
def Blank (s : Loop) : Prop := ∀ i, s.seen i = none

theorem Waits.blank {s s' : Loop} {p : Permit.State Cell.Value} (h : Waits s p) (hb : s'.Blank)
    (hdata : s'.data = s.data) (hpermit : s'.permit = s.permit) (howed : s'.owed = s.owed) :
    ∃ p', Exec Permit.next (fun _ _ => True) p p' ∧ Waits s' p' :=
  h.stay hdata hpermit howed fun i v hv => by
    rw [hb i] at hv
    cases hv

theorem Waits.popped {s s' : Loop} {p : Permit.State Cell.Value} (h : Waits s p) (hb : s'.Blank)
    (hs : s' = { s with queue := s.queue - 1, main := s'.main }) :
    ∃ p', Exec Permit.next (fun _ _ => True) p p' ∧ Waits s' p' := by
  refine h.know .empty (decide (s.queue - 1 = 0)) ?_ (by rw [hs]) (by rw [hs]) fun j w hw => ?_
  · rw [hs]
    funext j
    cases j <;> rfl
  · rw [hb j] at hw
    cases hw

/-- A step of the loop. -/
theorem Waits.step {s s' : Loop} {p : Permit.State Cell.Value} {now : Instant} (h : Waits s p)
    (hs : s.step now = some s') :
    ∃ p', Exec Permit.next (fun _ _ => True) p p' ∧ Waits s' p' := by
  obtain ⟨queue, driver, interval, kick, permit, owed, last, main⟩ := s
  cases main with
  | head =>
    cases hs
    refine h.know .driver driver (Function.update_eq_self _ _).symm rfl rfl fun j w hw => ?_
    cases j with
    | driver => exact Or.inr ⟨rfl, rfl⟩
    | interval | kick | empty => cases hw
  | driver b =>
    cases b with
    | false =>
      cases hs
      refine h.stay rfl rfl rfl fun j w hw => ?_
      cases j with
      | driver => exact hw
      | interval | kick | empty => cases hw
    | true =>
      cases hs
      refine h.know .interval interval (Function.update_eq_self _ _).symm rfl rfl fun j w hw => ?_
      cases j with
      | driver => exact Or.inl ⟨nofun, hw⟩
      | interval => exact Or.inr ⟨rfl, rfl⟩
      | kick | empty => cases hw
  | deadline i =>
    cases i with
    | none =>
      cases hs
      exact h.stay rfl rfl rfl fun j w hw => by cases j <;> exact hw
    | some i =>
      cases hs
      refine h.know .kick false ?_ rfl rfl fun j w hw => ?_
      · funext j
        cases j <;> rfl
      · cases j with
        | driver | interval => exact Or.inl ⟨nofun, hw⟩
        | kick => exact Or.inr ⟨rfl, rfl⟩
        | empty => cases hw
  | kicked i k =>
    cases i with
    | none =>
      cases hs
      exact h.stay rfl rfl rfl fun j w hw => by cases j <;> exact hw
    | some i =>
      rw [Loop.step, Option.some_inj] at hs
      subst hs
      by_cases hround : (k || decide (last + i ≤ now)) = true
      · rw [if_pos hround]
        exact h.blank (fun j => by cases j <;> rfl) rfl rfl rfl
      · rw [if_neg hround]
        exact h.stay rfl rfl rfl fun j w hw => by cases j <;> exact hw
  | early i =>
    rw [Loop.step, Option.some_inj] at hs
    subst hs
    by_cases hqueue : 0 < queue
    · rw [if_pos hqueue]
      exact h.blank (fun j => by cases j <;> rfl) rfl rfl rfl
    · rw [if_neg hqueue]
      obtain rfl : queue = 0 := by omega
      refine h.know .empty true ?_ rfl rfl fun j w hw => ?_
      · funext j
        cases j <;> rfl
      · cases j with
        | driver | interval => exact Or.inl ⟨nofun, hw⟩
        | kick => cases i <;> exact Or.inl ⟨nofun, hw⟩
        | empty => exact Or.inr ⟨rfl, rfl⟩
  | waiting i =>
    cases permit with
    | false => cases hs
    | true =>
      cases hs
      refine ⟨{ p with permit := false, seen := fun _ => none }, .single .wake trivial ?_, ?_⟩
      · rw [Permit.next, h.permit]
        rfl
      · exact
          { data := h.data
            permit := rfl
            owed := h.owed
            seen := fun j w hw => by cases j <;> cases hw }
  | drain idle =>
    cases hs
    exact h.blank (fun j => by cases j <;> rfl) rfl rfl rfl
  | draining idle left =>
    change (if left = 0 ∨ queue = 0 then some _ else none) = some s' at hs
    split at hs
    · cases hs
      exact h.blank (fun j => by cases j <;> rfl) rfl rfl rfl
    · cases hs
  | round =>
    cases hs
    exact h.blank (fun j => by cases j <;> rfl) rfl rfl rfl

/-- **The loop is a waiter**: each step of the machine is one of `Permit`, or none. -/
theorem Waits.next {s s' : Loop} {p : Permit.State Cell.Value} {a : LoopAct} (h : Waits s p)
    (hs : s.next a = some s') :
    ∃ p', Exec Permit.next (fun _ _ => True) p p' ∧ Waits s' p' := by
  cases a with
  | push =>
    cases hs
    refine h.write .empty false ?_ rfl rfl (seen_congr rfl)
    funext j
    cases j <;> rfl
  | startRounds =>
    cases hs
    refine h.write .driver true ?_ rfl rfl (seen_congr rfl)
    funext j
    cases j <;> rfl
  | setInterval d =>
    cases hs
    refine h.write .interval d ?_ rfl rfl (seen_congr rfl)
    funext j
    cases j <;> rfl
  | kick =>
    cases hs
    refine h.write .kick true ?_ rfl rfl (seen_congr rfl)
    funext j
    cases j <;> rfl
  | notify =>
    rw [Loop.next] at hs
    split at hs
    · rename_i howed
      cases hs
      refine ⟨{ p with permit := true, owed := p.owed - 1 }, .single .notify trivial ?_, ?_⟩
      · rw [Permit.next, h.owed, if_pos howed]
      · exact
          { data := h.data
            permit := rfl
            owed := congrArg (· - 1) h.owed
            seen := fun i v hv => h.seen i v (seen_congr rfl ▸ hv) }
    · cases hs
  | step now => exact h.step hs
  | timeout now =>
    rw [Loop.next] at hs
    split at hs
    · split at hs
      · cases hs
        exact h.blank (fun j => by cases j <;> rfl) rfl rfl rfl
      · cases hs
    · cases hs
  | pop =>
    rw [Loop.next, Loop.pop] at hs
    split at hs
    · split at hs
      · cases hs
        exact h.popped (fun j => by cases j <;> rfl) rfl
      · cases hs
    · cases hs
  | inner =>
    rw [Loop.next, Loop.inner] at hs
    split at hs
    all_goals try cases hs
    all_goals
      rename_i hmain
      split at hs
      · cases hs
        refine h.popped (fun j => ?_) rfl
        rw [hmain]
        cases j <;> rfl
      · cases hs

def new (interval : Duration) : Loop := { interval }

end Loop

end Executor

end Datad
