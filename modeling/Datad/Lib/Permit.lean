/-
  Datad/Lib/Permit.lean
  =====================
  **Sleeping on a permit** (`tokio::sync::Notify` with one waiter).

  Others change what the waiter looks at, and notify it after that; a notification that
  finds nobody asleep is kept as a permit.  The waiter reads one thing after another and
  goes to sleep on what it has seen.  Whenever no permit is kept and no notification is on
  its way, what it has seen is still so (`current`): it does not sleep through a change.
-/
import Datad.Lib.Transition
import Mathlib.Logic.Function.Basic

namespace Permit

open Transition

variable {ι : Type} [DecidableEq ι] {V : ι → Type}

structure State (V : ι → Type) where
  data : ∀ i, V i
  /-- What the waiter has read since it was last woken. -/
  seen : ∀ i, Option (V i)
  permit : Bool
  /-- Notifications that are still to come. -/
  owed : Nat

inductive Act (V : ι → Type) where
  /-- Somebody else changes something, and will notify. -/
  | write (i : ι) (v : V i)
  | notify
  | read (i : ι)
  /-- The waiter changes something itself. -/
  | own (i : ι) (v : V i)
  /-- The waiter is woken, and starts anew. -/
  | wake

def next (s : State V) : Act V → Option (State V)
  | .write i v => some { s with data := Function.update s.data i v, owed := s.owed + 1 }
  | .notify => if 0 < s.owed then some { s with permit := true, owed := s.owed - 1 } else none
  | .read i => some { s with seen := Function.update s.seen i (some (s.data i)) }
  | .own i v =>
      some { s with
        data := Function.update s.data i v
        seen := Function.update s.seen i (some v) }
  | .wake => if s.permit then some { s with permit := false, seen := fun _ => none } else none

/-- Whoever is asleep is woken, or knows how things are. -/
def Awake (s : State V) : Prop :=
  s.permit = true ∨ 0 < s.owed ∨ ∀ i v, s.seen i = some v → s.data i = v

theorem Awake.next {s s' : State V} {a : Act V} (h : Awake s) (hs : next s a = some s') :
    Awake s' := by
  cases a with
  | write i v =>
    cases hs
    exact Or.inr (Or.inl (Nat.succ_pos _))
  | notify =>
    rw [Permit.next] at hs
    split at hs
    · cases hs
      exact Or.inl rfl
    · cases hs
  | read i =>
    cases hs
    refine h.imp_right (Or.imp_right fun h j v hj => ?_)
    dsimp only at hj ⊢
    by_cases hij : j = i
    · subst hij
      rw [Function.update_self] at hj
      exact Option.some.inj hj
    · rw [Function.update_of_ne hij] at hj
      exact h j v hj
  | own i v =>
    cases hs
    refine h.imp_right (Or.imp_right fun h j w hj => ?_)
    dsimp only at hj ⊢
    by_cases hij : j = i
    · subst hij
      rw [Function.update_self] at hj ⊢
      exact Option.some.inj hj
    · rw [Function.update_of_ne hij] at hj ⊢
      exact h j w hj
  | wake =>
    rw [Permit.next] at hs
    split at hs
    · cases hs
      exact Or.inr (Or.inr nofun)
    · cases hs

/-- **No change is slept through.** -/
theorem current {s₀ s : State V} (h : Exec next (fun _ _ => True) s₀ s)
    (h₀ : ∀ i, s₀.seen i = none) (hpermit : s.permit = false) (howed : s.owed = 0) (i : ι)
    (v : V i) (hi : s.seen i = some v) : s.data i = v := by
  have hawake : Awake s := h.invariant Awake (fun h _ hs => h.next hs)
    (Or.inr (Or.inr fun i v hv => by rw [h₀ i] at hv; cases hv))
  rcases hawake with hp | ho | hcur
  · rw [hpermit] at hp
    cases hp
  · omega
  · exact hcur i v hi

end Permit
