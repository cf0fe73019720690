/-
  Datad/Lib/Slots.lean
  ====================
  **Lists of slots.**  A list that holds the state of one thread, or one task, in each place:
  what is in a place after one was replaced, or a new one put behind the others.
-/
import Mathlib.Data.List.Basic

namespace Slots

variable {α : Type} {ts : List α} {i j : Nat} {t t₀ u : α}

/-- Replace what is in a place. -/
theorem set_iff (h₀ : ts[i]? = some t₀) :
    (ts.set i t)[j]? = some u ↔ (j = i ∧ u = t) ∨ (j ≠ i ∧ ts[j]? = some u) := by
  have hlt : i < ts.length := (List.getElem?_eq_some_iff.1 h₀).1
  by_cases hj : j = i
  · subst hj
    rw [List.getElem?_set_self hlt]
    simp [eq_comm]
  · rw [List.getElem?_set_ne fun heq => hj heq.symm]
    simp [hj]

/-- Put one more behind the others. -/
theorem concat_iff :
    (ts ++ [t])[j]? = some u ↔ ts[j]? = some u ∨ (j = ts.length ∧ u = t) := by
  rcases Nat.lt_trichotomy j ts.length with hlt | heq | hgt
  · rw [List.getElem?_append_left hlt]
    simp [Nat.ne_of_lt hlt]
  · subst heq
    rw [List.getElem?_concat_length, List.getElem?_eq_none (Nat.le_refl _)]
    simp [eq_comm]
  · have hlen : (ts ++ [t]).length ≤ j := by
      rw [List.length_append, List.length_singleton]
      exact hgt
    rw [List.getElem?_eq_none hlen, List.getElem?_eq_none (Nat.le_of_lt hgt)]
    simp [Nat.ne_of_gt hgt]

end Slots
