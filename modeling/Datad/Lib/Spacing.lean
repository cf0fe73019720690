/-
  Datad/Lib/Spacing.lean
  ======================
  **How many events fit into a window of time.**

  A list of events, the latest first, is `Spaced f r d` if each of them is at least `d`
  later than the one `r` places before it.  Such distances add up (`Spaced.add`,
  `Spaced.mul`), and a window shorter than `d` holds at most `r` events (`Spaced.count`).
-/
import Mathlib.Algebra.Order.Group.Nat
import Mathlib.Tactic.Ring

namespace Spacing

variable {α : Type} {f : α → Nat} {r r' d d' : Nat} {l : List α}

def Spaced (f : α → Nat) (r d : Nat) (l : List α) : Prop :=
  ∀ i (h : i + r < l.length), f l[i + r] + d ≤ f l[i]

theorem Spaced.zero (f : α → Nat) (l : List α) : Spaced f 0 0 l := by
  intro i h
  exact Nat.le_refl _

theorem Spaced.mono (h : Spaced f r d l) (hd : d' ≤ d) : Spaced f r d' l := by
  intro i hi
  have := h i hi
  omega

theorem Spaced.add (h : Spaced f r d l) (h' : Spaced f r' d' l) :
    Spaced f (r + r') (d + d') l := by
  intro i hi
  have hnear := h i (by omega)
  have hfar := h' (i + r) (by omega)
  simp only [Nat.add_assoc] at hfar
  omega

theorem Spaced.mul (h : Spaced f r d l) (n : Nat) : Spaced f (r * n) (d * n) l := by
  induction n with
  | zero => exact .zero f l
  | succ n ih =>
    rw [Nat.mul_succ, Nat.mul_succ]
    exact ih.add h

theorem Spaced.tail {a : α} (h : Spaced f r d (a :: l)) : Spaced f r d l := by
  intro i hi
  have hnext := h (i + 1) (by simp only [List.length_cons]; omega)
  simp only [Nat.add_right_comm i 1 r, List.getElem_cons_succ] at hnext
  exact hnext

/-- What is `r` places before the latest event, or more, is at least `d` before it. -/
theorem Spaced.drop {a : α} (h : Spaced f r d (a :: l)) (hsorted : Spaced f 1 0 (a :: l))
    {b : α} (hb : b ∈ (a :: l).drop r) : f b + d ≤ f a := by
  obtain ⟨i, hi, rfl⟩ := List.mem_iff_getElem.mp hb
  rw [List.length_drop] at hi
  have hlate := h 0 (by omega)
  have hold := hsorted.mul i r (by omega)
  simp only [Nat.zero_add, List.getElem_cons_zero] at hlate
  simp only [Nat.zero_mul, Nat.add_zero, Nat.one_mul] at hold
  simp only [List.getElem_drop]
  omega

/-- **A window shorter than the distance.** -/
theorem Spaced.count {len : Nat} (h : Spaced f r d l) (hsorted : Spaced f 1 0 l) (hlen : len < d)
    (since : Nat) :
    (l.filter fun a => decide (since ≤ f a ∧ f a ≤ since + len)).length ≤ r := by
  induction l with
  | nil => exact Nat.zero_le r
  | cons a l ih =>
    by_cases ha : since ≤ f a ∧ f a ≤ since + len
    · -- the latest event of the window: none that is `r` places before it is inside
      have hout : ((a :: l).drop r).filter
          (fun a => decide (since ≤ f a ∧ f a ≤ since + len)) = [] := by
        apply List.filter_eq_nil_iff.mpr
        intro b hb
        have := h.drop hsorted hb
        simp only [decide_eq_true_eq]
        omega
      rw [← List.take_append_drop r (a :: l), List.filter_append, hout, List.append_nil]
      refine Nat.le_trans (List.length_filter_le _ _) ?_
      rw [List.length_take]
      exact Nat.min_le_left _ _
    · rw [List.filter_cons_of_neg (by simpa using ha)]
      exact ih h.tail hsorted.tail

end Spacing
