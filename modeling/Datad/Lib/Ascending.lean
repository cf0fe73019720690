/-
  Datad/Lib/Ascending.lean
  ========================
  **Lists in the order of a key.**

  A map is kept as the list of its entries by ascending key, with an insertion that
  leaves an entry alone that is there (`insertVacant`).  Such a list is determined by its
  members (`eq_of_mem_iff`), and cutting it at a key is the same as filtering it.
-/
import Mathlib.Data.List.Sort

namespace Ascending

variable {α κ : Type} [LinearOrder κ]

/-! ### Insertion -/

/-- Insert an entry, unless there is one with its key. -/
def insertVacant (k : κ) (a : α) : List (κ × α) → Option (List (κ × α))
  | [] => some [(k, a)]
  | (l, b) :: m =>
      if k < l then some ((k, a) :: (l, b) :: m)
      else if k = l then none
      else (insertVacant k a m).map ((l, b) :: ·)

/-- A new key is put in its place. -/
theorem insertVacant_new {k : κ} (a : α) {m : List (κ × α)} (hm : m.Pairwise (·.1 < ·.1))
    (hk : ∀ p ∈ m, p.1 ≠ k) :
    ∃ m', insertVacant k a m = some m' ∧ m'.Pairwise (·.1 < ·.1) ∧
      ∀ p, p ∈ m' ↔ p = (k, a) ∨ p ∈ m := by
  induction m with
  | nil => exact ⟨[(k, a)], rfl, by simp, by simp⟩
  | cons q m ih =>
    obtain ⟨l, b⟩ := q
    obtain ⟨hq, hm⟩ := List.pairwise_cons.mp hm
    have hne : l ≠ k := hk (l, b) List.mem_cons_self
    by_cases hlt : k < l
    · refine ⟨(k, a) :: (l, b) :: m, by simp [insertVacant, hlt], ?_, by simp⟩
      apply List.pairwise_cons.mpr
      refine ⟨?_, List.pairwise_cons.mpr ⟨hq, hm⟩⟩
      intro p hp
      rcases List.mem_cons.mp hp with rfl | hp
      · exact hlt
      · exact hlt.trans (hq p hp)
    · obtain ⟨m', hm', hsorted, hmem⟩ := ih hm fun p hp => hk p (List.mem_cons_of_mem _ hp)
      refine ⟨(l, b) :: m', by simp [insertVacant, hlt, hne.symm, hm'], ?_, ?_⟩
      · apply List.pairwise_cons.mpr
        refine ⟨?_, hsorted⟩
        intro p hp
        rcases (hmem p).mp hp with rfl | hp
        · exact lt_of_le_of_ne (not_lt.mp hlt) hne
        · exact hq p hp
      · intro p
        simp only [List.mem_cons, hmem]
        exact or_left_comm

/-! ### Lists by ascending key -/

section Keyed

variable {f : α → κ}

/-- Two of them with the same members are the same list. -/
theorem eq_of_mem_iff {l₁ l₂ : List α} (h₁ : l₁.Pairwise fun a b => f a < f b)
    (h₂ : l₂.Pairwise fun a b => f a < f b) (h : ∀ a, a ∈ l₁ ↔ a ∈ l₂) : l₁ = l₂ := by
  have nodup {l : List α} (hl : l.Pairwise fun a b => f a < f b) : l.Nodup := by
    apply hl.imp
    rintro a _ hlt rfl
    exact lt_irrefl _ hlt
  apply List.Perm.eq_of_pairwise (fun a b _ _ hab hba => absurd hab (lt_asymm hba)) h₁ h₂
  exact (List.perm_ext_iff_of_nodup (nodup h₁) (nodup h₂)).mpr h

/-- What comes after an element are those with a greater key. -/
theorem filter_lt {l₁ l₂ : List α} {a : α}
    (h : (l₁ ++ a :: l₂).Pairwise fun a b => f a < f b) :
    (l₁ ++ a :: l₂).filter (fun b => decide (f a < f b)) = l₂ := by
  obtain ⟨-, h₂, h₁₂⟩ := List.pairwise_append.mp h
  have hbefore : l₁.filter (fun b => decide (f a < f b)) = [] := by
    rw [List.filter_eq_nil_iff]
    intro b hb
    simpa using (h₁₂ b hb a List.mem_cons_self).le
  have hafter : l₂.filter (fun b => decide (f a < f b)) = l₂ := by
    rw [List.filter_eq_self]
    intro b hb
    simpa using (List.pairwise_cons.mp h₂).1 b hb
  simp [hbefore, hafter]

/-- By descending key, those above a bound come first. -/
theorem eq_filter_append {l : List α} (h : l.Pairwise fun a b => f b < f a) (c : κ) :
    ∃ low, l = l.filter (fun a => decide (c < f a)) ++ low ∧ ∀ a ∈ low, f a ≤ c := by
  induction l with
  | nil => exact ⟨[], rfl, by simp⟩
  | cons a l ih =>
    obtain ⟨ha, hl⟩ := List.pairwise_cons.mp h
    by_cases hc : c < f a
    · obtain ⟨low, heq, hlow⟩ := ih hl
      refine ⟨low, ?_, hlow⟩
      rw [List.filter_cons_of_pos (by simpa using hc), List.cons_append, ← heq]
    · have hall : ∀ b ∈ a :: l, f b ≤ c := by
        intro b hb
        rcases List.mem_cons.mp hb with rfl | hb
        · exact not_lt.mp hc
        · exact (ha b hb).le.trans (not_lt.mp hc)
      refine ⟨a :: l, ?_, hall⟩
      rw [List.filter_eq_nil_iff.mpr fun b hb => by simpa using hall b hb, List.nil_append]

end Keyed

end Ascending
