/-
  Datad/Lib/Firsts.lean
  =====================
  **What is counted once**: of a list, the elements with none like them before them.  To be
  alike need not be transitive, so one element may be like two that are not alike; a map
  that takes what is alike to one value still counts no more values than there are first
  elements (`length_filter_le_firsts`).
-/
import Mathlib.Data.List.Perm.Subperm
import Mathlib.Data.List.Nodup

namespace Datad

namespace Firsts

variable {α β : Type*} (alike : α → α → Bool)

/-- The elements of a list with none like them before them, where `earlier` stands before
    the list. -/
def firstsAfter (earlier : List α) : List α → List α
  | [] => []
  | a :: l =>
      if earlier.any (alike · a) then firstsAfter (earlier ++ [a]) l
      else a :: firstsAfter (earlier ++ [a]) l

def firsts (l : List α) : List α := firstsAfter alike [] l

variable {alike}

theorem firstsAfter_of_pairwise {earlier l : List α}
    (new : ∀ e ∈ earlier, ∀ a ∈ l, alike e a = false)
    (apart : l.Pairwise fun a b => alike a b = false) : firstsAfter alike earlier l = l := by
  induction l generalizing earlier with
  | nil => rfl
  | cons a l ih =>
    have first : earlier.any (alike · a) = false := by
      rw [List.any_eq_false]
      intro e he
      simp [new e he a (by simp)]
    obtain ⟨next, apart⟩ := List.pairwise_cons.mp apart
    rw [firstsAfter, first, if_neg Bool.false_ne_true]
    congr 1
    apply ih _ apart
    intro e he b hb
    rcases List.mem_append.mp he with he | he
    · exact new e he b (List.mem_cons_of_mem _ hb)
    · rw [List.mem_singleton.mp he]
      exact next b hb

theorem firsts_of_pairwise {l : List α} (apart : l.Pairwise fun a b => alike a b = false) :
    firsts alike l = l :=
  firstsAfter_of_pairwise (by simp) apart

/-- Every value is the value of a first element. -/
theorem exists_firstsAfter {f : α → β} {earlier l : List α}
    (same : ∀ a ∈ earlier ++ l, ∀ b ∈ earlier ++ l, alike a b → f a = f b) :
    ∀ a ∈ l, (∃ b ∈ earlier, f b = f a) ∨ ∃ b ∈ firstsAfter alike earlier l, f b = f a := by
  induction l generalizing earlier with
  | nil => simp
  | cons c l ih =>
    have here : (∃ b ∈ earlier, f b = f c) ∨
        ∃ b ∈ firstsAfter alike earlier (c :: l), f b = f c := by
      by_cases old : earlier.any (alike · c)
      · obtain ⟨e, he, like⟩ := List.any_eq_true.mp old
        exact Or.inl ⟨e, he, same e (by simp [he]) c (by simp) like⟩
      · refine Or.inr ⟨c, ?_, rfl⟩
        simp [firstsAfter, old]
    intro a ha
    rcases List.mem_cons.mp ha with rfl | ha
    · exact here
    · have same' : ∀ a ∈ earlier ++ [c] ++ l, ∀ b ∈ earlier ++ [c] ++ l, alike a b → f a = f b := by
        simpa using same
      have rest := ih same' a ha
      rcases rest with ⟨b, hb, e⟩ | ⟨b, hb, e⟩
      · rcases List.mem_append.mp hb with hb | hb
        · exact Or.inl ⟨b, hb, e⟩
        · rw [List.mem_singleton.mp hb] at e
          rwa [e] at here
      · refine Or.inr ⟨b, ?_, e⟩
        rw [firstsAfter]
        split
        · exact hb
        · exact List.mem_cons_of_mem _ hb

/-- Elements with a value of their own are no more than the first elements. -/
theorem length_filter_le_firsts (f : α → β) {l : List α} {p : α → Bool}
    (same : ∀ a ∈ l, ∀ b ∈ l, alike a b → f a = f b)
    (own : (l.filter p).Pairwise fun a b => f a ≠ f b) :
    (l.filter p).length ≤ (firsts alike l).length := by
  have subset : (l.filter p).map f ⊆ (firsts alike l).map f := by
    intro x hx
    obtain ⟨a, ha, rfl⟩ := List.mem_map.mp hx
    rcases exists_firstsAfter (List.nil_append l ▸ same) a (List.mem_filter.mp ha).1 with h | h
    · simp at h
    · exact List.mem_map.mpr h
  have nodup : ((l.filter p).map f).Nodup := List.pairwise_map.mpr own
  simpa using (List.subperm_of_subset nodup subset).length_le

theorem countP_le_one {p : α → Bool} {l : List α} :
    l.countP p ≤ 1 ↔ l.Pairwise fun a b => ¬(p a ∧ p b) := by
  induction l with
  | nil => simp
  | cons a l ih =>
    rw [List.countP_cons, List.pairwise_cons]
    cases h : p a
    · simp [ih]
    · have none : l.countP p = 0 ↔ ∀ b ∈ l, ¬p b := List.countP_eq_zero
      simp only [if_true, true_and]
      constructor
      · intro hl
        have hl : l.countP p = 0 := by omega
        refine ⟨none.mp hl, ih.mp (by omega)⟩
      · rintro ⟨hl, -⟩
        simp [none.mpr hl]

end Firsts

end Datad
