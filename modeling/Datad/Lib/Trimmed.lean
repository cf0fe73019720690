/-
  Datad/Lib/Trimmed.lean
  ======================
  **A history of which only the end is kept.**

  Elements with a key arrive in ascending order.  The front is dropped as long as the
  second element is not above a bound, and the bound only grows.  What is kept then
  begins with the newest element that is not above the bound, or is the whole history:
  the elements that were dropped are never asked for again (`Trimmed.newest_iff`).
-/
import Mathlib.Data.List.Basic
import Mathlib.Order.Lattice

namespace Datad

variable {α κ : Type} [LinearOrder κ] (key : α → κ)

/-- Drop the front as long as the second element is not above the bound. -/
def trimFront (cut : κ) : List α → List α
  | a :: b :: l => if key b ≤ cut then trimFront cut (b :: l) else a :: b :: l
  | l => l

/-- `kept` is what is left of `all` under the bound `cut`. -/
structure Trimmed (cut : κ) (all kept : List α) : Prop where
  /-- Something was dropped only if what is kept begins at or below the bound. -/
  split : ∃ gone, all = gone ++ kept ∧ (gone = [] ∨ ∃ a l, kept = a :: l ∧ key a ≤ cut)
  above : ∀ b ∈ kept.tail, cut < key b

/-- The elements arrive in ascending order. -/
def Rising (l : List α) : Prop := l.Pairwise fun a b => key a ≤ key b

section Trim

variable {key} {cut cut' : κ} {l all kept : List α}

theorem trimFront_split (cut : κ) (l : List α) :
    ∃ gone, l = gone ++ trimFront key cut l ∧
      (gone = [] ∨ ∃ a rest, trimFront key cut l = a :: rest ∧ key a ≤ cut) := by
  induction l with
  | nil => exact ⟨[], rfl, Or.inl rfl⟩
  | cons a l ih =>
    cases l with
    | nil => exact ⟨[], rfl, Or.inl rfl⟩
    | cons b l =>
      by_cases hb : key b ≤ cut
      · have htrim : trimFront key cut (a :: b :: l) = trimFront key cut (b :: l) := by
          simp [trimFront, hb]
        obtain ⟨gone, hsplit, hgone⟩ := ih
        refine ⟨a :: gone, by rw [htrim, List.cons_append, ← hsplit], Or.inr ?_⟩
        rw [htrim]
        rcases hgone with rfl | hgone
        · exact ⟨b, l, hsplit.symm, hb⟩
        · exact hgone
      · exact ⟨[], by simp [trimFront, hb], Or.inl rfl⟩

/-- Behind the front everything is above the bound. -/
theorem trimFront_above (cut : κ) (hl : Rising key l) :
    ∀ b ∈ (trimFront key cut l).tail, cut < key b := by
  induction l with
  | nil => simp [trimFront]
  | cons a l ih =>
    cases l with
    | nil => simp [trimFront]
    | cons b l =>
      have htail : Rising key (b :: l) := (List.pairwise_cons.mp hl).2
      by_cases hb : key b ≤ cut
      · simpa [trimFront, hb] using ih htail
      · intro c hc
        simp only [trimFront, hb, if_false, List.tail_cons] at hc
        have hbc : key b ≤ key c := by
          rcases List.mem_cons.mp hc with rfl | hc
          · exact le_refl _
          · exact (List.pairwise_cons.mp htail).1 c hc
        exact lt_of_lt_of_le (lt_of_not_ge hb) hbc

theorem trimFront_getLast? (cut : κ) (l : List α) :
    (trimFront key cut l).getLast? = l.getLast? := by
  induction l with
  | nil => rfl
  | cons a l ih =>
    cases l with
    | nil => rfl
    | cons b l =>
      by_cases hb : key b ≤ cut
      · simpa [trimFront, hb] using ih
      · simp [trimFront, hb]

theorem Trimmed.nil (cut : κ) : Trimmed key cut [] [] :=
  ⟨⟨[], rfl, Or.inl rfl⟩, by simp⟩

theorem Trimmed.suffix (h : Trimmed key cut all kept) : kept <:+ all := by
  obtain ⟨gone, hsplit, -⟩ := h.split
  exact ⟨gone, hsplit.symm⟩

/-- **One more element**, and a bound that has not shrunk. -/
theorem Trimmed.push (h : Trimmed key cut all kept) {s : α} (hrise : Rising key (all ++ [s]))
    (hcut : cut ≤ cut') : Trimmed key cut' (all ++ [s]) (trimFront key cut' (kept ++ [s])) := by
  obtain ⟨gone, hsplit, hgone⟩ := h.split
  obtain ⟨more, hmore, hfront⟩ := @trimFront_split _ _ _ key cut' (kept ++ [s])
  have hkept : Rising key (kept ++ [s]) := by
    exact List.Pairwise.sublist (h.suffix.sublist.append_right [s]) hrise
  refine ⟨⟨gone ++ more, ?_, ?_⟩, trimFront_above cut' hkept⟩
  · rw [List.append_assoc, ← hmore, hsplit, List.append_assoc]
  · rcases hfront with rfl | hfront
    · rw [List.nil_append] at hmore
      rcases hgone with rfl | ⟨a, l, rfl, ha⟩
      · exact Or.inl rfl
      · exact Or.inr ⟨a, l ++ [s], hmore.symm, le_trans ha hcut⟩
    · exact Or.inr hfront

/-- **The newest element at or below the bound** is the front of what is kept. -/
theorem Trimmed.newest_iff (h : Trimmed key cut all kept) {base : α} {rest : List α} :
    ((∃ before, all = before ++ base :: rest) ∧ key base ≤ cut ∧ ∀ b ∈ rest, cut < key b) ↔
      kept = base :: rest ∧ key base ≤ cut := by
  obtain ⟨gone, hsplit, hgone⟩ := h.split
  constructor
  · rintro ⟨⟨before, hbefore⟩, hbase, hrest⟩
    refine ⟨?_, hbase⟩
    rw [hsplit] at hbefore
    rcases List.append_eq_append_iff.mp hbefore with ⟨l, rfl, hkept⟩ | ⟨l, rfl, hkept⟩
    · cases l with
      | nil => simpa using hkept
      | cons a l =>
        -- the baseline is not the front, so it is above the bound
        have hmem : base ∈ kept.tail := by simp [hkept]
        exact absurd hbase (not_le.mpr (h.above base hmem))
    · cases l with
      | nil => simpa using hkept.symm
      | cons a l =>
        -- the baseline was dropped, and what is kept begins below the bound
        rcases hgone with hgone | ⟨c, m, rfl, hc⟩
        · simp at hgone
        · have hmem : c ∈ rest := by
            rw [List.cons_append, List.cons.injEq] at hkept
            simp [hkept.2]
          exact absurd hc (not_le.mpr (hrest c hmem))
  · rintro ⟨rfl, hbase⟩
    exact ⟨⟨gone, hsplit⟩, hbase, h.above⟩

end Trim

end Datad
