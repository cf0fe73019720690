/-
  Datad/Lib/Lines.lean
  ====================
  **Lines of a text** (`str::lines`).

  A line ends at a newline, or at a carriage return with a newline after it; the last
  line need not end.  Lines that hold no newline and end in no carriage return are read
  back as they were written.
-/
import Mathlib.Data.List.Basic

namespace Lines

/-- `str::split_inclusive('\n')`. -/
def splitInclusive : List Char → List (List Char)
  | [] => []
  | c :: cs =>
      if c = '\n' then [c] :: splitInclusive cs
      else
        match splitInclusive cs with
        | [] => [[c]]
        | l :: ls => (c :: l) :: ls

/-- `strip_suffix`. -/
def stripSuffix (c : Char) (l : List Char) : Option (List Char) :=
  if l.getLast? = some c then some l.dropLast else none

def chomp (l : List Char) : List Char :=
  match stripSuffix '\n' l with
  | some l => (stripSuffix '\r' l).getD l
  | none => l

def lines (s : List Char) : List (List Char) := (splitInclusive s).map chomp

theorem splitInclusive_line {u : List Char} (hu : '\n' ∉ u) (rest : List Char) :
    splitInclusive (u ++ '\n' :: rest) = (u ++ ['\n']) :: splitInclusive rest := by
  induction u with
  | nil => rw [List.nil_append, splitInclusive, if_pos rfl, List.nil_append]
  | cons c u ih =>
    have hc : c ≠ '\n' := fun h => hu (h ▸ List.mem_cons_self)
    rw [List.cons_append, splitInclusive, if_neg hc, ih fun h => hu (List.mem_cons_of_mem _ h)]
    rfl

theorem stripSuffix_append (c : Char) (l : List Char) : stripSuffix c (l ++ [c]) = some l := by
  rw [stripSuffix, if_pos (by simp), List.dropLast_concat]

theorem chomp_line {u : List Char} (hr : u.getLast? ≠ some '\r') : chomp (u ++ ['\n']) = u := by
  rw [chomp, stripSuffix_append]
  dsimp only
  rw [stripSuffix, if_neg hr]
  rfl

/-- **Lines are read back.** -/
theorem lines_flatMap {ls : List (List Char)} (hn : ∀ l ∈ ls, '\n' ∉ l)
    (hr : ∀ l ∈ ls, l.getLast? ≠ some '\r') : lines (ls.flatMap (· ++ ['\n'])) = ls := by
  induction ls with
  | nil => rfl
  | cons l ls ih =>
    have hrest := ih (fun l' h => hn l' (List.mem_cons_of_mem _ h))
      fun l' h => hr l' (List.mem_cons_of_mem _ h)
    rw [List.flatMap_cons, List.append_assoc, List.singleton_append, lines,
      splitInclusive_line (hn l List.mem_cons_self), List.map_cons,
      chomp_line (hr l List.mem_cons_self)]
    exact congrArg _ hrest

/-! ### No line has a newline -/

theorem newline_splitInclusive (s : List Char) :
    ∀ l ∈ splitInclusive s, '\n' ∉ l ∨ ∃ u, l = u ++ ['\n'] ∧ '\n' ∉ u := by
  induction s with
  | nil => exact fun l hl => absurd hl List.not_mem_nil
  | cons c s ih =>
    intro l hl
    rw [splitInclusive] at hl
    split at hl
    · rcases List.mem_cons.mp hl with rfl | hl
      · rename_i hc
        subst hc
        exact .inr ⟨[], rfl, List.not_mem_nil⟩
      · exact ih l hl
    · rename_i hc
      have hc' : '\n' ≠ c := fun h => hc h.symm
      split at hl
      · rw [List.mem_singleton.mp hl]
        exact .inl fun hm => hc' (List.mem_singleton.mp hm)
      · rename_i l₀ ls hs
        rcases List.mem_cons.mp hl with rfl | hl
        · rcases ih l₀ (hs ▸ List.mem_cons_self) with h | ⟨u, rfl, hu⟩
          · exact .inl fun hm => (List.mem_cons.mp hm).elim hc' h
          · exact .inr ⟨c :: u, rfl, fun hm => (List.mem_cons.mp hm).elim hc' hu⟩
        · exact ih l (hs ▸ List.mem_cons_of_mem _ hl)

theorem stripSuffix_sublist {c : Char} {l l' : List Char} (h : stripSuffix c l = some l') :
    l'.Sublist l := by
  unfold stripSuffix at h
  split at h
  · cases h
    exact List.dropLast_sublist l
  · cases h

theorem newline_lines {s l : List Char} (h : l ∈ lines s) : '\n' ∉ l := by
  obtain ⟨l₀, hl₀, rfl⟩ := List.mem_map.mp h
  have hcut : ∀ u : List Char, '\n' ∉ u → '\n' ∉ (stripSuffix '\r' u).getD u := by
    intro u hu
    rcases hs : stripSuffix '\r' u with _ | u'
    · exact hu
    · exact fun hm => hu ((stripSuffix_sublist hs).subset hm)
  unfold chomp
  rcases newline_splitInclusive s l₀ hl₀ with hn | ⟨u, rfl, hu⟩
  · rcases hs : stripSuffix '\n' l₀ with _ | u
    · exact hn
    · exact hcut u fun hm => hn ((stripSuffix_sublist hs).subset hm)
  · rw [stripSuffix_append]
    exact hcut u hu

end Lines
