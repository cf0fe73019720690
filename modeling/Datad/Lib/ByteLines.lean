/-
  Datad/Lib/ByteLines.lean
  ========================
  **Lines of a file** (`BufRead::lines`).

  A line ends at the byte 10, or at 13 with 10 after it; the last line need not end.  Each
  is decoded by itself, so that bytes that are no text spoil one line only.
-/
import Datad.Lib.Bytes

namespace BufRead

open Bytes

/-- `String::from_utf8`. -/
def fromUtf8 (bs : List UInt8) : Option String :=
  if utf8 (fromUtf8Lossy bs) = bs then some (fromUtf8Lossy bs) else none

theorem fromUtf8_eq_some {bs : List UInt8} {s : String} : fromUtf8 bs = some s ↔ bs = utf8 s := by
  unfold fromUtf8
  constructor
  · intro h
    split at h
    · rename_i heq
      rw [← Option.some.inj h, heq]
    · cases h
  · rintro rfl
    simp

def LF : UInt8 := 10
def CR : UInt8 := 13

def splitInclusive : List UInt8 → List (List UInt8)
  | [] => []
  | b :: bs =>
      if b = LF then [b] :: splitInclusive bs
      else
        match splitInclusive bs with
        | [] => [[b]]
        | l :: ls => (b :: l) :: ls

def stripSuffix (b : UInt8) (l : List UInt8) : Option (List UInt8) :=
  if l.getLast? = some b then some l.dropLast else none

def chomp (l : List UInt8) : List UInt8 :=
  match stripSuffix LF l with
  | some l => (stripSuffix CR l).getD l
  | none => l

/-- The lines of a file, `none` for one that is no text. -/
def lines (bs : List UInt8) : List (Option String) :=
  (splitInclusive bs).map fun l => fromUtf8 (chomp l)

theorem splitInclusive_line {u : List UInt8} (hu : LF ∉ u) (rest : List UInt8) :
    splitInclusive (u ++ LF :: rest) = (u ++ [LF]) :: splitInclusive rest := by
  induction u with
  | nil => simp [splitInclusive]
  | cons b u ih =>
    have hb : b ≠ LF := fun h => hu (by simp [h])
    have hrest : LF ∉ u := fun h => hu (by simp [h])
    simp [splitInclusive, hb, ih hrest]

theorem splitInclusive_last {u : List UInt8} (hne : u ≠ []) (hu : LF ∉ u) :
    splitInclusive u = [u] := by
  induction u with
  | nil => exact absurd rfl hne
  | cons b u ih =>
    have hb : b ≠ LF := fun h => hu (by simp [h])
    have hrest : LF ∉ u := fun h => hu (by simp [h])
    by_cases hnil : u = []
    · simp [hnil, splitInclusive, hb]
    · simp [splitInclusive, hb, ih hnil hrest]

theorem lines_line {u : List UInt8} (hu : LF ∉ u) (hr : CR ∉ u) (rest : List UInt8) :
    lines (u ++ LF :: rest) = fromUtf8 u :: lines rest := by
  have hchomp : chomp (u ++ [LF]) = u := by
    have hcr : ¬u.getLast? = some CR := fun h => hr (List.mem_of_getLast? h)
    simp [chomp, stripSuffix, hcr]
  rw [lines, splitInclusive_line hu, List.map_cons, hchomp]
  rfl

/-- The last line has no end. -/
theorem lines_last {u : List UInt8} (hne : u ≠ []) (hu : LF ∉ u) : lines u = [fromUtf8 u] := by
  have hchomp : chomp u = u := by
    have hlf : ¬u.getLast? = some LF := fun h => hu (List.mem_of_getLast? h)
    simp [chomp, stripSuffix, hlf]
  rw [lines, splitInclusive_last hne hu, List.map_singleton, hchomp]

end BufRead
