/-
  Datad/Lib/Ranked.lean
  =====================
  **The highest-ranked element of a list.**

  A list is sorted by rank and searched from its end.  Where no two elements have the
  same rank, what is found is the element of the highest rank among those searched for.
-/
import Mathlib.Data.List.MinMax
import Mathlib.Data.List.Sort

namespace Datad

variable {α κ : Type} [LinearOrder κ] {rank : α → κ} {l : List α} {p : α → Bool} {a b : α}

/-- The element of the highest rank among those that satisfy `p`. -/
def highest (rank : α → κ) (p : α → Bool) (l : List α) : Option α := (l.filter p).argmax rank

end Datad
