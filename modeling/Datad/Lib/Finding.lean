/-
  Datad/Lib/Finding.lean
  ======================
  **Searching a text** (`str::find`, `str::contains`).
-/
import Mathlib.Data.List.Basic

namespace Finding

/-- What comes after the first occurrence of a tag. -/
def after (tag : List Char) : List Char → Option (List Char)
  | [] => if tag.isPrefixOf [] then some [] else none
  | c :: s => if tag.isPrefixOf (c :: s) then some ((c :: s).drop tag.length) else after tag s

def contains (tag : String) (s : List Char) : Bool := (after tag.toList s).isSome

/-- `to_ascii_lowercase`. -/
def lower (s : List Char) : List Char := s.map Char.toLower

end Finding
