/-
  Datad/Lib/Urlencoded.lean
  =========================
  **Reading a form** (`application/x-www-form-urlencoded`) whose escapes are ASCII.
-/
import Mathlib.Data.List.Basic

namespace Urlencoded

def hexDigit (c : Char) : Option Nat :=
  if '0' ≤ c ∧ c ≤ '9' then some (c.toNat - '0'.toNat)
  else if 'a' ≤ c ∧ c ≤ 'f' then some (c.toNat - 'a'.toNat + 10)
  else if 'A' ≤ c ∧ c ≤ 'F' then some (c.toNat - 'A'.toNat + 10)
  else none

/-- A plus sign is a space, and `%` with two digits is a character. -/
def unquote : List Char → List Char
  | [] => []
  | '%' :: a :: b :: cs =>
      match hexDigit a, hexDigit b with
      | some h, some l => Char.ofNat (16 * h + l) :: unquote cs
      | _, _ => '%' :: unquote (a :: b :: cs)
  | c :: cs => (if c = '+' then ' ' else c) :: unquote cs

/-- The name before the first `=`, and the value behind it. -/
def field (s : List Char) : List Char × List Char :=
  (unquote (s.takeWhile (· ≠ '=')), unquote ((s.dropWhile (· ≠ '=')).drop 1))

def fields (s : List Char) : List (List Char × List Char) := (s.splitOn '&').map field

/-- One field as it is written. -/
def written (f : List Char × List Char) : List Char := f.1 ++ '=' :: f.2

/-- Characters that stand for themselves. -/
def Plain (s : List Char) : Prop := ∀ c ∈ s, c ≠ '%' ∧ c ≠ '+'

theorem unquote_cons {c : Char} (hp : c ≠ '%') (hplus : c ≠ '+') (cs : List Char) :
    unquote (c :: cs) = c :: unquote cs := by
  rw [unquote]
  · rw [if_neg hplus]
  · rintro a b cs' rfl
    exact absurd rfl hp

theorem unquote_plain {s : List Char} (h : Plain s) : unquote s = s := by
  induction s with
  | nil => rfl
  | cons c cs ih =>
    obtain ⟨hp, hplus⟩ := h c List.mem_cons_self
    rw [unquote_cons hp hplus, ih fun d hd => h d (List.mem_cons_of_mem _ hd)]

theorem unquote_plus (cs : List Char) : unquote ('%' :: '2' :: 'B' :: cs) = '+' :: unquote cs :=
  rfl

theorem not_separator {k : List Char} (hk : '=' ∉ k) : ∀ c ∈ k, decide (c ≠ '=') = true := by
  intro c hc
  rw [decide_eq_true_iff]
  rintro rfl
  exact hk hc

theorem takeWhile_written {k v : List Char} (hk : '=' ∉ k) :
    (written (k, v)).takeWhile (· ≠ '=') = k := by
  rw [written, List.takeWhile_append_of_pos (not_separator hk)]
  simp

theorem dropWhile_written {k v : List Char} (hk : '=' ∉ k) :
    (written (k, v)).dropWhile (· ≠ '=') = '=' :: v := by
  rw [written, List.dropWhile_append_of_pos (not_separator hk)]
  simp

theorem field_written {k v : List Char} (hk : '=' ∉ k) :
    field (written (k, v)) = (unquote k, unquote v) := by
  rw [field, takeWhile_written hk, dropWhile_written hk]
  rfl

/-- **Fields that were written one after another are read back one by one**, if no separator
    is in them. -/
theorem fields_written {fs : List (List Char × List Char)} (hne : fs ≠ [])
    (h : ∀ f ∈ fs, '=' ∉ f.1 ∧ '&' ∉ f.1 ∧ '&' ∉ f.2) :
    fields (List.intercalate ['&'] (fs.map written)) =
      fs.map fun f => (unquote f.1, unquote f.2) := by
  have hsep : ∀ s ∈ fs.map written, '&' ∉ s := by
    intro s hs
    obtain ⟨f, hf, rfl⟩ := List.mem_map.mp hs
    obtain ⟨-, hname, hvalue⟩ := h f hf
    rw [written, List.mem_append, List.mem_cons]
    rintro (hin | hin | hin)
    · exact hname hin
    · exact absurd hin (by decide)
    · exact hvalue hin
  rw [fields, List.splitOn_intercalate '&' hsep (by simpa using hne), List.map_map]
  exact List.map_congr_left fun f hf => field_written (h f hf).1

end Urlencoded
