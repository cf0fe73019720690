/-
  Datad/Lib/Staging.lean
  ======================
  **A store with staged values.**  A value is staged first; `commit` puts the staged values
  of a part of the store in place of the committed ones, `revert` drops them.
-/
import Mathlib.Logic.Function.Basic
import Mathlib.Data.List.Basic

namespace Staging

structure Store (κ ν : Type) where
  committed : κ → Option ν
  staged : κ → Option ν

namespace Store

variable {κ ν : Type} (s : Store κ ν) (part : κ → Bool)

def commit : Store κ ν where
  committed k := if part k then (s.staged k).or (s.committed k) else s.committed k
  staged k := if part k then none else s.staged k

def revert : Store κ ν where
  committed := s.committed
  staged k := if part k then none else s.staged k

variable [DecidableEq κ]

def set (k : κ) (v : ν) : Store κ ν := { s with staged := Function.update s.staged k (some v) }

def setAll (us : List (κ × ν)) : Store κ ν := us.foldl (fun s u => s.set u.1 u.2) s

@[simp] theorem set_committed (k : κ) (v : ν) : (s.set k v).committed = s.committed := rfl

theorem setAll_cons (u : κ × ν) (us : List (κ × ν)) :
    s.setAll (u :: us) = (s.set u.1 u.2).setAll us := rfl

@[simp] theorem setAll_committed (us : List (κ × ν)) : (s.setAll us).committed = s.committed := by
  induction us generalizing s with
  | nil => rfl
  | cons u us ih => rw [setAll_cons, ih, set_committed]

theorem setAll_staged_of_notMem {us : List (κ × ν)} {k : κ} (h : k ∉ us.map Prod.fst) :
    (s.setAll us).staged k = s.staged k := by
  induction us generalizing s with
  | nil => rfl
  | cons u us ih =>
      rw [List.map_cons, List.mem_cons, not_or] at h
      rw [setAll_cons, ih _ h.2]
      exact Function.update_of_ne h.1 _ _

theorem setAll_staged {us : List (κ × ν)} (hus : (us.map Prod.fst).Nodup) {k : κ} {v : ν}
    (h : (k, v) ∈ us) : (s.setAll us).staged k = some v := by
  induction us generalizing s with
  | nil => cases h
  | cons u us ih =>
      obtain ⟨hu, hrest⟩ := List.nodup_cons.mp hus
      rw [setAll_cons]
      rcases List.mem_cons.mp h with rfl | h
      · rw [setAll_staged_of_notMem _ hu]
        exact Function.update_self _ _ _
      · exact ih _ hrest h

end Store

end Staging
