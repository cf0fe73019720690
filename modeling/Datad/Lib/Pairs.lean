/-
  Datad/Lib/Pairs.lean
  ====================
  **Starts and ends of runs, read backwards.**  A list has marks for the start and for the
  end of a run, each with a key.  Read from its end, the keys whose run is open backwards
  are those of which the first mark of the rest is an end.
-/
import Mathlib.Data.List.Basic

namespace Pairs

inductive Mark (κ : Type) where
  | start (k : κ)
  | finish (k : κ)

variable {κ : Type}

def Mark.key : Mark κ → κ
  | .start k => k
  | .finish k => k

/-- Of another key, or no mark. -/
def Foreign (k : κ) (m : Option (Mark κ)) : Prop := ∀ x, m = some x → x.key ≠ k

variable [DecidableEq κ]

/-- The keys whose end has been read and whose start has not. -/
def pass (ends : List κ) : Option (Mark κ) → List κ
  | some (.finish k) => k :: ends
  | some (.start k) => ends.filter fun l => decide (l ≠ k)
  | none => ends

def passAll (ends : List κ) (ms : List (Option (Mark κ))) : List κ := ms.foldl pass ends

theorem mem_pass_foreign {k : κ} {ends : List κ} {m : Option (Mark κ)} (h : Foreign k m) :
    k ∈ pass ends m ↔ k ∈ ends := by
  cases m with
  | none => rfl
  | some x =>
      have hne : x.key ≠ k := h x rfl
      cases x with
      | start l =>
          have hne : k ≠ l := Ne.symm hne
          simp [pass, hne]
      | finish l =>
          have hne : k ≠ l := Ne.symm hne
          simp [pass, hne]

/-- **A run is open backwards** exactly if the first mark of its key is an end. -/
theorem mem_passAll_iff (k : κ) (ms : List (Option (Mark κ))) :
    k ∈ passAll [] ms.reverse ↔
      ∃ u v, ms = u ++ some (.finish k) :: v ∧ ∀ m ∈ u, Foreign k m := by
  induction ms with
  | nil => simp [passAll]
  | cons m ms ih =>
      rw [List.reverse_cons, passAll, List.foldl_append, List.foldl_cons, List.foldl_nil]
      change k ∈ pass (passAll [] ms.reverse) m ↔ _
      by_cases hm : Foreign k m
      · rw [mem_pass_foreign hm, ih]
        constructor
        · rintro ⟨u, v, rfl, hu⟩
          refine ⟨m :: u, v, rfl, ?_⟩
          intro x hx
          rcases List.mem_cons.mp hx with rfl | hx
          · exact hm
          · exact hu x hx
        · rintro ⟨u, v, heq, hu⟩
          cases u with
          | nil => exact absurd rfl (hm (.finish k) (List.cons.inj heq).1)
          | cons x u =>
              exact ⟨u, v, (List.cons.inj heq).2, fun y hy => hu y (List.mem_cons_of_mem _ hy)⟩
      · have hkey : m = some (.start k) ∨ m = some (.finish k) := by
          unfold Foreign at hm
          push Not at hm
          obtain ⟨x, rfl, hx⟩ := hm
          cases x with
          | start l => exact .inl (by rw [← hx]; rfl)
          | finish l => exact .inr (by rw [← hx]; rfl)
        rcases hkey with rfl | rfl
        · refine iff_of_false (by simp [pass]) ?_
          rintro ⟨u, v, heq, hu⟩
          cases u with
          | nil => cases (List.cons.inj heq).1
          | cons x u =>
              obtain ⟨rfl, -⟩ := List.cons.inj heq
              exact hu _ List.mem_cons_self (.start k) rfl rfl
        · exact iff_of_true List.mem_cons_self ⟨[], ms, rfl, nofun⟩

/-- What is between two elements in the order of the list stands between them. -/
theorem mem_between {α : Type} {R : α → α → Prop} (hasymm : ∀ {a b}, R a b → ¬R b a)
    {K U L : List α} {w v u : α} (hs : (K ++ w :: (U ++ v :: L)).Pairwise R)
    (hu : u ∈ K ++ w :: (U ++ v :: L)) (hwu : R w u) (huv : R u v) : u ∈ U := by
  obtain ⟨-, hs, hK⟩ := List.pairwise_append.mp hs
  obtain ⟨-, hs⟩ := List.pairwise_cons.mp hs
  obtain ⟨-, hs, -⟩ := List.pairwise_append.mp hs
  obtain ⟨hL, -⟩ := List.pairwise_cons.mp hs
  rcases List.mem_append.mp hu with hu | hu
  · exact absurd (hK u hu w List.mem_cons_self) (hasymm hwu)
  · rcases List.mem_cons.mp hu with rfl | hu
    · exact absurd hwu (hasymm hwu)
    · rcases List.mem_append.mp hu with hu | hu
      · exact hu
      · rcases List.mem_cons.mp hu with rfl | hu
        · exact absurd huv (hasymm huv)
        · exact absurd (hL u hu) (hasymm huv)

end Pairs
