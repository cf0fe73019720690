/-
  Datad/Lib/Cyclic.lean
  =====================
  **Going round a cycle of `n` places.**

  `ahead n a b` is how many steps forward from place `a` place `b` is.  A pointer that
  never jumps over `b` gets nearer with every move, so it makes fewer than `n` moves
  before it is there (`length_lt_of_passed`).
-/
import Mathlib.Data.List.Chain
import Mathlib.Data.Nat.ModEq

namespace Cyclic

variable {n a b k : Nat}

def ahead (n a b : Nat) : Nat := (b + (n - a % n)) % n

theorem ahead_lt (hn : 0 < n) (a b : Nat) : ahead n a b < n := Nat.mod_lt _ hn

theorem add_ahead (hb : b < n) (a : Nat) : (a + ahead n a b) % n = b := by
  have hlt : a % n < n := Nat.mod_lt _ (Nat.zero_lt_of_lt hb)
  have hsum : a % n + (b + (n - a % n)) = b + n := by omega
  rw [ahead, Nat.add_mod_mod, ← Nat.mod_add_mod, hsum, Nat.add_mod_right, Nat.mod_eq_of_lt hb]

/-- Two ways forward to one place that are shorter than the cycle are the same. -/
theorem eq_of_add_mod {j : Nat} (hk : k < n) (hj : j < n) (h : (a + k) % n = (a + j) % n) :
    k = j := by
  have hmod : k ≡ j [MOD n] := Nat.ModEq.add_left_cancel' a h
  rw [Nat.ModEq, Nat.mod_eq_of_lt hk, Nat.mod_eq_of_lt hj] at hmod
  exact hmod

theorem ahead_eq (hk : k < n) (h : (a + k) % n = b) : ahead n a b = k := by
  have hn : 0 < n := Nat.zero_lt_of_lt hk
  have hb : b < n := h ▸ Nat.mod_lt _ hn
  apply eq_of_add_mod (ahead_lt hn a b) hk
  rw [add_ahead hb, h]

/-- A move that does not jump over `b`. -/
theorem ahead_move (hb : b < n) (hk : k ≤ ahead n a b) :
    ahead n ((a + k) % n) b = ahead n a b - k := by
  have hlt : ahead n a b < n := ahead_lt (Nat.zero_lt_of_lt hb) a b
  refine ahead_eq (by omega) ?_
  have hsum : a + k + (ahead n a b - k) = a + ahead n a b := by omega
  rw [Nat.mod_add_mod, hsum, add_ahead hb]

/-- The pointer moves forward from `a` to `a'`, not over `b`. -/
def Passed (n b a' a : Nat) : Prop := ∃ k, 0 < k ∧ k ≤ ahead n a b ∧ a' = (a + k) % n

/-- Each move brings the pointer nearer; the places are listed the newest first. -/
theorem ahead_of_passed (hb : b < n) {as : List Nat} :
    (a :: as).IsChain (Passed n b) → ahead n a b + (as.length + 1) ≤ n := by
  induction as generalizing a with
  | nil =>
    intro _
    exact ahead_lt (Nat.zero_lt_of_lt hb) a b
  | cons a₁ as ih =>
    intro h
    rw [List.isChain_cons_cons] at h
    obtain ⟨⟨k, hpos, hle, rfl⟩, hrest⟩ := h
    have hnear := ih hrest
    rw [ahead_move hb hle, List.length_cons]
    omega

/-- **No starvation.**  A pointer that has not yet reached `b` has made fewer than `n`
    moves. -/
theorem length_lt_of_passed (hb : b < n) {as : List Nat} (h : as.IsChain (Passed n b))
    (hfar : ∀ a ∈ as.head?, 0 < ahead n a b) : as.length < n := by
  cases as with
  | nil => exact Nat.zero_lt_of_lt hb
  | cons a as =>
    have hnear := ahead_of_passed hb h
    have hpos := hfar a rfl
    rw [List.length_cons]
    omega

end Cyclic
