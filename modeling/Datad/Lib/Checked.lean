/-
  Datad/Lib/Checked.lean
  ======================
  **Programs that may stop.**

  A checked computation fails with an error, returns, or stops the program: at an index
  or a slice beyond the end, at a slice that is taken as an array of another length, when
  a loop has used up its turns or a recursion its stack.  A loop is given by what one
  turn does.

  `Meets` compares such a computation with a total function: it never stops, fails as the
  function fails, and otherwise returns what is related to the function's result.  The
  rule of loops asks one turn to keep an invariant, to make progress, and to leave the
  function's result as it is.
-/
import Mathlib.Control.Basic

/-- `none` when the program has stopped. -/
abbrev Checked (ε α : Type) := ExceptT ε Option α

namespace Checked

variable {ε α β γ δ σ ρ : Type}

def stop : Checked ε α := (none : Option (Except ε α))

/-! ### What stops a program -/

def index (xs : List α) (i : Nat) : Checked ε α :=
  match xs[i]? with
  | none => stop
  | some x => pure x

def slice (xs : List α) (a b : Nat) : Checked ε (List α) :=
  if a ≤ b ∧ b ≤ xs.length then pure ((xs.take b).drop a) else stop

def sliceFrom (xs : List α) (a : Nat) : Checked ε (List α) :=
  if a ≤ xs.length then pure (xs.drop a) else stop

/-- A slice as an array of `n` elements. -/
def toArray (n : Nat) (xs : List α) : Checked ε (List α) :=
  if xs.length = n then pure xs else stop

theorem index_eq {xs : List α} {i : Nat} {x : α} (h : xs[i]? = some x) :
    (index xs i : Checked ε α) = pure x := by
  rw [index, h]

theorem slice_eq {xs : List α} {a b : Nat} (hab : a ≤ b) (hb : b ≤ xs.length) :
    (slice xs a b : Checked ε (List α)) = pure ((xs.take b).drop a) := if_pos ⟨hab, hb⟩

theorem sliceFrom_eq {xs : List α} {a : Nat} (ha : a ≤ xs.length) :
    (sliceFrom xs a : Checked ε (List α)) = pure (xs.drop a) := if_pos ha

/-- The slice up to the first element with the property, if there is one. -/
theorem slice_findIdx? (p : α → Bool) (xs : List α) :
    (slice xs 0 ((xs.findIdx? p).getD xs.length) : Checked ε (List α)) =
      pure (xs.takeWhile fun x => !(p x)) := by
  have htake : xs.take ((xs.findIdx? p).getD xs.length) = xs.takeWhile fun x => !(p x) := by
    induction xs with
    | nil => rfl
    | cons x xs ih =>
      rw [List.findIdx?_cons]
      by_cases hx : p x
      · simp [hx]
      · cases hf : xs.findIdx? p with
        | none => simpa [hx, hf] using ih
        | some i => simpa [hx, hf] using ih
  have hle : (xs.findIdx? p).getD xs.length ≤ xs.length := by
    cases hf : xs.findIdx? p with
    | none => exact Nat.le_refl _
    | some i => exact Nat.le_of_lt (List.findIdx?_eq_some_iff_getElem.1 hf).1
  rw [slice_eq (Nat.zero_le _) hle, List.drop_zero, htake]

theorem toArray_eq {n : Nat} {xs : List α} (h : xs.length = n) :
    (toArray n xs : Checked ε (List α)) = pure xs := if_pos h

/-! ### Loops -/

/-- A turn leaves the loop, or goes on to the next one. -/
inductive LoopStep (σ ρ : Type) where
  | next (s : σ)
  | done (r : ρ)

/-- A loop of fewer than `n` turns that go on. -/
def loop (turn : σ → Checked ε (LoopStep σ ρ)) : Nat → σ → Checked ε ρ
  | 0, _ => stop
  | n + 1, s => do
      match ← turn s with
      | .next s => loop turn n s
      | .done r => pure r

/-! ### Comparison with a total function -/

/-- The program does not stop, and its result is the function's. -/
inductive Meets (R : α → β → Prop) : Checked ε α → Except ε β → Prop
  | pure {a : α} {b : β} (h : R a b) : Meets R (pure a) (.ok b)
  | throw (e : ε) : Meets R (throw e) (.error e)

namespace Meets

variable {R : α → β → Prop} {S : γ → δ → Prop} {m : Checked ε α} {x : Except ε β}

theorem bind {f : α → Checked ε γ} {g : β → Except ε δ} (h : Meets R m x)
    (hf : ∀ a b, x = .ok b → R a b → Meets S (f a) (g b)) : Meets S (m >>= f) (x >>= g) := by
  cases h with
  | pure h => exact hf _ _ rfl h
  | throw e => exact .throw e

theorem ite {c : Prop} [Decidable c] {m' : Checked ε α} {x' : Except ε β}
    (h : c → Meets R m x) (h' : ¬c → Meets R m' x') :
    Meets R (if c then m else m') (if c then x else x') := by
  by_cases hc : c
  · rw [if_pos hc, if_pos hc]
    exact h hc
  · rw [if_neg hc, if_neg hc]
    exact h' hc

theorem eq_some {m : Checked ε α} {x : Except ε α} (h : Meets Eq m x) : m.run = some x := by
  cases h with
  | pure h => exact congrArg _ (congrArg _ h)
  | throw e => rfl

end Meets

/-- One turn of a loop for the function `f`, when `x` is to come out and `w` is left: `x`
    is reached, or is what `f` makes of the next state, where the invariant holds and less
    is left. -/
inductive Progress (Inv : σ → Prop) (μ : σ → Nat) (R : ρ → β → Prop) (f : σ → Except ε β)
    (w : Nat) (x : Except ε β) : Checked ε (LoopStep σ ρ) → Prop
  | next {s : σ} (hinv : Inv s) (hlt : μ s < w) (hf : x = f s) :
      Progress Inv μ R f w x (pure (.next s))
  | done {r : ρ} {b : β} (hf : x = .ok b) (hr : R r b) :
      Progress Inv μ R f w x (pure (.done r))
  | throw {e : ε} (hf : x = .error e) : Progress Inv μ R f w x (throw e)

section Loop

variable {Inv : σ → Prop} {μ : σ → Nat} {R : ρ → β → Prop} {f : σ → Except ε β}
  {turn : σ → Checked ε (LoopStep σ ρ)} {w : Nat} {x x' : Except ε β}
  {t t' : Checked ε (LoopStep σ ρ)}

namespace Progress

/-- A part of a turn that does not stop. -/
theorem bind {S : γ → δ → Prop} {m : Checked ε γ} {y : Except ε δ}
    {g : γ → Checked ε (LoopStep σ ρ)}
    (h : Meets S m y) (herror : ∀ e, y = .error e → x = .error e)
    (hok : ∀ a b, y = .ok b → S a b → Progress Inv μ R f w x (g a)) :
    Progress Inv μ R f w x (m >>= g) := by
  cases h with
  | pure h => exact hok _ _ rfl h
  | throw e => exact .throw (herror e rfl)

theorem ite {c : Prop} [Decidable c] (h : c → Progress Inv μ R f w x t)
    (h' : ¬c → Progress Inv μ R f w x' t') :
    Progress Inv μ R f w (if c then x else x') (if c then t else t') := by
  by_cases hc : c
  · rw [if_pos hc, if_pos hc]
    exact h hc
  · rw [if_neg hc, if_neg hc]
    exact h' hc

/-- A turn that goes on leaves less. -/
theorem lt {s : σ} (h : Progress Inv μ R f w x t) (ht : t = pure (.next s)) : μ s < w := by
  cases h with
  | next hinv hlt hf =>
    cases ht
    exact hlt
  | done hf hr => cases ht
  | throw hf => cases ht

end Progress

/-- **The rule of loops.**  A turn may rely on what is left being less than the turns. -/
theorem Meets.loop {n : Nat}
    (hturn : ∀ s, Inv s → μ s < n → Progress Inv μ R f (μ s) (f s) (turn s)) {s : σ}
    (hs : Inv s) (hn : μ s < n) : Meets R (loop turn n s) (f s) := by
  have hloop : ∀ k ≤ n, ∀ s, Inv s → μ s < k → Meets R (Checked.loop turn k s) (f s) := by
    intro k
    induction k with
    | zero =>
      intro _ s _ hk
      exact absurd hk (Nat.not_lt_zero _)
    | succ k ih =>
      intro hkn s hs hk
      have h := hturn s hs (Nat.lt_of_lt_of_le hk hkn)
      rw [Checked.loop]
      generalize turn s = t at h
      cases h with
      | next hinv hlt hf =>
        rw [hf]
        exact ih (Nat.le_of_succ_le hkn) _ hinv (Nat.lt_of_lt_of_le hlt (Nat.lt_succ_iff.1 hk))
      | done hf hr =>
        rw [hf]
        exact .pure hr
      | throw hf =>
        rw [hf]
        exact .throw _
  exact hloop n (Nat.le_refl _) s hs hn

end Loop

end Checked
