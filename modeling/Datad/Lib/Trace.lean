/-
  Datad/Lib/Trace.lean
  ====================
  **Loops and steps that emit events.**

  A step takes a state to a state and emits events on the way.  `forEach` is the
  loop that runs such a step over a list and concatenates what is emitted;
  `Emits R` is a sequence of elementary steps, each with at most one event, with
  the events of the whole sequence.  A body that is a sequence of elementary steps
  makes a loop that is one, so a property of the state and the log so far needs to
  be shown for elementary steps only.
-/
import Mathlib.Data.List.Basic

namespace Trace

variable {σ ε ι : Type}

/-- Run `body` over a list, in order, collecting what it emits. -/
def forEach (body : σ → ι → σ × List ε) : List ι → σ → σ × List ε
  | [], s => (s, [])
  | i :: is, s =>
    let r := body s i
    let r' := forEach body is r.1
    (r'.1, r.2 ++ r'.2)

variable {body : σ → ι → σ × List ε}

theorem forEach_append (is js : List ι) (s : σ) :
    forEach body (is ++ js) s =
      ((forEach body js (forEach body is s).1).1,
        (forEach body is s).2 ++ (forEach body js (forEach body is s).1).2) := by
  induction is generalizing s with
  | nil => simp [forEach]
  | cons i is ih => simp [forEach, ih]

theorem forEach_singleton (i : ι) (s : σ) : forEach body [i] s = body s i := by
  simp [forEach]

/-- What the body keeps the loop keeps. -/
theorem forEach_invariant (Inv : σ → Prop) (hbody : ∀ s i, Inv s → Inv (body s i).1)
    (is : List ι) (s : σ) (h : Inv s) : Inv (forEach body is s).1 := by
  induction is generalizing s with
  | nil => exact h
  | cons i is ih => exact ih (body s i).1 (hbody s i h)

/-- **The rule for counting loops.**  `Inv k` holds after the first `k` rounds. -/
theorem forEach_range {body : σ → Nat → σ × List ε} (Inv : Nat → σ → Prop) (n : Nat)
    (hbody : ∀ k s, k < n → Inv k s → Inv (k + 1) (body s k).1) (s : σ) (h : Inv 0 s) :
    Inv n (forEach body (List.range n) s).1 := by
  induction n with
  | zero => exact h
  | succ n ih =>
    rw [List.range_succ, forEach_append, forEach_singleton]
    exact hbody n _ n.lt_succ_self (ih fun k s hk => hbody k s (Nat.lt_succ_of_lt hk))

/-- A sequence of elementary steps and the events it emits. -/
inductive Emits (R : σ → Option ε → σ → Prop) : σ → List ε → σ → Prop where
  | refl (s : σ) : Emits R s [] s
  | tail {s s' s'' : σ} {es : List ε} {o : Option ε} (h : Emits R s es s') (hs : R s' o s'') :
      Emits R s (es ++ o.toList) s''

namespace Emits

variable {R : σ → Option ε → σ → Prop} {s s' s'' : σ} {es es' : List ε}

theorem single {o : Option ε} (h : R s o s') : Emits R s o.toList s' := by
  simpa using (refl (R := R) s).tail h

theorem trans (h : Emits R s es s') (h' : Emits R s' es' s'') : Emits R s (es ++ es') s'' := by
  induction h' with
  | refl => simpa using h
  | tail _ hs ih =>
    rw [← List.append_assoc]
    exact ih.tail hs

theorem mono {R' : σ → Option ε → σ → Prop} (himp : ∀ {s o s'}, R s o s' → R' s o s')
    (h : Emits R s es s') : Emits R' s es s' := by
  induction h with
  | refl => exact .refl _
  | tail _ hs ih => exact ih.tail (himp hs)

/-- What every elementary step keeps, of the state and the log so far, a sequence
    of them keeps. -/
theorem invariant (Inv : List ε → σ → Prop)
    (hstep : ∀ {l s o s'}, Inv l s → R s o s' → Inv (l ++ o.toList) s')
    (h : Emits R s es s') {l : List ε} (h₀ : Inv l s) : Inv (l ++ es) s' := by
  induction h with
  | refl => simpa using h₀
  | tail _ hs ih =>
    rw [← List.append_assoc]
    exact hstep ih hs

/-- Between any two events there is a state. -/
theorem take (h : Emits R s es s') (n : Nat) : ∃ s₁, Emits R s (es.take n) s₁ := by
  induction h with
  | refl =>
    rw [List.take_nil]
    exact ⟨s, .refl s⟩
  | @tail s₁ s₂ es' o hprev hs ih =>
    by_cases hn : n ≤ es'.length
    · rw [List.take_append_of_le_length hn]
      exact ih
    · refine ⟨s₂, ?_⟩
      have hlen : o.toList.length ≤ 1 := by cases o <;> simp
      rw [List.take_of_length_le (by rw [List.length_append]; omega)]
      exact hprev.tail hs

/-- **Every event in its place.**  What holds of an event and the log before it
    when an elementary step emits it holds of every event of a sequence. -/
theorem each (Inv : List ε → σ → Prop) (Q : List ε → ε → Prop)
    (hstep : ∀ {l s o s'}, Inv l s → R s o s' → Inv (l ++ o.toList) s')
    (hQ : ∀ {l s e s'}, Inv l s → R s (some e) s' → Q l e)
    (h : Emits R s es s') {l : List ε} (h₀ : Inv l s) {pre post : List ε} {e : ε}
    (he : es = pre ++ e :: post) : Q (l ++ pre) e := by
  induction h generalizing post with
  | refl => simp at he
  | @tail s₁ s₂ es' o hprev hs ih =>
    rcases o with _ | e'
    · rw [Option.toList_none, List.append_nil] at he
      exact ih he
    · rcases List.eq_nil_or_concat post with rfl | ⟨post', e'', rfl⟩
      · obtain ⟨rfl, hlast⟩ := List.append_inj' he rfl
        cases hlast
        exact hQ (hprev.invariant Inv hstep h₀) hs
      · rw [List.concat_eq_append, ← List.cons_append, ← List.append_assoc] at he
        exact ih (List.append_inj' he rfl).1

/-- A loop over a body made of elementary steps is made of elementary steps. -/
theorem forEach (Inv : σ → Prop) (hstep : ∀ {s o s'}, Inv s → R s o s' → Inv s')
    (hbody : ∀ s i, Inv s → Emits R s (body s i).2 (body s i).1)
    (is : List ι) (s : σ) (h : Inv s) :
    Emits R s (Trace.forEach body is s).2 (Trace.forEach body is s).1 := by
  induction is generalizing s with
  | nil => exact .refl s
  | cons i is ih =>
    have hi : Emits R s (body s i).2 (body s i).1 := hbody s i h
    have hkeep : Inv (body s i).1 :=
      hi.invariant (fun _ => Inv) (fun hinv hR => hstep hinv hR) (l := []) h
    exact hi.trans (ih (body s i).1 hkeep)

end Emits

end Trace
