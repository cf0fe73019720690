/-
  Datad/Lib/Pointwise.lean
  ========================
  **Lists changed in place.**  `Pointwise R l l'` relates the entries of two lists
  position by position.  A loop that works on one entry at a time, each time as a
  reflexive and transitive `R` allows, relates the list before it to the list after it.
-/
import Mathlib.Data.List.Basic
import Mathlib.Data.Option.Basic

def Pointwise {α : Type} (R : α → α → Prop) (l l' : List α) : Prop :=
  ∀ i : Nat, Option.Rel R l[i]? l'[i]?

namespace Pointwise

variable {α β : Type} {R : α → α → Prop} {l l' l'' : List α} {i : Nat} {a b : α}

theorem refl (hr : ∀ a, R a a) (l : List α) : Pointwise R l l := by
  intro i
  cases l[i]? with
  | none => exact .none
  | some a => exact .some (hr a)

theorem trans (ht : ∀ {a b c}, R a b → R b c → R a c) (h : Pointwise R l l')
    (h' : Pointwise R l' l'') : Pointwise R l l'' := by
  intro i
  have hi := h i
  have hi' := h' i
  generalize l[i]? = x at hi ⊢
  generalize l'[i]? = y at hi hi'
  generalize l''[i]? = z at hi' ⊢
  cases hi with
  | none =>
    cases hi'
    exact .none
  | some hab =>
    cases hi' with
    | some hbc => exact .some (ht hab hbc)

theorem set (hr : ∀ a, R a a) (ha : l[i]? = some a) (hab : R a b) :
    Pointwise R l (l.set i b) := by
  intro j
  by_cases hj : i = j
  · subst hj
    rw [List.getElem?_set_self (List.getElem?_eq_some_iff.mp ha).1, ha]
    exact .some hab
  · rw [List.getElem?_set_ne hj]
    exact refl hr l j

theorem map {f : α → α} (hf : ∀ a, R a (f a)) : Pointwise R l (l.map f) := by
  intro i
  rw [List.getElem?_map]
  cases l[i]? with
  | none => exact .none
  | some a => exact .some (hf a)

theorem get (h : Pointwise R l l') (hb : l'[i]? = some b) : ∃ a, l[i]? = some a ∧ R a b := by
  have hi := h i
  rw [hb] at hi
  generalize l[i]? = x at hi
  cases hi with
  | some hab => exact ⟨_, rfl, hab⟩

theorem mem (h : Pointwise R l l') (hb : b ∈ l') : ∃ a ∈ l, R a b := by
  obtain ⟨i, hi⟩ := List.mem_iff_getElem?.mp hb
  obtain ⟨a, ha, hab⟩ := h.get hi
  exact ⟨a, List.mem_of_getElem? ha, hab⟩

/-- What holds of all entries and of a new one holds of all after putting it in. -/
theorem forall_set {P : α → Prop} (h : ∀ x ∈ l, P x) (hb : P b) : ∀ x ∈ l.set i b, P x := by
  intro x hx
  rcases List.mem_or_eq_of_mem_set hx with hx | rfl
  · exact h x hx
  · exact hb

/-- What related entries have in common, the lists have in common. -/
theorem map_eq {f : α → β} (hf : ∀ {a b}, R a b → f b = f a) (h : Pointwise R l l') :
    l'.map f = l.map f := by
  apply List.ext_getElem?
  intro i
  have hi := h i
  rw [List.getElem?_map, List.getElem?_map]
  generalize l[i]? = x at hi ⊢
  generalize l'[i]? = y at hi ⊢
  cases hi with
  | none => rfl
  | some hab => exact congrArg some (hf hab)

theorem length_eq (h : Pointwise R l l') : l'.length = l.length := by
  have := congrArg List.length (map_eq (f := fun _ => ()) (fun _ => rfl) h)
  simpa using this

end Pointwise
