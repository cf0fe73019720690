/-
  Datad/Lib/Codes.lean
  ====================
  **What can be read off the front of a text.**

  A code can be read off if no two words of it begin alike, whatever follows them.  Two
  ways to end a run of words: a run of elements of a class ends where the next is not of
  the class, and a list of code words ends at an element that begins none of them.
-/
import Mathlib.Data.List.Forall2

namespace Codes

variable {α β : Type}

/-- The words of the code, in front of something that `ok` allows. -/
def ReadsOff (ok : List β → Prop) (f : α → List β) : Prop :=
  ∀ a b r s, ok r → ok s → f a ++ r = f b ++ s → a = b ∧ r = s

/-- A code with a decoder. -/
theorem ReadsOff.of_decoder {f : α → List β} {d : List β → Option (α × List β)}
    (h : ∀ a r, d (f a ++ r) = some (a, r)) (ok : List β → Prop) : ReadsOff ok f := by
  intro a b r s _ _ heq
  have hd : some (a, r) = some (b, s) := by rw [← h, heq, h]
  exact Prod.mk.inj (Option.some.inj hd)

/-- A run of elements of a class, in front of something else. -/
theorem run_eq {p : β → Bool} {as bs r s : List β} (ha : ∀ x ∈ as, p x = true)
    (hb : ∀ x ∈ bs, p x = true) (hr : ∀ x ∈ r.head?, p x = false)
    (hs : ∀ x ∈ s.head?, p x = false) (h : as ++ r = bs ++ s) : as = bs ∧ r = s := by
  induction as generalizing bs with
  | nil =>
    cases bs with
    | nil => exact ⟨rfl, h⟩
    | cons b bs =>
      have hb := hb b List.mem_cons_self
      have hr := hr b (by rw [List.nil_append] at h; simp [h])
      exact absurd hb (by simp [hr])
  | cons a as ih =>
    cases bs with
    | nil =>
      have ha := ha a List.mem_cons_self
      have hs := hs a (by rw [List.nil_append] at h; simp [← h])
      exact absurd ha (by simp [hs])
    | cons b bs =>
      rw [List.cons_append, List.cons_append, List.cons.injEq] at h
      obtain ⟨rfl, h⟩ := h
      obtain ⟨rfl, hrs⟩ := ih (fun x hx => ha x (List.mem_cons_of_mem _ hx))
        (fun x hx => hb x (List.mem_cons_of_mem _ hx)) h
      exact ⟨rfl, hrs⟩

/-! ### Segments -/

/-- Segments with the same cuts: each is plain and of one length in both lists, or a mark
    with plain elements behind it in both. -/
inductive Segments (mark : β → Bool) : List (List β) → List (List β) → Prop where
  | nil : Segments mark [] []
  | plain (as bs : List β) (t u : List (List β)) : as.length = bs.length →
      (∀ x ∈ as, mark x = false) → (∀ x ∈ bs, mark x = false) →
      Segments mark t u → Segments mark (as :: t) (bs :: u)
  | marked (m n : β) (as bs : List β) (t u : List (List β)) : mark m = true → mark n = true →
      (∀ x ∈ as, mark x = false) → (∀ x ∈ bs, mark x = false) →
      Segments mark t u → Segments mark ((m :: as) :: t) ((n :: bs) :: u)

/-- Such segments can be told apart: between two marks the plain segments of both lists are
    as long, so what stands behind a mark is too. -/
theorem Segments.flatten_inj {mark : β → Bool} {t u : List (List β)} (h : Segments mark t u)
    {cs ds : List β} (hcs : ∀ x ∈ cs, mark x = false) (hds : ∀ x ∈ ds, mark x = false)
    (heq : cs ++ t.flatten = ds ++ u.flatten) : cs = ds ∧ t = u := by
  induction h generalizing cs ds with
  | nil => simpa using heq
  | plain as bs t u hlen has hbs _ ih =>
      have happend : ∀ {k l : List β}, (∀ x ∈ k, mark x = false) → (∀ x ∈ l, mark x = false) →
          ∀ x ∈ k ++ l, mark x = false := by
        intro k l hk hl x hx
        exact (List.mem_append.mp hx).elim (hk x) (hl x)
      simp only [List.flatten_cons, ← List.append_assoc] at heq
      obtain ⟨hcd, htu⟩ := ih (happend hcs has) (happend hds hbs) heq
      obtain ⟨hcd, hab⟩ := List.append_inj' hcd hlen
      exact ⟨hcd, by rw [hab, htu]⟩
  | marked m n as bs t u hm hn has hbs _ ih =>
      simp only [List.flatten_cons, List.cons_append] at heq
      obtain ⟨hcd, hrest⟩ := run_eq (p := fun x => !mark x) (fun x hx => by simp [hcs x hx])
        (fun x hx => by simp [hds x hx]) (by simp [hm]) (by simp [hn]) heq
      obtain ⟨hmn, hrest⟩ := List.cons.inj hrest
      obtain ⟨hab, htu⟩ := ih has hbs hrest
      exact ⟨hcd, by rw [hmn, hab, htu]⟩

theorem map_eq_map_iff {γ : Type} {f : α → γ} {g : β → γ} {as : List α} {bs : List β} :
    as.map f = bs.map g ↔ List.Forall₂ (fun a b => f a = g b) as bs := by
  rw [← List.forall₂_eq_eq_eq, List.forall₂_map_left_iff, List.forall₂_map_right_iff]

theorem forall₂_and_iff {R S : α → β → Prop} {as : List α} {bs : List β} :
    List.Forall₂ (fun a b => R a b ∧ S a b) as bs ↔
      List.Forall₂ R as bs ∧ List.Forall₂ S as bs := by
  constructor
  · intro h
    exact ⟨h.imp fun _ _ h => h.1, h.imp fun _ _ h => h.2⟩
  · rintro ⟨hr, hs⟩
    induction hr with
    | nil => exact .nil
    | cons hab _ ih =>
        cases hs with
        | cons hab' hs => exact .cons ⟨hab, hab'⟩ (ih hs)

/-- Lists in front of lists of the same length. -/
theorem forall₂_append_iff {R : α → β → Prop} {as cs : List α} {bs ds : List β}
    (h : as.length = bs.length) :
    List.Forall₂ R (as ++ cs) (bs ++ ds) ↔ List.Forall₂ R as bs ∧ List.Forall₂ R cs ds := by
  induction as generalizing bs with
  | nil =>
      cases List.length_eq_zero_iff.mp h.symm
      simp
  | cons a as ih =>
      cases bs with
      | nil => cases h
      | cons b bs => simp [ih (Nat.succ.inj h), and_assoc]

/-- Segments of the same lengths can be compared one by one. -/
theorem forall₂_flatten_iff {R : α → β → Prop} {t : List (List α)} {u : List (List β)}
    (h : List.Forall₂ (fun as bs => as.length = bs.length) t u) :
    List.Forall₂ R t.flatten u.flatten ↔ List.Forall₂ (List.Forall₂ R) t u := by
  induction h with
  | nil => simp
  | cons hlen _ ih => simp [forall₂_append_iff hlen, ih]

/-- The elements whose number is in a set, with their numbers. -/
def pick (keep : Nat → Bool) (as : List α) (n : Nat) : List (α × Nat) :=
  (as.zipIdx n).filter fun x => keep x.2

theorem length_pick (keep : Nat → Bool) (as : List α) (n : Nat) :
    (pick keep as n).length = ((List.range' n as.length).filter keep).length := by
  rw [← List.zipIdx_map_snd, List.filter_map, List.length_map]
  rfl

theorem forall₂_pick_iff {R : α × Nat → β × Nat → Prop} {keep : Nat → Bool} {as : List α}
    {bs : List β} (h : as.length = bs.length) (n : Nat) :
    List.Forall₂ R (pick keep as n) (pick keep bs n) ↔
      ∀ i a b, as[i]? = some a → bs[i]? = some b → keep (n + i) = true →
        R (a, n + i) (b, n + i) := by
  induction as generalizing bs n with
  | nil =>
      cases List.length_eq_zero_iff.mp h.symm
      simp [pick]
  | cons a as ih =>
      cases bs with
      | nil => cases h
      | cons b bs =>
          have ih := ih (Nat.succ.inj h) (n + 1)
          have hsplit : (∀ i a' b', (a :: as)[i]? = some a' → (b :: bs)[i]? = some b' →
              keep (n + i) = true → R (a', n + i) (b', n + i)) ↔
              (keep n = true → R (a, n) (b, n)) ∧
                ∀ i a' b', as[i]? = some a' → bs[i]? = some b' → keep (n + 1 + i) = true →
                  R (a', n + 1 + i) (b', n + 1 + i) := by
            constructor
            · intro hall
              refine ⟨hall 0 a b rfl rfl, ?_⟩
              intro i a' b' ha hb hk
              have := hall (i + 1) a' b' ha hb
              rw [show n + (i + 1) = n + 1 + i by omega] at this
              exact this hk
            · rintro ⟨hhead, htail⟩ i a' b' ha hb hk
              cases i with
              | zero =>
                  cases ha
                  cases hb
                  exact hhead hk
              | succ i =>
                  rw [show n + (i + 1) = n + 1 + i by omega] at hk ⊢
                  exact htail i a' b' ha hb hk
          rw [hsplit, ← ih, pick, pick, List.zipIdx_cons, List.zipIdx_cons]
          cases hk : keep n with
          | true =>
              rw [List.filter_cons_of_pos (by simpa using hk),
                List.filter_cons_of_pos (by simpa using hk)]
              simp [pick]
          | false =>
              rw [List.filter_cons_of_neg (by simpa using hk),
                List.filter_cons_of_neg (by simpa using hk)]
              simp [pick]

/-! ### Digits -/

theorem isDigit_toDigits {n : Nat} {c : Char} (h : c ∈ Nat.toDigits 10 n) : c.isDigit = true :=
  Nat.isDigit_of_mem_toDigits (by decide) (by decide) h

theorem toDigits_inj {m n : Nat} (h : Nat.toDigits 10 m = Nat.toDigits 10 n) : m = n := by
  rw [← Nat.ofDigitChars_ten_toDigits (n := m), h, Nat.ofDigitChars_ten_toDigits]

/-! ### Lists of code words -/

/-- A list of code words with an element behind it that begins none. -/
theorem flatMap_terminated {f : α → List β} {t : β} (hf : ReadsOff (fun _ => True) f)
    (ht : ∀ a r s, f a ++ r ≠ t :: s) (l m : List α) (r s : List β)
    (h : l.flatMap f ++ t :: r = m.flatMap f ++ t :: s) : l = m ∧ r = s := by
  induction l generalizing m with
  | nil =>
    cases m with
    | nil => simpa using h
    | cons b m =>
      rw [List.flatMap_cons, List.append_assoc] at h
      exact absurd h.symm (ht b _ _)
  | cons a l ih =>
    cases m with
    | nil =>
      rw [List.flatMap_cons, List.append_assoc] at h
      exact absurd h (ht a _ _)
    | cons b m =>
      rw [List.flatMap_cons, List.flatMap_cons, List.append_assoc, List.append_assoc] at h
      obtain ⟨hab, hrest⟩ := hf a b _ _ trivial trivial h
      obtain ⟨hlm, hrs⟩ := ih m hrest
      exact ⟨by rw [hab, hlm], hrs⟩

end Codes
