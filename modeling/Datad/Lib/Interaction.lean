/-
  Datad/Lib/Interaction.lean
  ==========================
  **Programs that ask their environment.**

  A program returns a result or makes a request, and goes on with whatever it is answered.
  `Run p t r` is a run: the requests with their answers, and the result.  `Asks P p` says
  that every request is in `P`, whatever the answers are, also in a run that is cut short.
  `Ensures p φ` says `φ` of the requests and the result of every run; it is a weakest
  precondition that is computed along the program (`ensures_iff`), and the rules for `bind`
  and for repeated attempts take a program apart.

  `against` runs a program against an environment that has a state, and `Refines` compares
  that with a function on what one can see of the state.
-/
import Mathlib.Data.List.Basic

namespace Interaction

variable {Q : Type} {A : Q → Type} {α β : Type}

inductive Program (Q : Type) (A : Q → Type) (α : Type) where
  | ret (a : α)
  | ask (q : Q) (k : A q → Program Q A α)

namespace Program

def bind : Program Q A α → (α → Program Q A β) → Program Q A β
  | .ret a, f => f a
  | .ask q k, f => .ask q fun a => (k a).bind f

instance : Monad (Program Q A) where
  pure := .ret
  bind := bind

def request (q : Q) : Program Q A (A q) := .ask q .ret

@[simp] theorem pure_eq (a : α) : (pure a : Program Q A α) = .ret a := rfl

@[simp] theorem ret_bind (a : α) (f : α → Program Q A β) : (Program.ret a >>= f) = f a := rfl

@[simp] theorem ask_bind (q : Q) (k : A q → Program Q A α) (f : α → Program Q A β) :
    (Program.ask q k >>= f) = .ask q fun a => k a >>= f := rfl

@[simp] theorem request_bind (q : Q) (f : A q → Program Q A β) :
    (request q >>= f) = .ask q f := rfl

/-- Try up to `left` times, until an attempt gives something; attempts are numbered. -/
def attempts (body : Nat → Program Q A (Option α)) : Nat → Nat → Program Q A (Option α)
  | 0, _ => .ret none
  | left + 1, i => do
      match ← body i with
      | some a => .ret (some a)
      | none => attempts body left (i + 1)

end Program

open Program

/-! ### Runs -/

inductive Run : Program Q A α → List (Sigma A) → α → Prop where
  | ret (a : α) : Run (.ret a) [] a
  | ask {q : Q} {k : A q → Program Q A α} {t : List (Sigma A)} {r : α} (a : A q)
      (h : Run (k a) t r) : Run (.ask q k) (⟨q, a⟩ :: t) r

/-- Answer every request by a function. -/
def answered (env : (q : Q) → A q) : Program Q A α → List (Sigma A) × α
  | .ret a => ([], a)
  | .ask q k =>
      let r := answered env (k (env q))
      (⟨q, env q⟩ :: r.1, r.2)

theorem run_answered (env : (q : Q) → A q) (p : Program Q A α) :
    Run p (answered env p).1 (answered env p).2 := by
  induction p with
  | ret a => exact .ret a
  | ask q k ih => exact .ask (env q) (ih (env q))

theorem answered_bind (env : (q : Q) → A q) (p : Program Q A α) (f : α → Program Q A β) :
    answered env (p >>= f) = ((answered env p).1 ++ (answered env (f (answered env p).2)).1,
      (answered env (f (answered env p).2)).2) := by
  induction p with
  | ret a => rfl
  | ask q k ih =>
    rw [ask_bind, answered, ih]
    rfl

theorem Run.bind {p : Program Q A α} {f : α → Program Q A β} {t t' : List (Sigma A)} {a : α}
    {r : β} (h : Run p t a) (h' : Run (f a) t' r) : Run (p >>= f) (t ++ t') r := by
  induction h with
  | ret a => exact h'
  | ask a h ih => exact .ask a (ih h')

/-- **A run of two programs is a run of each.** -/
theorem run_bind_iff {p : Program Q A α} {f : α → Program Q A β} {t : List (Sigma A)} {r : β} :
    Run (p >>= f) t r ↔ ∃ t₁ t₂ a, t = t₁ ++ t₂ ∧ Run p t₁ a ∧ Run (f a) t₂ r := by
  constructor
  · intro h
    induction p generalizing t with
    | ret a => exact ⟨[], t, a, rfl, .ret a, h⟩
    | ask q k ih =>
      cases h with
      | ask b h =>
        obtain ⟨t₁, t₂, a, rfl, h₁, h₂⟩ := ih b h
        exact ⟨_, t₂, a, rfl, .ask b h₁, h₂⟩
  · rintro ⟨t₁, t₂, a, rfl, h₁, h₂⟩
    exact h₁.bind h₂

/-! ### Against an environment that has a state -/

/-- Answer every request by what the environment is at that moment. -/
def against {σ : Type} (env : (q : Q) → σ → A q × σ) : Program Q A α → σ → α × σ
  | .ret a, s => (a, s)
  | .ask q k, s => against env (k (env q s).1) (env q s).2

section

variable {σ : Type} {env : (q : Q) → σ → A q × σ}

@[simp] theorem against_ret (a : α) (s : σ) : against env (.ret a) s = (a, s) := rfl

@[simp] theorem against_ask (q : Q) (k : A q → Program Q A α) (s : σ) :
    against env (.ask q k) s = against env (k (env q s).1) (env q s).2 := rfl

/-- **One program goes on where the other has ended.** -/
theorem against_bind (p : Program Q A α) (f : α → Program Q A β) (s : σ) :
    against env (p >>= f) s = against env (f (against env p s).1) (against env p s).2 := by
  induction p generalizing s with
  | ret a => rfl
  | ask q k ih => exact ih _ _

end

/-- Of what can be seen, the program does what the function does. -/
def Refines {σ τ : Type} (env : (q : Q) → σ → A q × σ) (view : σ → τ) (p : Program Q A α)
    (f : τ → α × τ) : Prop :=
  ∀ s, ((against env p s).1, view (against env p s).2) = f (view s)

namespace Refines

variable {σ τ : Type} {env : (q : Q) → σ → A q × σ} {view : σ → τ}

theorem ret (a : α) : Refines env view (.ret a) fun t => (a, t) := fun _ => rfl

end Refines

/-! ### The requests of a program -/

inductive Asks (P : Q → Prop) : Program Q A α → Prop where
  | ret (a : α) : Asks P (.ret a)
  | ask {q : Q} {k : A q → Program Q A α} (hq : P q) (hk : ∀ a, Asks P (k a)) : Asks P (.ask q k)

namespace Asks

variable {P P' : Q → Prop} {p : Program Q A α}

theorem request {q : Q} (hq : P q) : Asks P (Program.request (A := A) q) := .ask hq fun a => .ret a

theorem bind {f : α → Program Q A β} (h : Asks P p) (hf : ∀ a, Asks P (f a)) :
    Asks P (p >>= f) := by
  induction h with
  | ret a => exact hf a
  | ask hq hk ih => exact .ask hq ih

theorem mono (himp : ∀ q, P q → P' q) (h : Asks P p) : Asks P' p := by
  induction h with
  | ret a => exact .ret a
  | ask hq hk ih => exact .ask (himp _ hq) ih

theorem attempts {body : Nat → Program Q A (Option α)} (h : ∀ i, Asks P (body i)) (left : Nat) :
    ∀ i, Asks P (Program.attempts body left i) := by
  induction left with
  | zero => exact fun i => .ret none
  | succ left ih =>
    intro i
    refine (h i).bind fun r => ?_
    cases r with
    | none => exact ih (i + 1)
    | some a => exact .ret _

theorem of_run (h : Asks P p) {t : List (Sigma A)} {r : α} (hr : Run p t r) : ∀ e ∈ t, P e.1 := by
  induction hr with
  | ret a => exact fun e he => absurd he List.not_mem_nil
  | ask a hr ih =>
    cases h with
    | ask hq hk =>
      intro e he
      rcases List.mem_cons.mp he with rfl | he
      · exact hq
      · exact ih (hk a) e he

/-- **The frame rule**: what no request of the program changes is as it was. -/
theorem frame {σ ι : Type} {env : (q : Q) → σ → A q × σ} (view : σ → ι)
    (henv : ∀ q s, P q → view (env q s).2 = view s) (h : Asks P p) (s : σ) :
    view (against env p s).2 = view s := by
  induction h generalizing s with
  | ret a => rfl
  | ask hq hk ih => exact (ih _ _).trans (henv _ s hq)

end Asks

/-! ### What a program ensures -/

def Ensures : Program Q A α → (List (Sigma A) → α → Prop) → Prop
  | .ret a, φ => φ [] a
  | .ask q k, φ => ∀ a, Ensures (k a) fun t r => φ (⟨q, a⟩ :: t) r

theorem ensures_iff {p : Program Q A α} {φ : List (Sigma A) → α → Prop} :
    Ensures p φ ↔ ∀ t r, Run p t r → φ t r := by
  induction p generalizing φ with
  | ret a =>
    constructor
    · intro h t r hr
      cases hr
      exact h
    · exact fun h => h [] a (.ret a)
  | ask q k ih =>
    constructor
    · intro h t r hr
      cases hr with
      | ask a hr => exact (ih a).mp (h a) _ _ hr
    · exact fun h a => (ih a).mpr fun t r hr => h _ _ (.ask a hr)

namespace Ensures

variable {p : Program Q A α} {φ φ' : List (Sigma A) → α → Prop}

theorem mono (h : Ensures p φ) (himp : ∀ t r, φ t r → φ' t r) : Ensures p φ' :=
  ensures_iff.mpr fun t r hr => himp t r (ensures_iff.mp h t r hr)

theorem of_asks {P : Q → Prop} (h : Asks P p) : Ensures p fun t _ => ∀ e ∈ t, P e.1 :=
  ensures_iff.mpr fun _ _ hr => h.of_run hr

theorem and (h : Ensures p φ) (h' : Ensures p φ') : Ensures p fun t r => φ t r ∧ φ' t r :=
  ensures_iff.mpr fun t r hr => ⟨ensures_iff.mp h t r hr, ensures_iff.mp h' t r hr⟩

/-- **The rule of composition.** -/
theorem bind {f : α → Program Q A β} {ψ : List (Sigma A) → β → Prop} (h : Ensures p φ)
    (hf : ∀ t a, φ t a → Ensures (f a) fun t' r => ψ (t ++ t') r) : Ensures (p >>= f) ψ := by
  rw [ensures_iff]
  intro t r hr
  obtain ⟨t₁, t₂, a, rfl, h₁, h₂⟩ := run_bind_iff.mp hr
  exact ensures_iff.mp (hf t₁ a (ensures_iff.mp h t₁ a h₁)) t₂ r h₂

theorem request {q : Q} {f : A q → Program Q A β} {ψ : List (Sigma A) → β → Prop}
    (h : ∀ a, Ensures (f a) fun t r => ψ (⟨q, a⟩ :: t) r) :
    Ensures (Program.request q >>= f) ψ := h

/-- What is so of the result of whatever comes last. -/
theorem last {f : α → Program Q A β} {R : β → Prop} (hf : ∀ a, Ensures (f a) fun _ r => R r) :
    Ensures (p >>= f) fun _ r => R r := by
  rw [ensures_iff]
  intro t r hr
  obtain ⟨_, t₂, a, -, -, h₂⟩ := run_bind_iff.mp hr
  exact ensures_iff.mp (hf a) t₂ r h₂

/-- **The rule of attempts**: an invariant of the attempts that gave nothing, and what the
    last one establishes. -/
theorem attempts_lt {f : Nat → Program Q A (Option α)} {I : Nat → List (Sigma A) → Prop}
    {K : List (Sigma A) → α → Prop} {n : Nat}
    (hbody : ∀ i, i < n → ∀ before, I i before → Ensures (f i) fun t r =>
      (r = none → I (i + 1) (before ++ t)) ∧ ∀ a, r = some a → K (before ++ t) a)
    (left : Nat) : ∀ i before, i + left = n → I i before →
      Ensures (Program.attempts f left i) fun t r =>
        (r = none → I n (before ++ t)) ∧ ∀ a, r = some a → K (before ++ t) a := by
  induction left with
  | zero =>
    rintro i before rfl h
    refine ⟨fun _ => ?_, nofun⟩
    rw [List.append_nil]
    exact h
  | succ left ih =>
    intro i before hn h
    refine (hbody i (by omega) before h).bind fun t r hr => ?_
    cases r with
    | none =>
      refine (ih (i + 1) _ (by omega) (hr.1 rfl)).mono fun t' r' h' => ?_
      rw [← List.append_assoc]
      exact h'
    | some a =>
      refine ⟨nofun, fun b hb => ?_⟩
      rw [List.append_nil, ← Option.some.inj hb]
      exact hr.2 a rfl

theorem attempts {f : Nat → Program Q A (Option α)} {I : Nat → List (Sigma A) → Prop}
    {K : List (Sigma A) → α → Prop}
    (hbody : ∀ i before, I i before → Ensures (f i) fun t r =>
      (r = none → I (i + 1) (before ++ t)) ∧ ∀ a, r = some a → K (before ++ t) a)
    (left i : Nat) (before : List (Sigma A)) (h : I i before) :
    Ensures (Program.attempts f left i) fun t r =>
      (r = none → I (i + left) (before ++ t)) ∧ ∀ a, r = some a → K (before ++ t) a :=
  attempts_lt (fun i _ => hbody i) left i before rfl h

end Ensures

end Interaction
