/-
  Datad/Lib/Transition.lean
  =========================
  **Runs of a machine given by a partial step function.**

  A machine is a function `next : σ → α → Option σ`: in a state, an action is
  either impossible or leads to one state.  `Exec next ok` is reachability by
  steps that satisfy a side condition on the state before the step, so that
  "every run whose steps all meet the condition" is `Exec` with that condition
  and "every run" is `Exec` with none.
-/
import Mathlib.Logic.Basic

namespace Transition

variable {σ α : Type} {next : σ → α → Option σ} {ok ok' : σ → α → Prop}

/-- Reachability by steps that satisfy `ok` in the state they start from. -/
inductive Exec (next : σ → α → Option σ) (ok : σ → α → Prop) : σ → σ → Prop where
  | refl (s : σ) : Exec next ok s s
  | tail {s₀ s s' : σ} (h : Exec next ok s₀ s) (a : α) (hok : ok s a)
      (hs : next s a = some s') : Exec next ok s₀ s'

/-- **The invariant rule.**  What every admissible step keeps holds in every state
    an admissible run reaches. -/
theorem Exec.invariant (Inv : σ → Prop)
    (hstep : ∀ {s s' : σ} {a : α}, Inv s → ok s a → next s a = some s' → Inv s')
    {s₀ s : σ} (h : Exec next ok s₀ s) (h₀ : Inv s₀) : Inv s := by
  induction h with
  | refl => exact h₀
  | tail _ a hok hs ih => exact hstep ih hok hs

/-- A weaker side condition admits more runs. -/
theorem Exec.mono (himp : ∀ s a, ok s a → ok' s a) {s₀ s : σ}
    (h : Exec next ok s₀ s) : Exec next ok' s₀ s := by
  induction h with
  | refl => exact .refl _
  | tail _ a hok hs ih => exact .tail ih a (himp _ a hok) hs

theorem Exec.single {s s' : σ} (a : α) (hok : ok s a) (hs : next s a = some s') :
    Exec next ok s s' := .tail (.refl s) a hok hs

theorem Exec.trans {s₀ s s' : σ} (h : Exec next ok s₀ s) (h' : Exec next ok s s') :
    Exec next ok s₀ s' := by
  induction h' with
  | refl => exact h
  | tail _ a hok hs ih => exact .tail ih a hok hs

/-- **The simulation rule.**  If another machine answers each admissible step by a run, of
    any length, then it answers every admissible run. -/
theorem Exec.simulate {τ β : Type} {next' : τ → β → Option τ} {ok' : τ → β → Prop}
    (Sim : σ → τ → Prop)
    (hstep : ∀ {s s' : σ} {a : α} {t : τ}, Sim s t → ok s a → next s a = some s' →
      ∃ t', Exec next' ok' t t' ∧ Sim s' t')
    {s₀ s : σ} {t₀ : τ} (h : Exec next ok s₀ s) (h₀ : Sim s₀ t₀) :
    ∃ t, Exec next' ok' t₀ t ∧ Sim s t := by
  induction h with
  | refl => exact ⟨t₀, .refl t₀, h₀⟩
  | tail _ a hok hs ih =>
    obtain ⟨t, ht, hsim⟩ := ih
    obtain ⟨t', ht', hsim'⟩ := hstep hsim hok hs
    exact ⟨t', ht.trans ht', hsim'⟩

/-- Run a list of actions, as long as each passes the test. -/
def run (next : σ → α → Option σ) (test : σ → α → Bool) : σ → List α → Option σ
  | s, [] => some s
  | s, a :: as => if test s a then (next s a).bind fun s' => run next test s' as else none

theorem Exec.trans_run {test : σ → α → Bool} (htest : ∀ s a, test s a = true → ok s a)
    (as : List α) : ∀ {s₀ s s' : σ}, Exec next ok s₀ s → run next test s as = some s' →
      Exec next ok s₀ s' := by
  induction as with
  | nil =>
    intro s₀ s s' h hr
    rw [← Option.some.inj hr]
    exact h
  | cons a as ih =>
    intro s₀ s s' h hr
    rw [run] at hr
    split at hr
    · rename_i ht
      rw [Option.bind_eq_some_iff] at hr
      obtain ⟨s₁, hs, hrest⟩ := hr
      exact ih (.tail h a (htest s a ht) hs) hrest
    · cases hr

/-- **Computed runs.**  Going on from `s` by a list of actions that pass the test
    leads to a state with the property computed of it. -/
theorem Exec.exists_of_run {test : σ → α → Bool} (htest : ∀ s a, test s a = true → ok s a)
    {as : List α} {s₀ s : σ} {p : σ → Bool} (h₀ : Exec next ok s₀ s)
    (h : (run next test s as).any p = true) : ∃ s', Exec next ok s₀ s' ∧ p s' = true := by
  rcases hr : run next test s as with _ | s'
  · rw [hr] at h; cases h
  · rw [hr] at h; exact ⟨s', trans_run htest as h₀ hr, h⟩

end Transition
