/-
  Datad/Lib/Ghost.lean
  ====================
  **Machines watched by an observer.**

  A property of a run often speaks of what happened before: which requests came,
  what was seen when.  An observer keeps such a record beside the machine.  It reads
  each step and never influences one, so every run can be watched (`Exec.watch`).
-/
import Datad.Lib.Transition

namespace Transition

variable {σ α γ : Type} {next : σ → α → Option σ} {see : σ → α → σ → γ → γ}
  {ok : σ → α → Prop}

/-- The machine with an observer that notes each step. -/
def watched (next : σ → α → Option σ) (see : σ → α → σ → γ → γ) (s : σ × γ) (a : α) :
    Option (σ × γ) :=
  (next s.1 a).map fun s' => (s', see s.1 a s' s.2)

theorem watched_eq_some {s s' : σ × γ} {a : α} :
    watched next see s a = some s' ↔ next s.1 a = some s'.1 ∧ s'.2 = see s.1 a s'.1 s.2 := by
  rw [watched, Option.map_eq_some_iff]
  constructor
  · rintro ⟨s₁, hs, rfl⟩
    exact ⟨hs, rfl⟩
  · rintro ⟨hs, hg⟩
    exact ⟨s'.1, hs, by rw [← hg]⟩

/-- Every run can be watched. -/
theorem Exec.watch {s₀ s : σ} (h : Exec next ok s₀ s) (g₀ : γ) :
    ∃ g, Exec (watched next see) (fun s a => ok s.1 a) (s₀, g₀) (s, g) := by
  induction h with
  | refl => exact ⟨g₀, .refl _⟩
  | @tail s s' _ a hok hs ih =>
    obtain ⟨g, hg⟩ := ih
    refine ⟨see s a s' g, .tail hg a hok ?_⟩
    exact watched_eq_some.mpr ⟨hs, rfl⟩

end Transition
