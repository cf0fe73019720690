/-
  Datad/Ops/TxnControl.lean
  =========================
  **The control machine of a transaction**, and that `Txn` refines it.

  What a transaction promises is a matter of five of its fields: phase, intent,
  reason, the cause of a rollback and the generation.  `Ctl` is that projection
  and `Ctl.Step` the list of moves the module comment of `txn.rs` draws, with
  the table of final phases and reasons it prints.  Every operation of the
  source is shown to be a (possibly empty) sequence of such moves, so anything
  the moves preserve holds for every run of the code.
-/
import Datad.Ops.Txn
import Mathlib.Logic.Relation

namespace Datad

/-! ### The table of final states -/

/-- The final phases and their reasons, as the module comment lists them. -/
def Phase.allows : Phase → Reason → Bool
  | .confirmed, .verified | .confirmed, .userKeep => true
  | .unverified, .noRollback | .unverified, .apnNoData => true
  | .rolledBack, .timeout | .rolledBack, .userRevert | .rolledBack, .rebootLoop => true
  | .notApplied, .ignored => true
  | .rollbackFailed, .rollbackTimeout => true
  | .cancelled, .superseded | .cancelled, .preempted | .cancelled, .manualChange
  | .cancelled, .takeover | .cancelled, .simChanged | .cancelled, .otherChange => true
  | _, _ => false

/-- Causes of a rollback. -/
def Reason.startsRollback : Reason → Bool
  | .timeout | .userRevert | .rebootLoop => true
  | _ => false

/-- The reasons the callers of `cancel` pass. -/
def Reason.cancels : Reason → Bool
  | .superseded | .preempted | .takeover | .simChanged | .otherChange => true
  | _ => false

theorem Phase.allows_final {p : Phase} {r : Reason} (h : p.allows r = true) :
    p.isFinal = true := by
  cases p <;> cases r <;> simp_all [Phase.allows, Phase.isFinal]

theorem Reason.cancels_allowed {r : Reason} (h : r.cancels = true) :
    Phase.cancelled.allows r = true := by
  cases r <;> simp_all [Reason.cancels, Phase.allows]

theorem Reason.startsRollback_allowed {r : Reason} (h : r.startsRollback = true) :
    Phase.rolledBack.allows r = true := by
  cases r <;> simp_all [Reason.startsRollback, Phase.allows]

/-! ### The abstract machine -/

/-- The control state of a transaction. -/
structure Ctl where
  phase : Phase
  intent : Option Intent
  reason : Option Reason
  rollbackReason : Option Reason
  generation : Nat
deriving DecidableEq, Repr

namespace Ctl

/-- Reach a final phase. -/
def ended (c : Ctl) (p : Phase) (r : Reason) : Ctl :=
  { c with phase := p, intent := none, reason := some r, generation := c.generation + 1 }

/-- Decide on a rollback, with its intent. -/
def rolling (c : Ctl) (why : Reason) : Ctl :=
  { c with phase := .rollingBack, intent := some .rollback, rollbackReason := some why,
           generation := c.generation + 1 }

/-- One move of the machine. -/
inductive Step : Ctl → Ctl → Prop where
  /-- The write is about to be made. -/
  | begin (c : Ctl) (h : c.phase = .accepted) :
      Step c { c with phase := .applying, intent := some .apply, generation := c.generation + 1 }
  /-- The write came back, or a restart counts it as made. -/
  | written (c : Ctl) (h : c.phase = .applying) :
      Step c { c with phase := .verifying, intent := none, generation := c.generation + 1 }
  /-- The rollback was sent, or a restart counts it as sent. -/
  | sent (c : Ctl) (h : c.phase = .rollingBack) :
      Step c { c with intent := none, generation := c.generation + 1 }
  /-- A restart drops readings requested before it. -/
  | resumed (c : Ctl) (hw : c.phase = .verifying ∨ c.phase = .rollingBack)
      (hi : c.intent = none) : Step c { c with generation := c.generation + 1 }
  /-- A rollback is decided. -/
  | roll (c : Ctl) (h : c.phase = .verifying) (hi : c.intent = none) {why : Reason}
      (hw : why.startsRollback = true) : Step c (c.rolling why)
  /-- A final state of the table other than `rolledBack`. -/
  | close (c : Ctl) (h : c.phase.isFinal = false) {p : Phase} {r : Reason}
      (ht : p.allows r = true) (hp : p ≠ .rolledBack) : Step c (c.ended p r)
  /-- The rollback is confirmed, for the reason it was started. -/
  | rolledBack (c : Ctl) (h : c.phase = .rollingBack) (hi : c.intent = none) :
      Step c (c.ended .rolledBack (c.rollbackReason.getD .timeout))

/-- Any number of moves. -/
abbrev Moves : Ctl → Ctl → Prop := Relation.ReflTransGen Step

/-- What holds of the control state of every transaction. -/
structure Inv (c : Ctl) : Prop where
  applying : c.intent = some .apply ↔ c.phase = .applying
  rolling : c.intent = some .rollback → c.phase = .rollingBack
  reasoned : c.reason.isSome = true ↔ c.phase.isFinal = true
  idle : c.phase.isFinal = true → c.intent = none
  table : ∀ r, c.reason = some r → c.phase.allows r = true
  cause : ∀ r, c.rollbackReason = some r → r.startsRollback = true

theorem Inv.ended {c : Ctl} (hc : Inv c) {p : Phase} {r : Reason}
    (ht : p.allows r = true) : Inv (c.ended p r) := by
  have hp := Phase.allows_final ht
  refine ⟨?_, ?_, ?_, fun _ => rfl, ?_, hc.cause⟩
  · constructor
    · intro h; exact absurd h (by simp [Ctl.ended])
    · intro h
      have happ : p = .applying := h
      rw [happ] at hp
      exact absurd hp (by decide)
  · intro h; exact absurd h (by simp [Ctl.ended])
  · simp [Ctl.ended, hp]
  · intro r' hr'
    have hrr : r = r' := by simpa [Ctl.ended] using hr'
    rw [← hrr]; exact ht

/-- Outside a final phase there is no reason yet. -/
theorem Inv.reason_none {c : Ctl} (hc : Inv c) (hp : c.phase.isFinal = false) :
    c.reason = none := by
  cases h : c.reason with
  | none => rfl
  | some r =>
    have hf := hc.reasoned.mp (by rw [h]; rfl)
    rw [hp] at hf; cases hf

theorem Inv.rolled {c : Ctl} (hc : Inv c) {why : Reason} (hp : c.phase.isFinal = false)
    (hw : why.startsRollback = true) : Inv (c.rolling why) := by
  have hr := hc.reason_none hp
  refine ⟨?_, fun _ => rfl, ?_, ?_, ?_, ?_⟩
  · simp [Ctl.rolling]
  · simp [Ctl.rolling, hr, Phase.isFinal]
  · intro h; exact absurd h (by simp [Ctl.rolling, Phase.isFinal])
  · intro r h; rw [Ctl.rolling, hr] at h; cases h
  · intro r h
    have : why = r := by simpa [Ctl.rolling] using h
    rw [← this]; exact hw

/-- **Every move keeps the invariant.** -/
theorem Inv.step {c c' : Ctl} (hc : Inv c) (h : Step c c') : Inv c' := by
  cases h with
  | begin h =>
    have hr := hc.reason_none (by rw [h]; rfl)
    exact ⟨by simp, by simp, by simp [hr, Phase.isFinal], by simp [Phase.isFinal],
      by simp [hr], hc.cause⟩
  | written h =>
    have hr := hc.reason_none (by rw [h]; rfl)
    exact ⟨by simp, by simp, by simp [hr, Phase.isFinal], by simp,
      by simp [hr], hc.cause⟩
  | sent h =>
    have hr := hc.reason_none (by rw [h]; rfl)
    exact ⟨by simp [h], by simp, by simp [hr, h, Phase.isFinal], by simp,
      by simp [hr], hc.cause⟩
  | resumed hw hi => exact ⟨hc.applying, hc.rolling, hc.reasoned, hc.idle, hc.table, hc.cause⟩
  | roll h hi hw => exact hc.rolled (by rw [h]; rfl) hw
  | close h ht hp => exact hc.ended ht
  | rolledBack h hi =>
    refine hc.ended (Reason.startsRollback_allowed ?_)
    cases hr : c.rollbackReason with
    | none => rfl
    | some r => exact hc.cause r hr

theorem Inv.moves {c c' : Ctl} (hc : Inv c) (h : Moves c c') : Inv c' := by
  induction h with
  | refl => exact hc
  | tail _ hs ih => exact ih.step hs

/-- A move starts from a phase that is not final and raises the generation. -/
theorem Step.progress {c c' : Ctl} (h : Step c c') :
    c.phase.isFinal = false ∧ c'.generation = c.generation + 1 := by
  cases h with
  | begin h => exact ⟨by rw [h]; rfl, rfl⟩
  | written h => exact ⟨by rw [h]; rfl, rfl⟩
  | sent h => exact ⟨by rw [h]; rfl, rfl⟩
  | resumed hw hi => exact ⟨by rcases hw with h | h <;> rw [h] <;> rfl, rfl⟩
  | roll h hi hw => exact ⟨by rw [h]; rfl, rfl⟩
  | close h ht hp => exact ⟨h, rfl⟩
  | rolledBack h hi => exact ⟨by rw [h]; rfl, rfl⟩

theorem Moves.generation_le {c c' : Ctl} (h : Moves c c') :
    c.generation ≤ c'.generation := by
  induction h with
  | refl => exact Nat.le_refl _
  | tail _ hs ih => rw [hs.progress.2]; omega

/-- Moves that leave the generation alone leave everything alone. -/
theorem Moves.eq_of_generation {c c' : Ctl} (h : Moves c c')
    (hg : c'.generation = c.generation) : c' = c := by
  cases h with
  | refl => rfl
  | tail hm hs =>
    have h1 := generation_le hm
    have h2 := hs.progress.2
    omega

/-- A final control state does not move. -/
theorem Moves.final {c c' : Ctl} (h : Moves c c') (hf : c.phase.isFinal = true) :
    c' = c := by
  induction h with
  | refl => rfl
  | tail _ hs ih =>
    rw [ih] at hs
    have := hs.progress.1
    rw [hf] at this; cases this

/-- The rollback write lies in the past, or will never be made. -/
def Sent (c : Ctl) : Prop :=
  c.phase = .rollingBack ∧ c.intent = none ∨ c.phase.isFinal = true

theorem Sent.step {c c' : Ctl} (h : Step c c') (hs : Sent c) : Sent c' := by
  have hf := h.progress.1
  have hc : c.phase = .rollingBack ∧ c.intent = none := by
    rcases hs with hs | hs
    · exact hs
    · rw [hf] at hs; cases hs
  cases h with
  | begin h => rw [h] at hc; cases hc.1
  | written h => rw [h] at hc; cases hc.1
  | sent h => exact .inl ⟨h, rfl⟩
  | resumed hw hi => exact .inl hc
  | roll h hi hw => rw [h] at hc; cases hc.1
  | close h ht hp => exact .inr (Phase.allows_final ht)
  | rolledBack h hi => exact .inr rfl

theorem Sent.moves {c c' : Ctl} (h : Moves c c') (hs : Sent c) : Sent c' := by
  induction h with
  | refl => exact hs
  | tail _ hstep ih => exact ih.step hstep

/-- A control state that wants to send its rollback has it sent after one move,
    whatever the move is. -/
theorem Step.sent_of_rollback {c c' : Ctl} (h : Step c c') (hc : Inv c)
    (hi : c.intent = some .rollback) : Sent c' := by
  have hp := hc.rolling hi
  cases h with
  | begin h => rw [hp] at h; cases h
  | written h => rw [hp] at h; cases h
  | sent h => exact .inl ⟨h, rfl⟩
  | resumed hw hn => rw [hi] at hn; cases hn
  | roll h hn hw => rw [hi] at hn; cases hn
  | close h ht hp => exact .inr (Phase.allows_final ht)
  | rolledBack h hn => rw [hi] at hn; cases hn

theorem Sent.not_rollback {c : Ctl} (hs : Sent c) (hc : Inv c) : c.intent ≠ some .rollback := by
  rcases hs with ⟨-, h⟩ | h
  · rw [h]; exact nofun
  · rw [hc.idle h]; exact nofun

end Ctl

end Datad
