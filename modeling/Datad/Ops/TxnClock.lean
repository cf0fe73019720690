/-
  Datad/Ops/TxnClock.lean
  =======================
  **How long a transaction has waited** (`Txn::resume`, `Txn::on_tick`).

  The wait for the confirmation may be spread over two boots, whose clocks start anew.
  What was waited before a reboot is added up in `elapsedPrevMs`; the rest is counted
  from `waitStartMs`, which a restart of the daemon alone leaves as it is.  An observer
  notes for each boot from when to when the transaction was counting, and the sum of
  that is what a confirmed transaction reports (`deadline_accounting`).
-/
import Datad.Lib.Ghost
import Datad.Ops.TxnConfirm

namespace Datad

namespace Txn

open Transition

/-! ### What a beat sees -/

/-- The fields the deadline depends on. -/
structure Times where
  phase : Phase
  intent : Option Intent
  boots : Nat
  elapsedPrevMs : Nat
  waitStartMs : Nat
  seenMs : Nat
  deadlineMs : Nat
  rollbackEnabled : Bool
  bootId : String

def times (t : Txn) : Times :=
  ⟨t.phase, t.intent, t.boots, t.elapsedPrevMs, t.waitStartMs, t.seenMs, t.deadlineMs,
    t.rollbackEnabled, t.bootId⟩

/-- No reading confirms it any more, or one has not. -/
structure Over (t : Txn) : Prop where
  accepted : t.phase ≠ .accepted
  applying : t.phase ≠ .applying
  verifying : t.phase ≠ .verifying
  verified : t.phase = .confirmed → t.reason ≠ some .verified

/-- What becomes of a counting transaction that sees the clock. -/
inductive Seen (t : Txn) (now : Nat) : Txn → Prop where
  | waits {t' : Txn} (h : t'.times = { t.times with seenMs := now }) : Seen t now t'
  | confirmed {t' : Txn} (hp : t.phase = .verifying) (phase : t'.phase = .confirmed)
      (reason : t'.reason = some .verified) (waitStartMs : t'.waitStartMs = t.waitStartMs)
      (tookMs : t'.tookMs = some (t.elapsedPrevMs + (now - t.waitStartMs))) : Seen t now t'
  | ended {t' : Txn} (h : Over t') : Seen t now t'

theorem Over.finish (t : Txn) {p : Phase} {r : Reason} (hp : p.isFinal = true)
    (hr : p = .confirmed → r ≠ .verified) : Over (t.finish p r).1 := by
  refine ⟨?_, ?_, ?_, ?_⟩
  · rintro h
    rw [show p = .accepted from h] at hp
    cases hp
  · rintro h
    rw [show p = .applying from h] at hp
    cases hp
  · rintro h
    rw [show p = .verifying from h] at hp
    cases hp
  · rintro hc h
    exact hr hc (Option.some.inj h)

theorem Over.startRollback (t : Txn) (why : Reason) : Over (t.startRollback why).1 :=
  ⟨by simp [Txn.startRollback, step], by simp [Txn.startRollback, step],
    by simp [Txn.startRollback, step], by simp [Txn.startRollback, step]⟩

theorem Over.expire (t : Txn) (why : Reason) : Over (t.expire why).1 := by
  unfold Txn.expire
  split
  · exact .startRollback t why
  · exact .finish t rfl (by simp)

theorem expire_phase (t : Txn) (why : Reason) :
    (t.expire why).1.phase = if t.rollbackEnabled then .rollingBack else .unverified := by
  unfold expire
  split <;> rfl

theorem counting_gate {t : Txn} (hc : t.counting = true) :
    t.phase.isFinal = false ∧ ¬(!t.waiting || t.intent.isSome) = true := by
  refine ⟨isFinal_of_waiting ((counting_iff t).mp hc).1, ?_⟩
  simp only [counting, Bool.and_eq_true, Option.isNone_iff_eq_none] at hc
  simp [hc.1, hc.2]

theorem idle_gate {t : Txn} (hc : t.counting = false) :
    (!t.waiting || t.intent.isSome) = true := by
  unfold counting at hc
  cases hw : t.waiting
  · rfl
  · rw [hw, Bool.true_and] at hc
    simpa using hc

theorem onReading_idle {t : Txn} (hc : t.counting = false) (r : Reading) (now : Nat) :
    (t.onReading r now).1 = t := by
  unfold onReading
  rw [if_pos (idle_gate hc)]
  split <;> rfl

theorem onTick_idle {t : Txn} (hc : t.counting = false) (now : Nat) : (t.onTick now).1 = t := by
  unfold onTick
  rw [if_pos (idle_gate hc)]
  split <;> rfl

/-- A tick before the deadline. -/
theorem onTick_before {t : Txn} (hc : t.counting = true) {now : Nat}
    (hd : now - t.waitStartMs < t.deadlineMs) :
    (t.onTick now).1 = { t with seenMs := max t.seenMs now } := by
  obtain ⟨hf, hg⟩ := counting_gate hc
  simp [onTick, hf, hg, hd]

/-- A tick after it. -/
theorem onTick_after {t : Txn} (hc : t.counting = true) {now : Nat}
    (hd : t.deadlineMs ≤ now - t.waitStartMs) :
    Over (t.onTick now).1 ∧ (t.onTick now).1.phase ≠ t.phase := by
  obtain ⟨hf, hg⟩ := counting_gate hc
  have hw := ((counting_iff t).mp hc).1
  rw [onTick, if_neg (by simp [hf]), if_neg hg]
  dsimp only
  rw [if_neg (by simpa using hd)]
  split
  · rename_i hr
    exact ⟨.finish _ rfl (by simp), by rw [hr]; simp [finish, step]⟩
  · rename_i hr
    have hv : t.phase = .verifying := hw.resolve_right hr
    split
    · exact ⟨.finish _ rfl (by simp), by rw [hv]; simp [finish, step]⟩
    · have hover := Over.expire { t with seenMs := max t.seenMs now } .timeout
      exact ⟨hover, by rw [hv]; exact hover.verifying⟩

theorem onTick_seen {t : Txn} (hc : t.counting = true) {now : Nat} (hle : t.seenMs ≤ now) :
    Seen t now (t.onTick now).1 := by
  by_cases hd : now - t.waitStartMs < t.deadlineMs
  · apply Seen.waits
    rw [onTick_before hc hd, Nat.max_eq_right hle]
    rfl
  · exact .ended (onTick_after hc (not_lt.mp hd)).1

theorem noteProbe_times (t : Txn) (r : Reading) (now : Nat) :
    (t.noteProbe r now).times = t.times := by
  unfold noteProbe
  split
  · rfl
  · rfl

theorem noteConn_times (t : Txn) (r : Reading) : (t.noteConn r).times = t.times := by
  unfold noteConn
  split
  · rfl
  · rfl

/-- The readback of a transaction that waits for its confirmation. -/
theorem judgeVerifying_times (t : Txn) (r : Reading) (v : String) (now : Nat)
    (hp : t.phase = .verifying) :
    (t.judgeVerifying r v now).2 = none ∧ (t.judgeVerifying r v now).1.times = t.times ∨
      (t.judgeVerifying r v now).2 ≠ none ∧ Seen t now (t.judgeVerifying r v now).1 := by
  unfold judgeVerifying
  split
  · dsimp only
    split
    · split
      · exact .inr ⟨by simp, .confirmed hp rfl rfl rfl rfl⟩
      · exact .inr ⟨by simp, .ended (.finish _ rfl (by simp))⟩
      · exact .inl ⟨rfl, rfl⟩
    · exact .inl ⟨rfl, rfl⟩
  · split
    · split
      · exact .inr ⟨by simp, .ended (.finish _ rfl (by simp))⟩
      · split
        · exact .inr ⟨by simp, .ended (.finish _ rfl (by simp))⟩
        · exact .inl ⟨rfl, rfl⟩
    · split
      · exact .inr ⟨by simp, .ended (.finish _ rfl (by simp))⟩
      · exact .inl ⟨rfl, rfl⟩

theorem judgeRollback_times (t : Txn) (r : Reading) (v : String) (now : Nat) :
    (t.judgeRollback r v).2 = none ∧ (t.judgeRollback r v).1.times = t.times ∨
      (t.judgeRollback r v).2 ≠ none ∧ Seen t now (t.judgeRollback r v).1 := by
  unfold judgeRollback
  split
  · split
    · dsimp only
      split
      · refine .inr ⟨by simp, .ended ⟨?_, ?_, ?_, ?_⟩⟩ <;> simp [finish, step]
      · exact .inl ⟨rfl, rfl⟩
    · exact .inl ⟨rfl, rfl⟩
  · split
    · exact .inr ⟨by simp, .ended (.finish _ rfl (by simp))⟩
    · exact .inl ⟨rfl, rfl⟩

/-- Only the times matter of a transaction that sees the clock. -/
theorem Seen.of_times {t t₁ t' : Txn} {now : Nat} (h : t₁.times = { t.times with seenMs := now })
    (hs : Seen t₁ now t') : Seen t now t' := by
  cases hs with
  | waits h' => exact .waits (h'.trans (by rw [h]))
  | confirmed hp phase reason waitStartMs tookMs =>
    have hp₁ : t₁.phase = t.phase := congrArg Times.phase h
    have helapsed : t₁.elapsedPrevMs = t.elapsedPrevMs := congrArg Times.elapsedPrevMs h
    have hstart : t₁.waitStartMs = t.waitStartMs := congrArg Times.waitStartMs h
    exact .confirmed (hp₁.symm.trans hp) phase reason (waitStartMs.trans hstart)
      (by rw [tookMs, helapsed, hstart])
  | ended h' => exact .ended h'

theorem counting_of_times {t t₁ : Txn} {now : Nat} (h : t₁.times = { t.times with seenMs := now })
    (hc : t.counting = true) : t₁.counting = true := by
  have hphase : t₁.phase = t.phase := congrArg Times.phase h
  have hintent : t₁.intent = t.intent := congrArg Times.intent h
  rwa [counting_iff, hphase, hintent, ← counting_iff]

/-- **A reading**: the transaction goes on waiting, is confirmed, or is over. -/
theorem onReading_seen {t : Txn} (hc : t.counting = true) (r : Reading) (now : Nat) :
    Seen t now (t.onReading r now).1 := by
  obtain ⟨hf, hg⟩ := counting_gate hc
  have hw := ((counting_iff t).mp hc).1
  have hset : (({ t with seenMs := now } : Txn).noteConn r).times =
      { t.times with seenMs := now } := by
    rw [noteConn_times]
    rfl
  -- a reading without a verdict leaves the deadline to the tick
  have htick : ∀ t₁ : Txn, t₁.times = { t.times with seenMs := now } →
      Seen t now (t₁.onTick now).1 := by
    intro t₁ h₁
    have hseen : t₁.seenMs = now := congrArg Times.seenMs h₁
    exact .of_times h₁ (onTick_seen (counting_of_times h₁ hc) (Nat.le_of_eq hseen))
  rw [onReading, if_neg (by simp [hf]), if_neg hg]
  dsimp only
  generalize ({ t with seenMs := now } : Txn).noteConn r = t₁ at hset ⊢
  split
  · exact .ended (.finish _ rfl (by simp))
  · exact htick _ hset
  · unfold judge
    dsimp only
    have hnoted : ({ t₁ with registered := r.registered }.noteProbe r now).times =
        { t.times with seenMs := now } := by
      rw [noteProbe_times]
      exact hset
    generalize { t₁ with registered := r.registered }.noteProbe r now = t₂ at hnoted ⊢
    cases r.value with
    | none => exact htick _ hnoted
    | some v =>
      have hvalue : (t₂.noteValue v).times = { t.times with seenMs := now } := hnoted
      dsimp only
      generalize t₂.noteValue v = t₃ at hvalue ⊢
      have hjudge : (t₃.judgeValue r v now).2 = none ∧
          (t₃.judgeValue r v now).1.times = t₃.times ∨
          (t₃.judgeValue r v now).2 ≠ none ∧ Seen t₃ now (t₃.judgeValue r v now).1 := by
        unfold judgeValue
        split
        · rename_i hp
          exact judgeVerifying_times t₃ r v now hp
        · exact judgeRollback_times t₃ r v now
      rcases hjudge with ⟨hnone, htimes⟩ | ⟨hsome, hseen⟩
      · simp only [conclude, hnone]
        exact htick _ (htimes.trans hvalue)
      · obtain ⟨n, hn⟩ := Option.ne_none_iff_exists'.mp hsome
        simp only [conclude, hn]
        exact .of_times hvalue hseen

theorem applied_times {t : Txn} (hp : t.phase = .applying) (o : Applied) (now : Nat) :
    (t.applied o now).times = { t.times with
      phase := .verifying
      intent := none
      waitStartMs := now
      seenMs := now } := by
  simp [applied, hp, step, times]

/-! ### Restarts -/

/-- Restarting the daemon alone does not touch the deadline. -/
theorem resume_same_boot {t : Txn} (hc : t.counting = true) (now : Nat) :
    (t.resume t.bootId now).1.times = { t.times with seenMs := now } := by
  obtain ⟨hf, -⟩ := counting_gate hc
  obtain ⟨hw, hi⟩ := (counting_iff t).mp hc
  rcases hw with hp | hp <;>
    simp [resume, hp, hi, Phase.isFinal, pickUp, settle, times]

/-- After a reboot the wait is over at the second one, or if what was waited before has
    reached the deadline. -/
theorem settle_expires {t : Txn} (hp : t.phase = .verifying)
    (h : 2 ≤ t.boots ∨ t.deadlineMs ≤ t.elapsedPrevMs) (now : Nat) :
    Over (t.settle true now).1 ∧ (t.settle true now).1.phase =
      if t.rollbackEnabled then .rollingBack else .unverified := by
  have hcond : (true && decide (t.phase = .verifying) &&
      (decide (t.boots ≥ 2) || decide (t.elapsedPrevMs ≥ t.deadlineMs))) = true := by
    simpa [hp] using h
  rw [settle]
  dsimp only
  rw [if_pos hcond]
  exact ⟨.expire _ _, expire_phase _ _⟩

theorem settle_waits {t : Txn} {reboot : Bool}
    (h : ¬(reboot = true ∧ t.phase = .verifying ∧ (2 ≤ t.boots ∨ t.deadlineMs ≤ t.elapsedPrevMs)))
    (now : Nat) : (t.settle reboot now).1.times = { t.times with seenMs := now } := by
  have hcond : ¬(reboot && decide (t.phase = .verifying) &&
      (decide (t.boots ≥ 2) || decide (t.elapsedPrevMs ≥ t.deadlineMs))) = true := by
    simpa [and_assoc] using h
  rw [settle]
  dsimp only
  rw [if_neg hcond]
  rfl

/-- **A reboot** while a transaction waits for its confirmation adds up what it waited. -/
theorem resume_reboot {t : Txn} (hp : t.phase = .verifying) (hi : t.intent = none)
    {bootId : String} (hb : bootId ≠ t.bootId) (now : Nat) :
    ∃ t₁ : Txn, t.resume bootId now = t₁.settle true now ∧
      t₁.times = { t.times with
        boots := t.boots + 1
        elapsedPrevMs := t.elapsedPrevMs + (t.seenMs - t.waitStartMs)
        waitStartMs := now
        bootId := bootId } := by
  refine ⟨{ t.rebooted bootId with waitStartMs := now }, ?_, ?_⟩
  · simp [resume, hp, hi, hb, Phase.isFinal, rebooted, waiting, resetProbe, pickUp]
  · simp [rebooted, waiting, hp, hi, resetProbe, times]

/-- A transaction that is resumed in its write begins to wait. -/
theorem resume_applying {t : Txn} (hp : t.phase = .applying) (bootId : String) (now : Nat) :
    ∃ t₁ : Txn, t.resume bootId now = t₁.settle (decide (bootId ≠ t.bootId)) now ∧
      t₁.times = { t.times with
        phase := .verifying
        intent := none
        boots := if bootId = t.bootId then t.boots else t.boots + 1
        waitStartMs := now
        bootId := bootId } := by
  by_cases hb : bootId = t.bootId
  · refine ⟨{ t with intent := none, phase := .verifying, waitStartMs := now }, ?_, ?_⟩
    · simp [resume, hp, hb, Phase.isFinal, pickUp]
    · simp [times, hb]
  · refine ⟨{ t.rebooted bootId with intent := none, phase := .verifying, waitStartMs := now },
      ?_, ?_⟩
    · simp [resume, hp, hb, Phase.isFinal, rebooted, waiting, resetProbe, pickUp]
    · simp [rebooted, waiting, hp, hb, resetProbe, times]

/-! ### Transactions that are over -/

theorem call_final {t : Txn} (hf : t.phase.isFinal = true) (o : Op) : t.call o = t := by
  have hne (p : Phase) (hp : p.isFinal = false) : t.phase ≠ p := by
    rintro rfl
    rw [hf] at hp
    cases hp
  have happly := hne .applying rfl
  have hverify := hne .verifying rfl
  have hroll := hne .rollingBack rfl
  cases o <;> simp [call, applied, onReading, onTick, rollbackSent, revert, keep, cancel, resume,
    hf, happly, hverify, hroll]

theorem Over.final_or_rolling {t : Txn} (h : Over t) :
    t.phase.isFinal = true ∨ t.phase = .rollingBack := by
  have := h.accepted
  have := h.applying
  have := h.verifying
  cases hp : t.phase <;> simp_all [Phase.isFinal]

theorem Over.of_rolling {t : Txn} (h : t.phase = .rollingBack) : Over t := by
  refine ⟨?_, ?_, ?_, ?_⟩ <;> simp [h]

theorem Over.seen {t t' : Txn} {now : Nat} (hp : t.phase = .rollingBack) (h : Seen t now t') :
    Over t' := by
  cases h with
  | waits h => exact .of_rolling ((congrArg Times.phase h).trans hp)
  | confirmed hv => simp [hp] at hv
  | ended h => exact h

theorem rebooted_phase (t : Txn) (bootId : String) : (t.rebooted bootId).phase = t.phase := by
  unfold rebooted
  dsimp only [resetProbe]
  split <;> rfl

/-- A rollback that waits is not taken back by a restart. -/
theorem resume_rolling {t : Txn} (hp : t.phase = .rollingBack) (bootId : String) (now : Nat) :
    (t.resume bootId now).1.phase = .rollingBack := by
  have hpick : ∀ (t₁ : Txn) (reboot : Bool), t₁.phase = .rollingBack →
      (t₁.pickUp reboot now).phase = .rollingBack := by
    intro t₁ reboot h₁
    unfold pickUp
    rw [h₁]
    cases t₁.intent <;> simp
  have hsettle : ∀ (t₁ : Txn) (reboot : Bool), t₁.phase = .rollingBack →
      (t₁.settle reboot now).1.phase = .rollingBack := by
    intro t₁ reboot h₁
    simp [settle, h₁]
  rw [resume, if_neg (by simp [hp, Phase.isFinal])]
  dsimp only
  split
  · rw [if_neg (by simp [rebooted_phase, hp])]
    exact hsettle _ _ (hpick _ _ ((rebooted_phase t bootId).trans hp))
  · rw [if_neg (by simp [hp])]
    exact hsettle _ _ (hpick _ _ hp)

theorem Over.call {t : Txn} (h : Over t) (o : Op) : Over (t.call o) := by
  rcases h.final_or_rolling with hf | hp
  · rwa [call_final hf]
  have hf : t.phase.isFinal = false := by rw [hp]; rfl
  cases o with
  | applied o now => simpa [Txn.call, applied, hp] using h
  | onReading r now =>
    by_cases hc : t.counting = true
    · exact .seen hp (onReading_seen hc r now)
    · simpa [Txn.call, onReading_idle (Bool.eq_false_iff.mpr hc)] using h
  | onTick now =>
    by_cases hc : t.counting = true
    · by_cases hd : now - t.waitStartMs < t.deadlineMs
      · exact .of_rolling (by rw [Txn.call, onTick_before hc hd]; exact hp)
      · exact (onTick_after hc (not_lt.mp hd)).1
    · simpa [Txn.call, onTick_idle (Bool.eq_false_iff.mpr hc)] using h
  | rollbackSent now => exact .of_rolling (by simp [Txn.call, rollbackSent, hp, resetProbe])
  | revert => simpa [Txn.call, revert, hp] using h
  | keep => simpa [Txn.call, keep, hp] using h
  | cancel why =>
    rw [Txn.call, cancel, if_neg (by simp [hf])]
    exact .finish t rfl (by simp)
  | resume bootId now => exact .of_rolling (resume_rolling hp bootId now)

/-! ### The clock and the observer -/

structure Clocked where
  txn : Txn
  clock : Nat

/-- What is called on a transaction; the write is begun once, right after it was made. -/
inductive Act where
  | beginApply
  | op (o : Op)

def Op.clock? : Op → Option Nat
  | .applied _ now => some now
  | .onReading _ now => some now
  | .onTick now => some now
  | .rollbackSent now => some now
  | .resume _ now => some now
  | _ => none

def Op.reboots (t : Txn) : Op → Bool
  | .resume bootId _ => decide (bootId ≠ t.bootId)
  | _ => false

/-- The clock goes on within a boot, and starts anew with the next. -/
def next (s : Clocked) : Act → Option Clocked
  | .beginApply =>
      if s.txn.phase = .accepted then some { s with txn := s.txn.beginApply } else none
  | .op o =>
      match o.clock? with
      | none => some { s with txn := s.txn.call o }
      | some now =>
          if o.reboots s.txn = true ∨ s.clock ≤ now then
            some { txn := s.txn.call o, clock := now }
          else none

/-- The clock a call shows to the transaction. -/
def Op.shows (t : Txn) : Op → Option Nat
  | .applied _ now => if t.phase = .applying then some now else none
  | .onReading _ now => if t.counting then some now else none
  | .onTick now => if t.counting then some now else none
  | .rollbackSent now => if t.phase = .rollingBack then some now else none
  | .resume _ now => if t.phase.isFinal then none else some now
  | _ => none

/-- For each boot, the last first: from when to when the transaction was seen counting. -/
def noteWait (s : Clocked) (a : Act) (s' : Clocked) (g : List (Option (Nat × Nat))) :
    List (Option (Nat × Nat)) :=
  match a with
  | .beginApply => g
  | .op o =>
      let g := if o.reboots s.txn then none :: g else g
      match o.shows s.txn with
      | none => g
      | some now =>
          if s'.txn.counting || (s.txn.counting && !o.reboots s.txn) then
            some (s'.txn.waitStartMs, now) :: g.tail
          else g

def waited : List (Option (Nat × Nat)) → Nat
  | [] => 0
  | none :: g => waited g
  | some (start, last) :: g => (last - start) + waited g

theorem waited_none (g : List (Option (Nat × Nat))) : waited (none :: g) = waited g := rfl

theorem waited_some (start last : Nat) (g : List (Option (Nat × Nat))) :
    waited (some (start, last) :: g) = (last - start) + waited g := rfl

/-- How the record of the observer and the transaction agree. -/
inductive Accounted (s : Clocked) (g : List (Option (Nat × Nat))) : Prop where
  | idle (phase : s.txn.phase = .accepted ∨ s.txn.phase = .applying) (boots : s.txn.boots = 0)
      (elapsed : s.txn.elapsedPrevMs = 0) (waits : g = [none])
  | waiting (phase : s.txn.phase = .verifying) (intent : s.txn.intent = none)
      (seen : s.txn.seenMs ≤ s.clock) (boots : s.txn.boots ≤ 1)
      (first : s.txn.boots = 0 → s.txn.elapsedPrevMs = 0)
      (second : s.txn.boots = 1 → s.txn.elapsedPrevMs < s.txn.deadlineMs)
      (rest : List (Option (Nat × Nat)))
      (waits : g = some (s.txn.waitStartMs, s.txn.seenMs) :: rest)
      (elapsed : waited rest = s.txn.elapsedPrevMs)
  | ended (h : Over s.txn)
  | confirmed (phase : s.txn.phase = .confirmed) (reason : s.txn.reason = some .verified)
      (tookMs : s.txn.tookMs = some (waited g))

/-! ### One call -/

section Step

variable {s s' : Clocked} {g : List (Option (Nat × Nat))}

theorem not_counting {t : Txn} (hp : t.phase ≠ .verifying) (hr : t.phase ≠ .rollingBack) :
    t.counting = false := by
  rw [Bool.eq_false_iff]
  intro hc
  exact ((counting_iff t).mp hc).1.elim hp hr

/-- What is fed at a time not before the last. -/
theorem next_op {o : Op} (h : next s (.op o) = some s') :
    s'.txn = s.txn.call o ∧
      ∀ now, o.clock? = some now → s'.clock = now ∧ (o.reboots s.txn = true ∨ s.clock ≤ now) := by
  simp only [next] at h
  split at h
  · rename_i hnone
    cases h
    refine ⟨rfl, fun now hnow => ?_⟩
    rw [hnone] at hnow
    cases hnow
  · rename_i now' hsome
    split at h
    · rename_i hok
      cases h
      refine ⟨rfl, fun now hnow => ?_⟩
      rw [hsome] at hnow
      cases hnow
      exact ⟨rfl, hok⟩
    · cases h

/-- A call that shows no clock and does not reboot leaves the record alone. -/
theorem noteWait_quiet {o : Op} (hr : o.reboots s.txn = false) (hs : o.shows s.txn = none) :
    noteWait s (.op o) s' g = g := by
  simp [noteWait, hr, hs]

/-- A clock shown to a transaction that counts, within a boot. -/
theorem noteWait_seen {o : Op} {now : Nat} {w : Option (Nat × Nat)} (hr : o.reboots s.txn = false)
    (hs : o.shows s.txn = some now) (hc : s'.txn.counting = true ∨ s.txn.counting = true) :
    noteWait s (.op o) s' (w :: g) = some (s'.txn.waitStartMs, now) :: g := by
  have hcond : (s'.txn.counting || s.txn.counting && !false) = true := by
    rcases hc with h | h <;> simp [h]
  simp only [noteWait, hr, hs]
  rw [if_pos hcond]
  rfl

theorem noteWait_resume {bootId : String} {now : Nat} {w : Option (Nat × Nat)}
    (hf : s.txn.phase.isFinal = false) (hc : s'.txn.counting = true) :
    noteWait s (.op (.resume bootId now)) s' (w :: g) = some (s'.txn.waitStartMs, now) ::
      if bootId = s.txn.bootId then g else w :: g := by
  by_cases hb : bootId = s.txn.bootId <;> simp [noteWait, Op.reboots, Op.shows, hf, hc, hb]

/-- Nothing is waited after the end. -/
theorem waited_noteWait {a : Act} (hf : s.txn.phase.isFinal = true) (hs : next s a = some s') :
    s'.txn = s.txn ∧ waited (noteWait s a s' g) = waited g := by
  cases a with
  | beginApply =>
    simp only [next] at hs
    split at hs
    · rename_i hp
      rw [hp] at hf
      cases hf
    · cases hs
  | op o =>
    obtain ⟨htxn, -⟩ := next_op hs
    rw [call_final hf] at htxn
    have hc : s.txn.counting = false :=
      not_counting (by rintro h; rw [h] at hf; cases hf) (by rintro h; rw [h] at hf; cases hf)
    refine ⟨htxn, ?_⟩
    have hkeep : noteWait s (.op o) s' g = if o.reboots s.txn then none :: g else g := by
      cases hs : o.shows s.txn <;> simp [noteWait, htxn, hc, hs]
    rw [hkeep]
    split
    · exact waited_none g
    · rfl

/-- A call that leaves the transaction alone. -/
theorem Accounted.same (h : Accounted s g) (htxn : s'.txn = s.txn) (hclock : s.clock ≤ s'.clock) :
    Accounted s' g := by
  cases h with
  | idle phase boots elapsed waits =>
    exact .idle (htxn ▸ phase) (htxn ▸ boots) (htxn ▸ elapsed) waits
  | waiting phase intent seen boots first second rest waits elapsed =>
    rw [← htxn] at phase intent seen boots first second waits elapsed
    exact .waiting phase intent (Nat.le_trans seen hclock) boots first second rest waits elapsed
  | ended h => exact .ended (htxn ▸ h)
  | confirmed phase reason tookMs =>
    exact .confirmed (htxn ▸ phase) (htxn ▸ reason) (htxn ▸ tookMs)

/-- A transaction that goes on waiting after it has seen the clock, with the waits of the
    boots before as they were. -/
theorem Accounted.of_times {x : Times} {now : Nat} (hp : x.phase = .verifying)
    (hi : x.intent = none) (hb : x.boots ≤ 1) (h₀ : x.boots = 0 → x.elapsedPrevMs = 0)
    (h₁ : x.boots = 1 → x.elapsedPrevMs < x.deadlineMs)
    (htimes : s'.txn.times = { x with seenMs := now }) (hclock : s'.clock = now)
    {rest : List (Option (Nat × Nat))} (helapsed : waited rest = x.elapsedPrevMs) :
    Accounted s' (some (s'.txn.waitStartMs, now) :: rest) := by
  have phase : s'.txn.phase = x.phase := congrArg Times.phase htimes
  have intent : s'.txn.intent = x.intent := congrArg Times.intent htimes
  have seen : s'.txn.seenMs = now := congrArg Times.seenMs htimes
  have boots : s'.txn.boots = x.boots := congrArg Times.boots htimes
  have elapsed : s'.txn.elapsedPrevMs = x.elapsedPrevMs := congrArg Times.elapsedPrevMs htimes
  have deadline : s'.txn.deadlineMs = x.deadlineMs := congrArg Times.deadlineMs htimes
  refine .waiting (phase.trans hp) (intent.trans hi) (by omega) (boots ▸ hb) ?_ ?_ rest ?_ ?_
  · rw [boots, elapsed]
    exact h₀
  · rw [boots, elapsed, deadline]
    exact h₁
  · rw [seen]
  · rw [elapsed, helapsed]

theorem counting_of_waiting {t : Txn} (hp : t.phase = .verifying) (hi : t.intent = none) :
    t.counting = true := (counting_iff t).mpr ⟨.inl hp, hi⟩

/-- A beat of a transaction that waits for its confirmation. -/
theorem Accounted.seen {o : Op} {now : Nat} (hp : s.txn.phase = .verifying)
    (hi : s.txn.intent = none) (hb : s.txn.boots ≤ 1)
    (h₀ : s.txn.boots = 0 → s.txn.elapsedPrevMs = 0)
    (h₁ : s.txn.boots = 1 → s.txn.elapsedPrevMs < s.txn.deadlineMs)
    {w : Option (Nat × Nat)} {rest : List (Option (Nat × Nat))}
    (helapsed : waited rest = s.txn.elapsedPrevMs) (hr : o.reboots s.txn = false)
    (hshows : o.shows s.txn = some now) (hclock : s'.clock = now)
    (h : Seen s.txn now s'.txn) : Accounted s' (noteWait s (.op o) s' (w :: rest)) := by
  have hnote : noteWait s (.op o) s' (w :: rest) = some (s'.txn.waitStartMs, now) :: rest :=
    noteWait_seen hr hshows (.inr (counting_of_waiting hp hi))
  rw [hnote]
  cases h with
  | waits htimes => exact .of_times hp hi hb h₀ h₁ htimes hclock helapsed
  | confirmed hv phase reason waitStartMs tookMs =>
    exact .confirmed phase reason (by rw [tookMs, waited_some, helapsed, waitStartMs, Nat.add_comm])
  | ended h => exact .ended h

/-- A transaction that was resumed while it waits: the wait has expired, or goes on. -/
theorem Accounted.resumed {t : Txn} {reboot : Bool} {bootId : String} {now : Nat}
    {w : Option (Nat × Nat)} {rest : List (Option (Nat × Nat))}
    (hf : s.txn.phase.isFinal = false) (hp : t.phase = .verifying) (hi : t.intent = none)
    (hsettled : s'.txn = (t.settle reboot now).1) (hclock : s'.clock = now)
    (hwaits : ¬(reboot = true ∧ (2 ≤ t.boots ∨ t.deadlineMs ≤ t.elapsedPrevMs)) →
      t.boots ≤ 1 ∧ (t.boots = 0 → t.elapsedPrevMs = 0) ∧
        (t.boots = 1 → t.elapsedPrevMs < t.deadlineMs))
    (helapsed : waited (if bootId = s.txn.bootId then rest else w :: rest) = t.elapsedPrevMs) :
    Accounted s' (noteWait s (.op (.resume bootId now)) s' (w :: rest)) := by
  by_cases hend : reboot = true ∧ (2 ≤ t.boots ∨ t.deadlineMs ≤ t.elapsedPrevMs)
  · refine .ended ?_
    rw [hsettled, hend.1]
    exact (settle_expires hp hend.2 now).1
  · obtain ⟨hb, h₀, h₁⟩ := hwaits hend
    have htimes : s'.txn.times = { t.times with seenMs := now } := by
      rw [hsettled]
      exact settle_waits (fun h => hend ⟨h.1, h.2.2⟩) now
    have hcount : s'.txn.counting = true :=
      counting_of_times htimes (counting_of_waiting hp hi)
    rw [noteWait_resume hf hcount]
    exact .of_times (x := t.times) hp hi hb h₀ h₁ htimes hclock helapsed

/-- The transaction has not been written yet, or is being written. -/
theorem Accounted.idle_op (hp : s.txn.phase = .accepted ∨ s.txn.phase = .applying)
    (hb : s.txn.boots = 0) (he : s.txn.elapsedPrevMs = 0) {o : Op}
    (htxn : s'.txn = s.txn.call o)
    (hclock : ∀ now, o.clock? = some now →
      s'.clock = now ∧ (o.reboots s.txn = true ∨ s.clock ≤ now)) :
    Accounted s' (noteWait s (.op o) s' [none]) := by
  have hc : s.txn.counting = false :=
    not_counting (by rcases hp with hp | hp <;> simp [hp]) (by rcases hp with hp | hp <;> simp [hp])
  have hf : s.txn.phase.isFinal = false := by rcases hp with hp | hp <;> simp [hp, Phase.isFinal]
  have hidle : ∀ {s'' : Clocked}, s''.txn = s.txn → Accounted s'' [none] := fun h =>
    .idle (h ▸ hp) (h ▸ hb) (h ▸ he) rfl
  cases o with
  | applied out now =>
    rcases hp with hp | hp
    · rw [noteWait_quiet rfl (by simp [Op.shows, hp])]
      exact hidle (by rw [htxn]; simp [call, applied, hp])
    · have htimes := applied_times hp out now
      rw [← call, ← htxn] at htimes
      have hcount : s'.txn.counting = true :=
        counting_of_waiting (congrArg Times.phase htimes) (congrArg Times.intent htimes)
      have hshows : Op.shows s.txn (.applied out now) = some now := by simp [Op.shows, hp]
      rw [noteWait_seen rfl hshows (Or.inl hcount)]
      refine .of_times (x := { s.txn.times with
        phase := .verifying, intent := none, waitStartMs := now }) rfl rfl ?_ (fun _ => he) ?_
        htimes (hclock now rfl).1 he.symm
      · show s.txn.boots ≤ 1
        omega
      · show s.txn.boots = 1 → _
        omega
  | onReading r now =>
    rw [noteWait_quiet rfl (by simp [Op.shows, hc])]
    exact hidle (by rw [htxn]; exact onReading_idle hc r now)
  | onTick now =>
    rw [noteWait_quiet rfl (by simp [Op.shows, hc])]
    exact hidle (by rw [htxn]; exact onTick_idle hc now)
  | rollbackSent now =>
    have hr : s.txn.phase ≠ .rollingBack := by rcases hp with hp | hp <;> simp [hp]
    rw [noteWait_quiet rfl (by simp [Op.shows, hr])]
    exact hidle (by rw [htxn]; simp [call, rollbackSent, hr])
  | revert =>
    rw [noteWait_quiet rfl rfl]
    exact hidle (by rw [htxn]; rcases hp with hp | hp <;> simp [call, revert, hp, Phase.isFinal])
  | keep =>
    rw [noteWait_quiet rfl rfl]
    exact hidle (by rw [htxn]; rcases hp with hp | hp <;> simp [call, keep, hp, Phase.isFinal])
  | cancel why =>
    refine .ended ?_
    rw [htxn, call, cancel, if_neg (by simp [hf])]
    exact .finish _ rfl (by simp)
  | resume bootId now =>
    rcases hp with hp | hp
    · refine .ended ?_
      rw [htxn, call, resume, if_neg (by simp [hf])]
      dsimp only
      split
      · rw [if_pos (by rw [rebooted_phase, hp])]
        exact .finish _ rfl (by simp)
      · exact .finish _ rfl (by simp)
    · obtain ⟨t₁, hresume, htimes⟩ := resume_applying hp bootId now
      have hres : s'.txn = (t₁.settle (decide (bootId ≠ s.txn.bootId)) now).1 := by
        rw [htxn, call, hresume]
      have hphase : t₁.phase = .verifying := congrArg Times.phase htimes
      have hint : t₁.intent = none := congrArg Times.intent htimes
      have helapsed : t₁.elapsedPrevMs = 0 := (congrArg Times.elapsedPrevMs htimes).trans he
      have hboots : t₁.boots = if bootId = s.txn.bootId then 0 else 1 := by
        have := congrArg Times.boots htimes
        simpa [times, hb] using this
      refine .resumed hf hphase hint hres (hclock now rfl).1 (fun hend => ?_) ?_
      · refine ⟨?_, fun _ => helapsed, ?_⟩
        · split at hboots <;> omega
        · intro h
          have hreboot : bootId ≠ s.txn.bootId := by
            rintro heq
            rw [if_pos heq] at hboots
            exact absurd (hboots.symm.trans h) (by decide)
          exact Nat.lt_of_not_le fun hle => hend ⟨by simpa using hreboot, .inr hle⟩
      · rw [helapsed]
        split <;> simp [waited]

/-- The transaction waits for its confirmation. -/
theorem Accounted.waiting_op (hp : s.txn.phase = .verifying) (hi : s.txn.intent = none)
    (hseen : s.txn.seenMs ≤ s.clock) (hb : s.txn.boots ≤ 1)
    (h₀ : s.txn.boots = 0 → s.txn.elapsedPrevMs = 0)
    (h₁ : s.txn.boots = 1 → s.txn.elapsedPrevMs < s.txn.deadlineMs)
    {rest : List (Option (Nat × Nat))} (helapsed : waited rest = s.txn.elapsedPrevMs) {o : Op}
    (htxn : s'.txn = s.txn.call o)
    (hclock : ∀ now, o.clock? = some now →
      s'.clock = now ∧ (o.reboots s.txn = true ∨ s.clock ≤ now)) :
    Accounted s' (noteWait s (.op o) s'
      (some (s.txn.waitStartMs, s.txn.seenMs) :: rest)) := by
  have hc := counting_of_waiting hp hi
  have hf : s.txn.phase.isFinal = false := by simp [hp, Phase.isFinal]
  have hacc : Accounted s (some (s.txn.waitStartMs, s.txn.seenMs) :: rest) :=
    .waiting hp hi hseen hb h₀ h₁ rest rfl helapsed
  -- a call that returns at once
  have hsame : ∀ now, o.clock? = some now → o.reboots s.txn = false → o.shows s.txn = none →
      s'.txn = s.txn → Accounted s' (noteWait s (.op o) s'
        (some (s.txn.waitStartMs, s.txn.seenMs) :: rest)) := by
    intro now hnow hr hs h
    rw [noteWait_quiet hr hs]
    obtain ⟨hnow', hle⟩ := hclock now hnow
    rw [hr] at hle
    exact hacc.same h (by rw [hnow']; exact hle.resolve_left (by simp))
  cases o with
  | applied out now =>
    exact hsame now rfl rfl (by simp [Op.shows, hp]) (by rw [htxn]; simp [call, applied, hp])
  | onReading r now =>
    refine .seen hp hi hb h₀ h₁ helapsed rfl (by simp [Op.shows, hc]) (hclock now rfl).1 ?_
    rw [htxn]
    exact onReading_seen hc r now
  | onTick now =>
    refine .seen hp hi hb h₀ h₁ helapsed rfl (by simp [Op.shows, hc]) (hclock now rfl).1 ?_
    have hle := (hclock now rfl).2.resolve_left (by simp [Op.reboots])
    rw [htxn]
    exact onTick_seen hc (Nat.le_trans hseen hle)
  | rollbackSent now =>
    exact hsame now rfl rfl (by simp [Op.shows, hp]) (by rw [htxn]; simp [call, rollbackSent, hp])
  | revert =>
    refine .ended ?_
    rw [htxn]
    simp only [call, revert, hp, hi]
    exact .startRollback _ _
  | keep =>
    refine .ended ?_
    rw [htxn]
    simp only [call, keep, hp, hi]
    exact .finish _ rfl (by simp)
  | cancel why =>
    refine .ended ?_
    rw [htxn, call, cancel, if_neg (by simp [hf])]
    exact .finish _ rfl (by simp)
  | resume bootId now =>
    by_cases hboot : bootId = s.txn.bootId
    · have htimes := resume_same_boot hc now
      rw [← hboot, ← call, ← htxn] at htimes
      have hcount : s'.txn.counting = true := counting_of_times htimes hc
      rw [noteWait_resume hf hcount, if_pos hboot]
      exact .of_times (x := s.txn.times) hp hi hb h₀ h₁ htimes (hclock now rfl).1 helapsed
    · obtain ⟨t₁, hresume, htimes⟩ := resume_reboot hp hi hboot now
      have hres : s'.txn = (t₁.settle true now).1 := by rw [htxn, call, hresume]
      have hphase : t₁.phase = .verifying := (congrArg Times.phase htimes).trans hp
      have hint : t₁.intent = none := (congrArg Times.intent htimes).trans hi
      have hboots : t₁.boots = s.txn.boots + 1 := congrArg Times.boots htimes
      have helapsed₁ : t₁.elapsedPrevMs =
          s.txn.elapsedPrevMs + (s.txn.seenMs - s.txn.waitStartMs) :=
        congrArg Times.elapsedPrevMs htimes
      refine .resumed hf hphase hint hres (hclock now rfl).1 (fun hend => ?_) ?_
      · have hend : ¬(2 ≤ t₁.boots ∨ t₁.deadlineMs ≤ t₁.elapsedPrevMs) := fun h => hend ⟨rfl, h⟩
        refine ⟨by omega, ?_, by omega⟩
        intro h
        exact absurd (hboots.symm.trans h) (by omega)
      · rw [if_neg hboot, waited_some, helapsed, Nat.add_comm]
        exact helapsed₁.symm

/-- **One call** keeps the account. -/
theorem Accounted.step (h : Accounted s g) {a : Act} (hs : next s a = some s') :
    Accounted s' (noteWait s a s' g) := by
  cases a with
  | beginApply =>
    simp only [next] at hs
    split at hs
    · rename_i hp
      cases hs
      cases h with
      | idle _ boots elapsed waits => exact .idle (.inr rfl) boots elapsed waits
      | waiting phase => simp [hp] at phase
      | ended h => exact absurd hp h.accepted
      | confirmed phase => simp [hp] at phase
    · cases hs
  | op o =>
    obtain ⟨htxn, hclock⟩ := next_op hs
    cases h with
    | idle phase boots elapsed waits =>
      rw [waits]
      exact .idle_op phase boots elapsed htxn hclock
    | waiting phase intent seen boots first second rest waits elapsed =>
      rw [waits]
      exact .waiting_op phase intent seen boots first second elapsed htxn hclock
    | ended h => exact .ended (htxn ▸ h.call o)
    | confirmed phase reason tookMs =>
      obtain ⟨hsame, hwaited⟩ := waited_noteWait (g := g) (by simp [phase, Phase.isFinal]) hs
      rw [← hsame] at phase reason tookMs
      exact .confirmed phase reason (by rw [hwaited]; exact tookMs)

end Step

/-! ### The account of a run -/

def start (n : NewTxn) (now : Nat) : Clocked := ⟨new n now, now⟩

/-- **Deadline accounting.**  In every run of calls with clocks that go on within a boot:
    a restart of the daemon alone leaves the start of the wait, and with it what remains;
    a transaction that waits for its confirmation has seen one reboot at most, and has
    waited before it for less than the deadline; at a reboot that would break this it is
    rolled back, or unverified; a tick ends the wait if and only if nothing remains; and
    what a confirmed transaction took is what it was seen counting over its boots. -/
theorem deadline_accounting {n : NewTxn} {now : Nat} {s : Clocked}
    {g : List (Option (Nat × Nat))}
    (h : Exec (watched next noteWait) (fun _ _ => True) (start n now, [none]) (s, g)) :
    (s.txn.counting = true → ∀ clock,
      (s.txn.resume s.txn.bootId clock).1.waitStartMs = s.txn.waitStartMs ∧
        ∀ later, (s.txn.resume s.txn.bootId clock).1.remainingMs later =
          s.txn.remainingMs later) ∧
    (s.txn.phase = .verifying → s.txn.intent = none →
      s.txn.boots ≤ 1 ∧ (s.txn.boots = 0 → s.txn.elapsedPrevMs = 0) ∧
        (s.txn.boots = 1 → s.txn.elapsedPrevMs < s.txn.deadlineMs)) ∧
    (s.txn.phase = .verifying → ∀ bootId clock, bootId ≠ s.txn.bootId →
      s.txn.boots = 1 ∨
        s.txn.deadlineMs ≤ s.txn.elapsedPrevMs + (s.txn.seenMs - s.txn.waitStartMs) →
      (s.txn.resume bootId clock).1.phase =
        if s.txn.rollbackEnabled then .rollingBack else .unverified) ∧
    (s.txn.counting = true → ∀ clock,
      (s.txn.onTick clock).1.phase ≠ s.txn.phase ↔ s.txn.remainingMs clock = some 0) ∧
    (s.txn.phase = .confirmed → s.txn.reason = some .verified →
      s.txn.tookMs = some (waited g)) := by
  have hacc : Accounted s g := by
    have hinv := h.invariant (fun p : Clocked × List (Option (Nat × Nat)) => Accounted p.1 p.2)
      (fun {p p' a} hp _ hs => by
        obtain ⟨hnext, hnote⟩ := watched_eq_some.mp hs
        rw [hnote]
        exact hp.step hnext)
      (.idle (.inl rfl) rfl rfl rfl)
    exact hinv
  refine ⟨fun hc clock => ?_, ?_, ?_, fun hc clock => ?_, ?_⟩
  · have htimes := resume_same_boot hc clock
    have hstart := congrArg Times.waitStartMs htimes
    have hphase := congrArg Times.phase htimes
    have hdeadline := congrArg Times.deadlineMs htimes
    simp only [times] at hstart hphase hdeadline
    have hw : (s.txn.resume s.txn.bootId clock).1.waiting = s.txn.waiting := by
      simp only [waiting, hphase]
    refine ⟨hstart, fun later => ?_⟩
    simp only [remainingMs, hw, hstart, hdeadline]
  · intro hp hi
    cases hacc with
    | idle phase => simp [hp] at phase
    | waiting _ _ _ boots first second => exact ⟨boots, first, second⟩
    | ended h => exact absurd hp h.verifying
    | confirmed phase => simp [hp] at phase
  · intro hp bootId clock hb hcond
    have hi : s.txn.intent = none := by
      cases hacc with
      | idle phase => simp [hp] at phase
      | waiting _ intent => exact intent
      | ended h => exact absurd hp h.verifying
      | confirmed phase => simp [hp] at phase
    obtain ⟨t₁, hresume, htimes⟩ := resume_reboot hp hi hb clock
    have hphase : t₁.phase = .verifying := (congrArg Times.phase htimes).trans hp
    have hboots : t₁.boots = s.txn.boots + 1 := congrArg Times.boots htimes
    have helapsed : t₁.elapsedPrevMs =
        s.txn.elapsedPrevMs + (s.txn.seenMs - s.txn.waitStartMs) :=
      congrArg Times.elapsedPrevMs htimes
    have hdeadline : t₁.deadlineMs = s.txn.deadlineMs := congrArg Times.deadlineMs htimes
    have hrollback : t₁.rollbackEnabled = s.txn.rollbackEnabled :=
      congrArg Times.rollbackEnabled htimes
    rw [hresume, ← hrollback]
    exact (settle_expires hphase (by omega) clock).2
  · have hw : s.txn.waiting = true := by
      simp only [counting, Bool.and_eq_true] at hc
      exact hc.1
    simp only [remainingMs, hw, if_true, Option.some.injEq]
    by_cases hd : clock - s.txn.waitStartMs < s.txn.deadlineMs
    · rw [onTick_before hc hd]
      simp only [ne_eq, not_true_eq_false, false_iff]
      omega
    · have hafter := onTick_after hc (Nat.le_of_not_lt hd)
      exact iff_of_true hafter.2 (by omega)
  · intro hp hr
    cases hacc with
    | idle phase => simp [hp] at phase
    | waiting phase => simp [hp] at phase
    | ended h => exact absurd hr (h.verified hp)
    | confirmed _ _ tookMs => exact tookMs

/-- Thirty seconds of waiting, a reboot, and the confirmation right after it. -/
def rebootRun : List Act :=
  [.beginApply, .op (.applied .done 10), .op (.onTick 30000), .op (.resume "b2" 5),
    .op (.onReading sampleConfirming 100)]

theorem deadline_accounting_reboot : ∃ s g,
    Exec (watched next noteWait) (fun _ _ => True) (start sampleNew 0, [none]) (s, g) ∧
      s.txn.tookMs = some (waited g) ∧ g = [some (5, 100), some (10, 30000)] := by
  have hrun : (Transition.run (watched next noteWait) (fun _ _ => true) (start sampleNew 0, [none])
      rebootRun).any (fun p => p.1.txn.phase = .confirmed ∧ p.1.txn.reason = some .verified ∧
        p.2 = [some (5, 100), some (10, 30000)]) = true := by
    decide +kernel
  obtain ⟨⟨s, g⟩, h, hp⟩ := Exec.exists_of_run (fun _ _ _ => trivial) (.refl _) hrun
  obtain ⟨hphase, hreason, hg⟩ := of_decide_eq_true hp
  exact ⟨s, g, h, (deadline_accounting h).2.2.2.2 hphase hreason, hg⟩

end Txn

end Datad
