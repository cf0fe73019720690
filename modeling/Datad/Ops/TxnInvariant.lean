/-
  Datad/Ops/TxnInvariant.lean
  ===========================
  **The transaction invariant.**  `txn.rs` promises in its module comment which
  reason goes with which final phase; its methods promise which intent goes with
  which phase.  Here each method is shown to make moves of the control machine
  (`Txn.Op.moves`), from which the invariant follows for every run.
-/
import Datad.Ops.TxnControl

namespace Datad

namespace Txn

/-- The control state of a transaction. -/
def ctl (t : Txn) : Ctl :=
  ⟨t.phase, t.intent, t.reason, t.rollbackReason, t.generation⟩

/-! ### What the methods keep

`ident` collects the fields no method changes; `ctl` is changed by the methods
below and by nothing else. -/

structure Ident where
  uid : Nat
  opId : String
  action : String
  item : String
  source : Source
  undo : Bool
  target : String
  old : String
  rollbackTo : String
  sim : SimId
  confirm : Confirm
  rollbackEnabled : Bool
  deadlineMs : Nat
  createdMs : Nat
deriving DecidableEq, Repr

def ident (t : Txn) : Ident :=
  ⟨t.uid, t.opId, t.action, t.item, t.source, t.undo, t.target, t.old, t.rollbackTo,
    t.sim, t.confirm, t.rollbackEnabled, t.deadlineMs, t.createdMs⟩

/-- Waiting without an intent is what `counting` says. -/
theorem counting_iff (t : Txn) :
    t.counting = true ↔
      (t.phase = .verifying ∨ t.phase = .rollingBack) ∧ t.intent = none := by
  unfold counting waiting
  cases t.phase <;> simp

theorem not_counting_of_guard {t : Txn} (h : ¬ (!t.waiting || t.intent.isSome) = true) :
    (t.phase = .verifying ∨ t.phase = .rollingBack) ∧ t.intent = none := by
  rw [← counting_iff]
  unfold counting
  cases hw : t.waiting <;> cases hi : t.intent <;> simp_all

theorem isFinal_of_waiting {t : Txn}
    (h : t.phase = .verifying ∨ t.phase = .rollingBack) : t.phase.isFinal = false := by
  rcases h with h | h <;> rw [h] <;> rfl

theorem noteProbe_frame (t : Txn) (r : Reading) (now : Nat) :
    (t.noteProbe r now).ctl = t.ctl ∧ (t.noteProbe r now).ident = t.ident ∧
      (t.noteProbe r now).everMatched = t.everMatched ∧
      (t.noteProbe r now).readOk = t.readOk := by
  unfold noteProbe
  rcases r.probe with _ | ok <;> rcases r.data with _ | d <;> exact ⟨rfl, rfl, rfl, rfl⟩

theorem noteConn_frame (t : Txn) (r : Reading) :
    (t.noteConn r).ctl = t.ctl ∧ (t.noteConn r).ident = t.ident ∧
      (t.noteConn r).everMatched = t.everMatched ∧ (t.noteConn r).readOk = t.readOk := by
  unfold noteConn
  rcases r.data with _ | d <;> exact ⟨rfl, rfl, rfl, rfl⟩

/-! ### The methods as moves -/

theorem expire_moves (t : Txn) (why : Reason) (hw : why.startsRollback = true)
    (hp : t.phase = .verifying) (hi : t.intent = none) :
    Ctl.Moves t.ctl (t.expire why).1.ctl ∧ (t.expire why).1.ident = t.ident := by
  unfold expire
  split
  · exact ⟨.single (.roll t.ctl hp hi hw), rfl⟩
  · refine ⟨.single (.close t.ctl ?_ (p := .unverified) (r := .noRollback) rfl (by decide)), rfl⟩
    exact isFinal_of_waiting (.inl hp)

theorem onTick_moves (t : Txn) (now : Nat) :
    Ctl.Moves t.ctl (t.onTick now).1.ctl ∧ (t.onTick now).1.ident = t.ident := by
  unfold onTick
  split
  · exact ⟨.refl, rfl⟩
  · split
    · exact ⟨.refl, rfl⟩
    · rename_i hg
      obtain ⟨hw, hi⟩ := not_counting_of_guard hg
      dsimp only
      split
      · exact ⟨.refl, rfl⟩
      · split
        · refine ⟨.single (.close t.ctl (isFinal_of_waiting hw)
            (p := .rollbackFailed) (r := .rollbackTimeout) rfl (by decide)), rfl⟩
        · rename_i hr
          have hv : t.phase = .verifying := hw.resolve_right hr
          split
          · refine ⟨.single (.close t.ctl (isFinal_of_waiting hw)
              (p := .notApplied) (r := .ignored) rfl (by decide)), rfl⟩
          · exact expire_moves { t with seenMs := max t.seenMs now } .timeout rfl hv hi

theorem judgeVerifying_moves (t : Txn) (r : Reading) (v : String) (now : Nat)
    (hp : t.phase = .verifying) :
    Ctl.Moves t.ctl (t.judgeVerifying r v now).1.ctl ∧
      (t.judgeVerifying r v now).1.ident = t.ident := by
  have hf : t.ctl.phase.isFinal = false := isFinal_of_waiting (.inl hp)
  unfold judgeVerifying
  split
  · dsimp only
    split
    · rcases hj : (dataJudge { t with everMatched := true } r).2 with _ | _ | _
      · exact ⟨.single (.close t.ctl hf (p := .confirmed) (r := .verified) rfl (by decide)), rfl⟩
      · exact ⟨.single (.close t.ctl hf (p := .unverified) (r := .apnNoData) rfl (by decide)), rfl⟩
      · exact ⟨.refl, rfl⟩
    · exact ⟨.refl, rfl⟩
  · split
    · split
      · exact ⟨.single (.close t.ctl hf (p := .cancelled) (r := .manualChange) rfl (by decide)),
          rfl⟩
      · split
        · exact ⟨.single (.close t.ctl hf (p := .notApplied) (r := .ignored) rfl (by decide)), rfl⟩
        · exact ⟨.refl, rfl⟩
    · split
      · exact ⟨.single (.close t.ctl hf (p := .cancelled) (r := .manualChange) rfl (by decide)),
          rfl⟩
      · exact ⟨.refl, rfl⟩

theorem judgeRollback_moves (t : Txn) (r : Reading) (v : String)
    (hp : t.phase = .rollingBack) (hi : t.intent = none) :
    Ctl.Moves t.ctl (t.judgeRollback r v).1.ctl ∧
      (t.judgeRollback r v).1.ident = t.ident := by
  unfold judgeRollback
  split
  · split
    · dsimp only
      split
      · exact ⟨.single (.rolledBack t.ctl hp hi), rfl⟩
      · exact ⟨.refl, rfl⟩
    · exact ⟨.refl, rfl⟩
  · split
    · exact ⟨.single (.close t.ctl (isFinal_of_waiting (.inr hp))
        (p := .cancelled) (r := .manualChange) rfl (by decide)), rfl⟩
    · exact ⟨.refl, rfl⟩

theorem judgeValue_moves (t : Txn) (r : Reading) (v : String) (now : Nat)
    (hw : t.phase = .verifying ∨ t.phase = .rollingBack) (hi : t.intent = none) :
    Ctl.Moves t.ctl (t.judgeValue r v now).1.ctl ∧
      (t.judgeValue r v now).1.ident = t.ident := by
  unfold judgeValue
  split
  · rename_i hv
    exact judgeVerifying_moves t r v now hv
  · rename_i hv
    exact judgeRollback_moves t r v (hw.resolve_left hv) hi

theorem conclude_moves (t : Txn) (verdict : Option Next) (now : Nat) :
    Ctl.Moves t.ctl (t.conclude verdict now).1.ctl ∧
      (t.conclude verdict now).1.ident = t.ident := by
  cases verdict with
  | some n => exact ⟨.refl, rfl⟩
  | none => exact onTick_moves t now

theorem judge_moves (t : Txn) (r : Reading) (now : Nat)
    (hw : t.phase = .verifying ∨ t.phase = .rollingBack) (hi : t.intent = none) :
    Ctl.Moves t.ctl (t.judge r now).1.ctl ∧ (t.judge r now).1.ident = t.ident := by
  obtain ⟨hctl, hid, -, -⟩ := noteProbe_frame { t with registered := r.registered } r now
  unfold judge
  dsimp only
  generalize noteProbe { t with registered := r.registered } r now = t₁ at hctl hid ⊢
  have hctl : t₁.ctl = t.ctl := hctl
  have hid : t₁.ident = t.ident := hid
  have hp₁ : t₁.phase = t.phase := congrArg Ctl.phase hctl
  have hi₁ : t₁.intent = none := (congrArg Ctl.intent hctl).trans hi
  rw [← hp₁] at hw
  rw [← hctl, ← hid]
  rcases r.value with _ | v
  · exact onTick_moves t₁ now
  · obtain ⟨hm, hid₂⟩ := judgeValue_moves (t₁.noteValue v) r v now hw hi₁
    obtain ⟨hm', hid₃⟩ := conclude_moves ((t₁.noteValue v).judgeValue r v now).1
      ((t₁.noteValue v).judgeValue r v now).2 now
    exact ⟨hm.trans hm', hid₃.trans hid₂⟩

theorem onReading_moves (t : Txn) (r : Reading) (now : Nat) :
    Ctl.Moves t.ctl (t.onReading r now).1.ctl ∧ (t.onReading r now).1.ident = t.ident := by
  unfold onReading
  split
  · exact ⟨.refl, rfl⟩
  · split
    · exact ⟨.refl, rfl⟩
    · rename_i hg
      obtain ⟨hw, hi⟩ := not_counting_of_guard hg
      obtain ⟨hctl, hid, -, -⟩ := noteConn_frame { t with seenMs := now } r
      dsimp only
      generalize noteConn { t with seenMs := now } r = t₁ at hctl hid ⊢
      have hctl : t₁.ctl = t.ctl := hctl
      have hid : t₁.ident = t.ident := hid
      have hp₁ : t₁.phase = t.phase := congrArg Ctl.phase hctl
      have hi₁ : t₁.intent = none := (congrArg Ctl.intent hctl).trans hi
      rw [← hctl, ← hid]
      rw [← hp₁] at hw
      cases simCheck t₁.sim r.sim with
      | same => exact judge_moves t₁ r now hw hi₁
      | unknown => exact onTick_moves t₁ now
      | changed =>
        exact ⟨.single (.close t₁.ctl (isFinal_of_waiting hw)
          (p := .cancelled) (r := .simChanged) rfl (by decide)), rfl⟩

theorem applied_moves (t : Txn) (o : Applied) (now : Nat) :
    Ctl.Moves t.ctl (t.applied o now).ctl ∧ (t.applied o now).ident = t.ident := by
  unfold applied
  split
  · exact ⟨.refl, rfl⟩
  · rename_i h
    exact ⟨.single (.written t.ctl (not_not.mp h)), rfl⟩

theorem rollbackSent_moves (t : Txn) (now : Nat) :
    Ctl.Moves t.ctl (t.rollbackSent now).ctl ∧ (t.rollbackSent now).ident = t.ident := by
  unfold rollbackSent
  split
  · exact ⟨.refl, rfl⟩
  · rename_i h
    exact ⟨.single (.sent t.ctl (not_not.mp h)), rfl⟩

/-- A revert is accepted only while the transaction waits for its confirmation. -/
theorem revert_eq {t t' : Txn} {n : Next} (h : t.revert = .ok (t', n)) :
    t.phase = .verifying ∧ t.intent = none ∧ t' = (t.startRollback .userRevert).1 := by
  unfold revert at h
  split at h
  · rename_i hg
    cases h
    exact ⟨hg.1, hg.2, rfl⟩
  · split at h
    · cases h
    · split at h <;> cases h

theorem keep_eq {t t' : Txn} (h : t.keep = .ok t') :
    t.phase = .verifying ∧ t.intent = none ∧ t' = (t.finish .confirmed .userKeep).1 := by
  unfold keep at h
  split at h
  · rename_i hg
    cases h
    exact ⟨hg.1, hg.2, rfl⟩
  · split at h
    · cases h
    · split at h <;> cases h

theorem revert_moves {t t' : Txn} {n : Next} (h : t.revert = .ok (t', n)) :
    Ctl.Moves t.ctl t'.ctl ∧ t'.ident = t.ident := by
  obtain ⟨hp, hi, rfl⟩ := revert_eq h
  exact ⟨.single (.roll t.ctl hp hi rfl), rfl⟩

theorem keep_moves {t t' : Txn} (h : t.keep = .ok t') :
    Ctl.Moves t.ctl t'.ctl ∧ t'.ident = t.ident := by
  obtain ⟨hp, -, rfl⟩ := keep_eq h
  exact ⟨.single (.close t.ctl (isFinal_of_waiting (.inl hp))
    (p := .confirmed) (r := .userKeep) rfl (by decide)), rfl⟩

theorem cancel_moves (t : Txn) {why : Reason} (hw : why.cancels = true) :
    Ctl.Moves t.ctl (t.cancel why).ctl ∧ (t.cancel why).ident = t.ident := by
  unfold cancel
  split
  · exact ⟨.refl, rfl⟩
  · rename_i h
    exact ⟨.single (.close t.ctl (Bool.eq_false_iff.mpr h)
      (Reason.cancels_allowed hw) (show Phase.cancelled ≠ Phase.rolledBack by decide)), rfl⟩

theorem rebooted_frame (t : Txn) (bootId : String) :
    (t.rebooted bootId).ctl = t.ctl ∧ (t.rebooted bootId).ident = t.ident ∧
      (t.rebooted bootId).everMatched = t.everMatched := by
  unfold rebooted
  dsimp only
  split <;> exact ⟨rfl, rfl, rfl⟩

/-- `settle` bumps the generation; in `verifying` it may go on to expire. -/
theorem settle_moves (t : Txn) (reboot : Bool) (now : Nat) (hi : t.intent = none) :
    Ctl.Moves { t.ctl with generation := t.generation + 1 } (t.settle reboot now).1.ctl ∧
      (t.settle reboot now).1.ident = t.ident := by
  unfold settle
  dsimp only
  split
  · rename_i hg
    have hv : t.phase = .verifying := by simp at hg; exact hg.1.2
    exact expire_moves { t with seenMs := now, generation := t.generation + 1 }
      .rebootLoop rfl hv hi
  · exact ⟨.refl, rfl⟩

theorem pickUp_moves (t : Txn) (reboot : Bool) (now : Nat) (hinv : t.ctl.Inv)
    (hf : t.phase.isFinal = false) (ha : t.phase ≠ .accepted) :
    Ctl.Step t.ctl { (t.pickUp reboot now).ctl with generation := t.generation + 1 } ∧
      (t.pickUp reboot now).intent = none ∧ (t.pickUp reboot now).ident = t.ident ∧
      (t.pickUp reboot now).generation = t.generation := by
  unfold pickUp
  split
  · rename_i hp
    exact ⟨.written t.ctl hp, rfl, rfl, rfl⟩
  · rename_i hp hi
    have hap : t.phase = .applying := hinv.applying.mp hi
    rw [hp] at hap
    cases hap
  · rename_i hp hi
    exact ⟨.sent t.ctl hp, rfl, rfl, rfl⟩
  · rename_i hap hva hri
    -- what is left of the phases is waiting, and has no intent
    have hi : t.intent = none := by
      cases hi : t.intent with
      | none => rfl
      | some i =>
        cases i with
        | apply => exact absurd (hinv.applying.mp hi) hap
        | rollback => exact absurd hi (hri _ (hinv.rolling hi))
    have hw : t.phase = .verifying ∨ t.phase = .rollingBack := by
      cases hp : t.phase <;> simp_all [Phase.isFinal]
    exact ⟨.resumed t.ctl hw hi, hi, rfl, rfl⟩

/-- A restart moves every transaction that is not over. -/
theorem resume_progress {t : Txn} (bootId : String) (now : Nat) (hinv : t.ctl.Inv)
    (hf : t.phase.isFinal = false) :
    (∃ c, Ctl.Step t.ctl c ∧ Ctl.Moves c (t.resume bootId now).1.ctl) ∧
      (t.resume bootId now).1.ident = t.ident := by
  have hframe : ∀ t₁, (if decide (bootId ≠ t.bootId) = true then t.rebooted bootId else t)
      = t₁ → t₁.ctl = t.ctl ∧ t₁.ident = t.ident := by
    intro t₁ h
    rw [← h]
    split
    · exact ⟨(rebooted_frame t bootId).1, (rebooted_frame t bootId).2.1⟩
    · exact ⟨rfl, rfl⟩
  unfold resume
  rw [if_neg (Bool.eq_false_iff.mp hf)]
  dsimp only
  generalize ht₁ : (if decide (bootId ≠ t.bootId) = true then t.rebooted bootId else t) = t₁
  obtain ⟨hctl, hid⟩ := hframe t₁ ht₁
  generalize decide (bootId ≠ t.bootId) = reboot
  rw [← hctl] at hinv ⊢
  rw [← hid]
  have hf₁ : t₁.phase.isFinal = false :=
    (congrArg (fun c => c.phase.isFinal) hctl).trans hf
  split
  · exact ⟨⟨_, .close t₁.ctl hf₁ (p := .notApplied) (r := .ignored) rfl (by decide), .refl⟩, rfl⟩
  · rename_i ha
    obtain ⟨hs, hi, hid₁, hg⟩ := pickUp_moves t₁ reboot now hinv hf₁ ha
    obtain ⟨hm, hid₂⟩ := settle_moves (t₁.pickUp reboot now) reboot now hi
    rw [hg] at hm
    exact ⟨⟨_, hs, hm⟩, hid₂.trans hid₁⟩

theorem resume_moves (t : Txn) (bootId : String) (now : Nat) (hinv : t.ctl.Inv) :
    Ctl.Moves t.ctl (t.resume bootId now).1.ctl ∧
      (t.resume bootId now).1.ident = t.ident := by
  rcases hf : t.phase.isFinal with _ | _
  · obtain ⟨⟨c, hs, hm⟩, hid⟩ := resume_progress bootId now hinv hf
    exact ⟨.head hs hm, hid⟩
  · unfold resume
    rw [if_pos hf]
    exact ⟨.refl, rfl⟩

/-! ### Runs of a transaction -/

/-- One call of a method of a started transaction, with what it is given. -/
inductive Op where
  | applied (outcome : Applied) (now : Nat)
  | onReading (r : Reading) (now : Nat)
  | onTick (now : Nat)
  | rollbackSent (now : Nat)
  | revert
  | keep
  | cancel (why : Reason)
  | resume (bootId : String) (now : Nat)
deriving Repr

/-- `cancel` is only called with the reasons its callers have. -/
def Op.admitted : Op → Bool
  | .cancel why => why.cancels
  | _ => true

def call (t : Txn) : Op → Txn
  | .applied o now => t.applied o now
  | .onReading r now => (t.onReading r now).1
  | .onTick now => (t.onTick now).1
  | .rollbackSent now => t.rollbackSent now
  | .revert =>
      match t.revert with
      | .ok (t', _) => t'
      | .error _ => t
  | .keep =>
      match t.keep with
      | .ok t' => t'
      | .error _ => t
  | .cancel why => t.cancel why
  | .resume bootId now => (t.resume bootId now).1

def run (t : Txn) (ops : List Op) : Txn := ops.foldl call t

/-- **Every method is a sequence of moves of the control machine** and keeps the
    identity of the transaction. -/
theorem call_moves {t : Txn} (hinv : t.ctl.Inv) {op : Op} (ha : op.admitted = true) :
    Ctl.Moves t.ctl (t.call op).ctl ∧ (t.call op).ident = t.ident := by
  cases op with
  | applied o now => exact applied_moves t o now
  | onReading r now => exact onReading_moves t r now
  | onTick now => exact onTick_moves t now
  | rollbackSent now => exact rollbackSent_moves t now
  | revert =>
    unfold call
    cases h : t.revert with
    | error e => exact ⟨.refl, rfl⟩
    | ok p => exact revert_moves h
  | keep =>
    unfold call
    cases h : t.keep with
    | error e => exact ⟨.refl, rfl⟩
    | ok t' => exact keep_moves h
  | cancel why => exact cancel_moves t ha
  | resume bootId now => exact resume_moves t bootId now hinv

theorem run_moves {ops : List Op} (ha : ∀ op ∈ ops, op.admitted = true) :
    ∀ {t : Txn}, t.ctl.Inv →
      Ctl.Moves t.ctl (t.run ops).ctl ∧ (t.run ops).ident = t.ident := by
  induction ops with
  | nil => intro t _; exact ⟨.refl, rfl⟩
  | cons op ops ih =>
    intro t hinv
    obtain ⟨hm, hid⟩ := call_moves hinv (ha op (by simp))
    obtain ⟨hm', hid'⟩ := ih (fun o ho => ha o (by simp [ho])) (hinv.moves hm)
    exact ⟨hm.trans hm', hid'.trans hid⟩

theorem new_inv (n : NewTxn) (now : Nat) : (new n now).ctl.Inv :=
  ⟨by simp [ctl, new], by simp [ctl, new], by simp [ctl, new, Phase.isFinal],
    by simp [ctl, new], by simp [ctl, new], by simp [ctl, new]⟩

/-- Where a run starts: the fresh transaction, with the write begun or not. -/
def started (n : NewTxn) (now : Nat) (begun : Bool) : Txn :=
  if begun then (new n now).beginApply else new n now

theorem started_inv (n : NewTxn) (now : Nat) (begun : Bool) :
    (started n now begun).ctl.Inv := by
  unfold started
  split
  · exact (new_inv n now).step (.begin _ rfl)
  · exact new_inv n now

/-! ### The match flag

`everMatched` is set by the first judged reading that shows the target value and
never cleared; `notApplied` is only reached while it is unset. -/

/-- The phases in which no judged reading can have matched. -/
def Unmatched (t : Txn) : Prop :=
  t.phase = .accepted ∨ t.phase = .applying ∨ t.phase = .notApplied → t.everMatched = false

/-- A step that never clears the flag and keeps `Unmatched`. -/
structure Keeps (t t' : Txn) : Prop where
  matched : t.everMatched = true → t'.everMatched = true
  unmatched : t.Unmatched → t'.Unmatched

theorem Keeps.refl (t : Txn) : Keeps t t := ⟨id, id⟩

theorem Keeps.trans {t t' t'' : Txn} (h : Keeps t t') (h' : Keeps t' t'') : Keeps t t'' :=
  ⟨h'.matched ∘ h.matched, h'.unmatched ∘ h.unmatched⟩

theorem Keeps.of_same {t t' : Txn} (hp : t'.phase = t.phase)
    (hm : t'.everMatched = t.everMatched) : Keeps t t' := by
  refine ⟨fun h => hm.trans h, ?_⟩
  unfold Unmatched
  rw [hp, hm]
  exact id

/-- Into a phase other than the three of `Unmatched`. -/
theorem Keeps.of_phase {t t' : Txn}
    (hp : t'.phase ≠ .accepted ∧ t'.phase ≠ .applying ∧ t'.phase ≠ .notApplied)
    (hm : t.everMatched = true → t'.everMatched = true) : Keeps t t' := by
  refine ⟨hm, ?_⟩
  rintro - (h | h | h)
  · exact absurd h hp.1
  · exact absurd h hp.2.1
  · exact absurd h hp.2.2

/-- Into `notApplied`, with the flag unset. -/
theorem Keeps.of_unset {t t' : Txn} (hm : t.everMatched = false)
    (hm' : t'.everMatched = false) : Keeps t t' :=
  ⟨fun h => absurd h (by rw [hm]; decide), fun _ _ => hm'⟩

theorem expire_keeps (t : Txn) (why : Reason) : Keeps t (t.expire why).1 := by
  unfold expire
  split <;> exact .of_phase ⟨nofun, nofun, nofun⟩ id

theorem onTick_keeps (t : Txn) (now : Nat) : Keeps t (t.onTick now).1 := by
  unfold onTick
  split
  · exact .refl t
  · split
    · exact .refl t
    · dsimp only
      split
      · exact .of_same rfl rfl
      · split
        · exact .of_phase ⟨nofun, nofun, nofun⟩ id
        · split
          · rename_i h
            have hm : t.everMatched = false := by simp at h; exact h.2
            exact .of_unset hm hm
          · refine Keeps.trans ?_ (expire_keeps { t with seenMs := max t.seenMs now } .timeout)
            exact .of_same rfl rfl

theorem judgeVerifying_keeps (t : Txn) (r : Reading) (v : String) (now : Nat)
    (hp : t.phase = .verifying) :
    Keeps t (t.judgeVerifying r v now).1 ∧
      (v = t.target → (t.judgeVerifying r v now).1.everMatched = true) := by
  have hstill : t.phase ≠ .accepted ∧ t.phase ≠ .applying ∧ t.phase ≠ .notApplied := by
    rw [hp]; decide
  unfold judgeVerifying
  split
  · dsimp only
    split
    · rcases hj : (dataJudge { t with everMatched := true } r).2 with _ | _ | _
      · exact ⟨.of_phase ⟨nofun, nofun, nofun⟩ fun _ => rfl, fun _ => rfl⟩
      · exact ⟨.of_phase ⟨nofun, nofun, nofun⟩ fun _ => rfl, fun _ => rfl⟩
      · exact ⟨.of_phase hstill fun _ => rfl, fun _ => rfl⟩
    · exact ⟨.of_phase hstill fun _ => rfl, fun _ => rfl⟩
  · rename_i hv
    refine ⟨?_, fun h => absurd h hv⟩
    split
    · split
      · exact .of_phase ⟨nofun, nofun, nofun⟩ id
      · split
        · rename_i hm _
          exact .of_unset (Bool.eq_false_iff.mpr hm) (Bool.eq_false_iff.mpr hm)
        · exact .refl t
    · split
      · exact .of_phase ⟨nofun, nofun, nofun⟩ id
      · exact .refl t

theorem judgeRollback_keeps (t : Txn) (r : Reading) (v : String) :
    Keeps t (t.judgeRollback r v).1 := by
  unfold judgeRollback
  split
  · split
    · dsimp only
      split
      · exact .of_phase ⟨nofun, nofun, nofun⟩ id
      · exact .of_same rfl rfl
    · exact .refl t
  · split
    · exact .of_phase ⟨nofun, nofun, nofun⟩ id
    · exact .refl t

theorem conclude_keeps (t : Txn) (verdict : Option Next) (now : Nat) :
    Keeps t (t.conclude verdict now).1 := by
  cases verdict with
  | some n => exact .refl t
  | none => exact onTick_keeps t now

/-- A judged reading keeps the flag, and sets it when it shows the target. -/
theorem judge_keeps (t : Txn) (r : Reading) (now : Nat) :
    Keeps t (t.judge r now).1 ∧
      (t.phase = .verifying → r.value = some t.target →
        (t.judge r now).1.everMatched = true) := by
  obtain ⟨hctl, hid, hm, -⟩ := noteProbe_frame { t with registered := r.registered } r now
  unfold judge
  dsimp only
  generalize noteProbe { t with registered := r.registered } r now = t₁ at hctl hid hm ⊢
  have hp₁ : t₁.phase = t.phase := congrArg Ctl.phase hctl
  have htgt : t₁.target = t.target := congrArg Ident.target hid
  have h₁ : Keeps t t₁ := .of_same hp₁ hm
  rcases r.value with _ | v
  · exact ⟨h₁.trans (onTick_keeps t₁ now), fun _ h => by cases h⟩
  · have h₂ : Keeps t (t₁.noteValue v) := h₁.trans (.of_same rfl rfl)
    have hlast := fun t' verdict => conclude_keeps t' verdict now
    dsimp only
    unfold judgeValue
    by_cases hv : (t₁.noteValue v).phase = .verifying
    · rw [if_pos hv]
      obtain ⟨hk, hset⟩ := judgeVerifying_keeps (t₁.noteValue v) r v now hv
      refine ⟨h₂.trans (hk.trans (hlast _ _)), fun _ hval => ?_⟩
      have hvt : v = t.target := Option.some.inj hval
      exact (hlast _ _).matched (hset (hvt.trans htgt.symm))
    · rw [if_neg hv]
      refine ⟨h₂.trans ((judgeRollback_keeps _ r v).trans (hlast _ _)), fun hver _ => ?_⟩
      exact absurd (hp₁.trans hver) hv

/-- A reading is judged when the transaction is verifying with no write under way
    and the SIM is the captured one. -/
def judges (t : Txn) (r : Reading) : Bool :=
  decide (t.phase = .verifying) && t.intent.isNone && decide (simCheck t.sim r.sim = .same)

theorem onReading_keeps (t : Txn) (r : Reading) (now : Nat) :
    Keeps t (t.onReading r now).1 ∧
      (t.judges r = true → r.value = some t.target →
        (t.onReading r now).1.everMatched = true) := by
  unfold onReading
  split
  · rename_i hf
    refine ⟨.refl t, fun hj _ => ?_⟩
    simp only [judges, Bool.and_eq_true, decide_eq_true_eq] at hj
    rw [hj.1.1] at hf
    cases hf
  · split
    · rename_i hg
      refine ⟨.refl t, fun hj _ => ?_⟩
      simp only [judges, Bool.and_eq_true, decide_eq_true_eq, Option.isNone_iff_eq_none] at hj
      simp [waiting, hj.1.1, hj.1.2] at hg
    · obtain ⟨hctl, hid, hm, -⟩ := noteConn_frame { t with seenMs := now } r
      dsimp only
      generalize noteConn { t with seenMs := now } r = t₁ at hctl hid hm ⊢
      have hp₁ : t₁.phase = t.phase := congrArg Ctl.phase hctl
      have hsim : t₁.sim = t.sim := congrArg Ident.sim hid
      have htgt : t₁.target = t.target := congrArg Ident.target hid
      have h₁ : Keeps t t₁ := .of_same hp₁ hm
      rw [hsim]
      cases hs : simCheck t.sim r.sim with
      | same =>
        obtain ⟨hk, hset⟩ := judge_keeps t₁ r now
        refine ⟨h₁.trans hk, fun hj hval => ?_⟩
        simp only [judges, Bool.and_eq_true, decide_eq_true_eq] at hj
        exact hset (hp₁.trans hj.1.1) (htgt ▸ hval)
      | unknown =>
        refine ⟨h₁.trans (onTick_keeps t₁ now), fun hj _ => ?_⟩
        simp [judges, hs] at hj
      | changed =>
        refine ⟨h₁.trans (.of_phase ⟨nofun, nofun, nofun⟩ id), fun hj _ => ?_⟩
        simp [judges, hs] at hj

theorem resume_keeps (t : Txn) (bootId : String) (now : Nat) :
    Keeps t (t.resume bootId now).1 := by
  unfold resume
  split
  · exact .refl t
  · dsimp only
    generalize ht₁ : (if decide (bootId ≠ t.bootId) = true then t.rebooted bootId else t) = t₁
    generalize decide (bootId ≠ t.bootId) = reboot at ht₁ ⊢
    have h₁ : Keeps t t₁ := by
      rw [← ht₁]
      split
      · exact .of_same (congrArg Ctl.phase (rebooted_frame t bootId).1)
          (rebooted_frame t bootId).2.2
      · exact .refl t
    apply h₁.trans
    split
    · rename_i ha
      exact ⟨id, fun hu _ => hu (.inl ha)⟩
    · have h₂ : Keeps t₁ (t₁.pickUp reboot now) := by
        unfold pickUp
        split
        · exact .of_phase ⟨nofun, nofun, nofun⟩ id
        · exact .of_phase ⟨nofun, nofun, nofun⟩ id
        · exact .of_same rfl rfl
        · exact .of_same rfl rfl
      apply h₂.trans
      unfold settle
      dsimp only
      split
      · refine Keeps.trans ?_ (expire_keeps _ .rebootLoop)
        exact .of_same rfl rfl
      · exact .of_same rfl rfl

theorem call_keeps (t : Txn) (op : Op) : Keeps t (t.call op) := by
  cases op with
  | applied o now =>
    unfold call applied
    dsimp only
    split
    · exact .refl t
    · exact .of_phase ⟨nofun, nofun, nofun⟩ id
  | onReading r now => exact (onReading_keeps t r now).1
  | onTick now => exact onTick_keeps t now
  | rollbackSent now =>
    unfold call rollbackSent
    dsimp only
    split
    · exact .refl t
    · exact .of_same rfl rfl
  | revert =>
    rw [call]
    rcases h : t.revert with _ | ⟨t', n⟩
    · exact .refl t
    · obtain ⟨-, -, rfl⟩ := revert_eq h
      exact .of_phase ⟨nofun, nofun, nofun⟩ id
  | keep =>
    rw [call]
    rcases h : t.keep with _ | t'
    · exact .refl t
    · obtain ⟨-, -, rfl⟩ := keep_eq h
      exact .of_phase ⟨nofun, nofun, nofun⟩ id
  | cancel why =>
    unfold call cancel
    dsimp only
    split
    · exact .refl t
    · exact .of_phase ⟨nofun, nofun, nofun⟩ id
  | resume bootId now => exact resume_keeps t bootId now

theorem run_keeps (t : Txn) (ops : List Op) : Keeps t (t.run ops) := by
  induction ops generalizing t with
  | nil => exact .refl t
  | cons op ops ih => exact (call_keeps t op).trans (ih (t.call op))

/-! ### The state machine over whole runs -/

theorem judged_mismatch_of_notApplied {t : Txn} {pre post : List Op} {r : Reading} {clock : Nat}
    (hend : (t.run (pre ++ .onReading r clock :: post)).everMatched = false)
    (hj : (t.run pre).judges r = true) : r.value ≠ some (t.run pre).target := by
  intro hval
  have hset := (onReading_keeps (t.run pre) r clock).2 hj hval
  have hrun : t.run (pre ++ .onReading r clock :: post) =
      ((t.run pre).onReading r clock).1.run post := by
    simp [run, call]
  have hkeep := (run_keeps ((t.run pre).onReading r clock).1 post).matched hset
  rw [← hrun, hend] at hkeep
  cases hkeep

/-- **The transaction state machine.**  Whatever methods are called on a fresh
    transaction, with whatever readings, clocks and boot ids: the intent goes with
    the phase, the reason with a final phase and the table of the module comment,
    `notApplied` is only reached when no judged reading showed the target, and a
    final transaction no longer moves. -/
theorem run_state_machine (n : NewTxn) (now : Nat) (begun : Bool) (ops : List Op)
    (ha : ∀ op ∈ ops, op.admitted = true) :
    let t := (started n now begun).run ops
    ((t.intent = some .apply ↔ t.phase = .applying) ∧
      (t.intent = some .rollback → t.phase = .rollingBack)) ∧
    ((t.reason.isSome = true ↔ t.phase.isFinal = true) ∧
      (t.phase.isFinal = true → t.intent = none) ∧
      (∀ r, t.reason = some r → t.phase.allows r = true)) ∧
    (t.phase = .notApplied → ∀ pre r clock post, ops = pre ++ .onReading r clock :: post →
      ((started n now begun).run pre).judges r = true → r.value ≠ some n.target) ∧
    (t.phase.isFinal = true → ∀ op : Op, op.admitted = true →
      (t.call op).phase = t.phase ∧ (t.call op).reason = t.reason ∧
        (t.call op).intent = t.intent) := by
  have hstart := started_inv n now begun
  obtain ⟨hmoves, -⟩ := run_moves ha hstart
  have hinv := hstart.moves hmoves
  intro t
  refine ⟨⟨hinv.applying, hinv.rolling⟩, ⟨hinv.reasoned, hinv.idle, hinv.table⟩, ?_, ?_⟩
  · intro hna pre r clock post hops hj
    have hunm : (started n now begun).Unmatched := by
      intro _
      unfold started
      split <;> rfl
    have hend : ((started n now begun).run ops).everMatched = false :=
      (run_keeps _ ops).unmatched hunm (.inr (.inr hna))
    rw [hops] at hend
    have htarget : ((started n now begun).run pre).target = n.target := by
      have hpre := fun op ho => ha op (by rw [hops]; exact List.mem_append_left _ ho)
      have hid := (run_moves hpre hstart).2
      have hst : (started n now begun).target = n.target := by
        unfold started
        split <;> rfl
      exact (congrArg Ident.target hid).trans hst
    rw [← htarget]
    exact judged_mismatch_of_notApplied hend hj
  · intro hf op hop
    have hsame := (call_moves hinv hop).1.final hf
    exact ⟨congrArg Ctl.phase hsame, congrArg Ctl.reason hsame, congrArg Ctl.intent hsame⟩

/-- A network-mode change with a card in slot 1, rollback on, 120 s to confirm. -/
def sampleNew : NewTxn where
  uid := 0
  opId := "a1"
  action := "network.set_mode"
  item := "network.mode"
  source := .web
  undo := false
  target := "Only_LTE"
  old := "Only_5G"
  rollbackTo := "Only_5G"
  sim := ⟨"8986001", 1⟩
  conn := none
  confirm := .registered
  rollbackEnabled := true
  deadlineMs := 120000
  bootId := "b1"

def sampleReading (value : String) (iccid : String) : Reading where
  value := some value
  registered := false
  sim := ⟨iccid, 1⟩
  data := none
  probe := none

/-- The old value is read back; then, at the deadline, a reading shows the target
    while the modem reports no ICCID. -/
def blankSimRun : List Op :=
  [.applied .done 0, .onReading (sampleReading "Only_5G" "8986001") 60000,
    .onReading (sampleReading "Only_LTE" "") 120000]

/-- A reading whose SIM identity is blank is not judged, so `notApplied` can be
    reached although a reading showed the target. -/
theorem blankSimRun_notApplied :
    (∀ op ∈ blankSimRun, op.admitted = true) ∧
      .onReading (sampleReading "Only_LTE" "") 120000 ∈ blankSimRun ∧
      (sampleReading "Only_LTE" "").value = some sampleNew.target ∧
      ((started sampleNew 0 true).run blankSimRun).phase = .notApplied := by
  refine ⟨by decide, by simp [blankSimRun], rfl, by decide⟩

theorem blankSimRun_state_machine :
    ((started sampleNew 0 true).run blankSimRun).intent = none ∧
      (sampleReading "Only_5G" "8986001").value ≠ some sampleNew.target := by
  have h := run_state_machine sampleNew 0 true blankSimRun (by decide)
  refine ⟨h.2.1.2.1 (by decide), ?_⟩
  exact h.2.2.1 (by decide) [.applied .done 0] _ 60000 _ rfl (by decide)

end Txn

end Datad
