/-
  Datad/Ops/Deadline.lean
  =======================
  **How long a transaction can hold the lock** (`Engine::drive`, `Engine::send_rollback`,
  `Txn::on_tick`).

  A transaction that waits for its confirmation is ended, or sent back, by the first beat
  after its deadline, whatever the device answers.  A rollback has a deadline of its own,
  but only from the time at which its write came back: as long as the card cannot be read
  nothing is sent, the intent stays, and no beat looks at the clock.

  `Driver` is the engine with the one task that drives the transaction.  Calls of the
  users come in between, at any time.
-/
import Datad.Ops.Exclusion
import Datad.Lib.Transition

namespace Datad

open Transition

/-! ### One beat -/

namespace Txn

/-- What a beat sees of a transaction. -/
structure Alike (t t' : Txn) : Prop where
  ctl : t'.ctl = t.ctl
  ident : t'.ident = t.ident
  waitStartMs : t'.waitStartMs = t.waitStartMs

theorem Alike.refl (t : Txn) : Alike t t := ⟨rfl, rfl, rfl⟩

theorem Alike.trans {t t' t'' : Txn} (h : Alike t t') (h' : Alike t' t'') : Alike t t'' :=
  ⟨h'.ctl.trans h.ctl, h'.ident.trans h.ident, h'.waitStartMs.trans h.waitStartMs⟩

theorem Alike.phase {t t' : Txn} (h : Alike t t') : t'.phase = t.phase :=
  congrArg Ctl.phase h.ctl

theorem Alike.waits {t t' : Txn} (h : Alike t t')
    (hw : t.phase = .verifying ∨ t.phase = .rollingBack) :
    t'.phase = .verifying ∨ t'.phase = .rollingBack := by
  rw [h.phase]
  exact hw

theorem Alike.intent {t t' : Txn} (h : Alike t t') : t'.intent = t.intent :=
  congrArg Ctl.intent h.ctl

theorem Alike.deadlineMs {t t' : Txn} (h : Alike t t') : t'.deadlineMs = t.deadlineMs :=
  congrArg Ident.deadlineMs h.ident

/-- What a beat can do to a transaction that waits, with no write under way. -/
inductive Beat (t : Txn) (now : Nat) : Txn → Prop where
  | ended {t' : Txn} (hf : t'.phase.isFinal = true) : Beat t now t'
  | wait {t' : Txn} (h : Alike t t') (hd : now - t.waitStartMs < t.deadlineMs) : Beat t now t'
  | roll {t' : Txn} (hp : t.phase = .verifying) (hd : t.deadlineMs ≤ now - t.waitStartMs)
      (hp' : t'.phase = .rollingBack) (hi : t'.intent = some .rollback)
      (hid : t'.ident = t.ident) : Beat t now t'

theorem Beat.of_alike {t t₁ t' : Txn} {now : Nat} (ha : Alike t t₁) (h : Beat t₁ now t') :
    Beat t now t' := by
  cases h with
  | ended hf => exact .ended hf
  | wait h hd =>
    rw [ha.waitStartMs, ha.deadlineMs] at hd
    exact .wait (ha.trans h) hd
  | roll hp hd hp' hi hid =>
    rw [ha.waitStartMs, ha.deadlineMs] at hd
    exact .roll (ha.phase ▸ hp) hd hp' hi (hid.trans ha.ident)

theorem onTick_beat {t : Txn} (hw : t.phase = .verifying ∨ t.phase = .rollingBack)
    (hi : t.intent = none) (now : Nat) : Beat t now (t.onTick now).1 := by
  have hgate : ¬ (!t.waiting || t.intent.isSome) = true := by
    rcases hw with h | h
    · simp [waiting, h, hi]
    · simp [waiting, h, hi]
  rw [onTick, if_neg (Bool.eq_false_iff.mp (isFinal_of_waiting hw)), if_neg hgate]
  dsimp only
  split
  · rename_i hd
    exact .wait ⟨rfl, rfl, rfl⟩ hd
  · rename_i hd
    split
    · exact .ended rfl
    · rename_i hr
      have hv : t.phase = .verifying := hw.resolve_right hr
      split
      · exact .ended rfl
      · rw [expire]
        split
        · exact .roll hv (Nat.le_of_not_lt hd) rfl rfl rfl
        · exact .ended rfl

/-- The readback ends the transaction, or leaves it to the deadline. -/
theorem judgeVerifying_alike (t : Txn) (r : Reading) (v : String) (now : Nat) :
    (t.judgeVerifying r v now).1.phase.isFinal = true ∧ (t.judgeVerifying r v now).2.isSome ∨
      (t.judgeVerifying r v now).2 = none ∧ Alike t (t.judgeVerifying r v now).1 := by
  unfold judgeVerifying
  split
  · dsimp only
    split
    · split
      · exact .inl ⟨rfl, rfl⟩
      · exact .inl ⟨rfl, rfl⟩
      · exact .inr ⟨rfl, rfl, rfl, rfl⟩
    · exact .inr ⟨rfl, rfl, rfl, rfl⟩
  · split
    · split
      · exact .inl ⟨rfl, rfl⟩
      · split
        · exact .inl ⟨rfl, rfl⟩
        · exact .inr ⟨rfl, .refl t⟩
    · split
      · exact .inl ⟨rfl, rfl⟩
      · exact .inr ⟨rfl, .refl t⟩

theorem judgeRollback_alike (t : Txn) (r : Reading) (v : String) :
    (t.judgeRollback r v).1.phase.isFinal = true ∧ (t.judgeRollback r v).2.isSome ∨
      (t.judgeRollback r v).2 = none ∧ Alike t (t.judgeRollback r v).1 := by
  unfold judgeRollback
  split
  · split
    · dsimp only
      split
      · exact .inl ⟨rfl, rfl⟩
      · exact .inr ⟨rfl, rfl, rfl, rfl⟩
    · exact .inr ⟨rfl, .refl t⟩
  · split
    · exact .inl ⟨rfl, rfl⟩
    · exact .inr ⟨rfl, .refl t⟩

theorem judgeValue_alike (t : Txn) (r : Reading) (v : String) (now : Nat) :
    (t.judgeValue r v now).1.phase.isFinal = true ∧ (t.judgeValue r v now).2.isSome ∨
      (t.judgeValue r v now).2 = none ∧ Alike t (t.judgeValue r v now).1 := by
  unfold judgeValue
  split
  · exact t.judgeVerifying_alike r v now
  · exact t.judgeRollback_alike r v

theorem noteProbe_alike (t : Txn) (r : Reading) (now : Nat) : Alike t (t.noteProbe r now) := by
  refine ⟨(t.noteProbe_frame r now).1, (t.noteProbe_frame r now).2.1, ?_⟩
  unfold noteProbe
  rcases r.probe with _ | ok
  · rcases r.data with _ | d
    · rfl
    · rfl
  · rcases r.data with _ | d
    · rfl
    · rfl

theorem noteConn_alike (t : Txn) (r : Reading) : Alike t (t.noteConn r) := by
  refine ⟨(t.noteConn_frame r).1, (t.noteConn_frame r).2.1, ?_⟩
  unfold noteConn
  rcases r.data with _ | d
  · rfl
  · rfl

theorem judge_beat {t : Txn} (hw : t.phase = .verifying ∨ t.phase = .rollingBack)
    (hi : t.intent = none) (r : Reading) (now : Nat) : Beat t now (t.judge r now).1 := by
  have hset : Alike t { t with registered := r.registered } := ⟨rfl, rfl, rfl⟩
  have hnoted := hset.trans (noteProbe_alike _ r now)
  have htick : ∀ t₁, Alike t t₁ → Beat t now (t₁.onTick now).1 := by
    intro t₁ h
    exact .of_alike h (onTick_beat (h.waits hw) (h.intent.trans hi) now)
  unfold judge
  dsimp only
  rcases r.value with _ | v
  · exact htick _ hnoted
  · dsimp only
    have hvalue : Alike t
        (({ t with registered := r.registered }.noteProbe r now).noteValue v) :=
      ⟨hnoted.ctl, hnoted.ident, hnoted.waitStartMs⟩
    rcases judgeValue_alike (({ t with registered := r.registered }.noteProbe r now).noteValue v)
      r v now with ⟨hf, hs⟩ | ⟨hn, ha⟩
    · obtain ⟨n, hn⟩ := Option.isSome_iff_exists.mp hs
      rw [hn]
      exact .ended hf
    · rw [hn]
      exact htick _ (hvalue.trans ha)

theorem onReading_beat {t : Txn} (hw : t.phase = .verifying ∨ t.phase = .rollingBack)
    (hi : t.intent = none) (r : Reading) (now : Nat) : Beat t now (t.onReading r now).1 := by
  have hgate : ¬ (!t.waiting || t.intent.isSome) = true := by
    rcases hw with h | h
    · simp [waiting, h, hi]
    · simp [waiting, h, hi]
  have hset : Alike t { t with seenMs := now } := ⟨rfl, rfl, rfl⟩
  have hnoted := hset.trans (noteConn_alike _ r)
  rw [onReading, if_neg (Bool.eq_false_iff.mp (isFinal_of_waiting hw)), if_neg hgate]
  dsimp only
  split
  · exact .ended rfl
  · exact .of_alike hnoted (onTick_beat (hnoted.waits hw) (hnoted.intent.trans hi) now)
  · exact .of_alike hnoted (judge_beat (hnoted.waits hw) (hnoted.intent.trans hi) r now)

/-- The transaction after a beat, with a reading or without. -/
def beat (t : Txn) (reading : Option Reading) (now : Nat) : Txn :=
  match reading with
  | some r => (t.onReading r now).1
  | none => (t.onTick now).1

theorem beat_spec {t : Txn} (hw : t.phase = .verifying ∨ t.phase = .rollingBack)
    (hi : t.intent = none) (reading : Option Reading) (now : Nat) :
    Beat t now (t.beat reading now) := by
  cases reading with
  | some r => exact onReading_beat hw hi r now
  | none => exact onTick_beat hw hi now

/-- A beat does not touch a transaction that has a write open. -/
theorem beat_of_intent {t : Txn} (hf : t.phase.isFinal = false) (hi : t.intent ≠ none)
    (reading : Option Reading) (now : Nat) : t.beat reading now = t := by
  cases reading with
  | some r => exact onReading_intent hf hi r now
  | none => exact onTick_intent hf hi now

end Txn

namespace St

variable {st : St} {opId : String} {t : Txn}

theorem rollbackCheck_active (st : St) (opId : String) (reading : Except String Reading) :
    (st.rollbackCheck opId reading).1.active = st.active ∨
      (st.rollbackCheck opId reading).1.active = none := by
  rw [rollbackCheck]
  rcases st.live opId with _ | t
  · exact .inl rfl
  · dsimp only
    split
    · exact .inl rfl
    · rw [finish_final (st.setActive_active _) (t.cancel_final .simChanged)]
      exact .inr (retire_active (st.setActive_active _)).1
    · exact .inl rfl

theorem feed_eq (hl : st.live opId = some t) (reading : Option Reading) (now : Nat) :
    (st.feed opId t.generation reading now).1 =
      ((st.setActive (t.beat reading now)).persist
        (decide ((t.beat reading now).generation ≠ t.generation))).1.finish.1 := by
  rw [feed, hl]
  dsimp only
  rw [if_neg (not_not.mpr rfl)]
  cases reading with
  | some r => rfl
  | none => rfl

theorem feed_active_final (hl : st.live opId = some t) {reading : Option Reading} {now : Nat}
    (hf : (t.beat reading now).phase.isFinal = true) :
    (st.feed opId t.generation reading now).1.active = none := by
  have hact := ((st.setActive (t.beat reading now)).persist_frame
    (decide ((t.beat reading now).generation ≠ t.generation))).1
  rw [feed_eq hl, finish_final hact hf]
  exact (retire_active hact).1

theorem feed_active_open (hl : st.live opId = some t) {reading : Option Reading} {now : Nat}
    (hf : (t.beat reading now).phase.isFinal = false) :
    (st.feed opId t.generation reading now).1.active = some (t.beat reading now) := by
  have hact := ((st.setActive (t.beat reading now)).persist_frame
    (decide ((t.beat reading now).generation ≠ t.generation))).1
  rw [feed_eq hl, finish_open]
  · exact hact
  · intro u hu
    rw [hact] at hu
    cases hu
    exact hf

end St

/-! ### The driver -/

structure Driver where
  st : St
  /-- The task that drives the transaction, until its loop ends. -/
  task : Option Task
  clock : Nat := 0
  draining : Bool := false
  /-- When the transaction entered `verifying` (observer). -/
  entered : Nat := 0
  /-- When its rollback was decided (observer). -/
  decided : Option Nat := none

namespace Driver

inductive Act where
  /-- The driver goes on; `i.now` is the time. -/
  | turn (i : Input)
  | call (c : Call) (now : Nat)

def Act.now : Act → Nat
  | .turn i => i.now
  | .call _ now => now

def rolling (st : St) : Bool := st.active.any fun t => decide (t.phase = .rollingBack)

def decidedAfter (s : Driver) (st : St) (now : Nat) : Option Nat :=
  if rolling st && !rolling s.st then some now else s.decided

/-- The loop is over when the driver wakes the legacy queue. -/
def loops : Task → Bool
  | .kick => false
  | _ => true

def turned (cfg : Config) (bootId : String) (s : Driver) (task : Task) (i : Input) : Driver :=
  let turn := task.turn cfg bootId 0 s.st s.draining i
  { s with
    st := turn.st
    task := turn.task.filter loops
    clock := i.now
    draining := turn.draining
    decided := s.decidedAfter turn.st i.now }

def called (s : Driver) (c : Call) (now : Nat) : Driver :=
  let turn := c.turn s.st s.draining
  { s with
    st := turn.st
    clock := now
    draining := turn.draining
    decided := s.decidedAfter turn.st now }

/-- The clock does not go back. -/
def next (cfg : Config) (bootId : String) (s : Driver) (a : Act) : Option Driver :=
  if s.clock ≤ a.now then
    match a with
    | .turn i => s.task.map fun task => s.turned cfg bootId task i
    | .call c now => some (s.called c now)
  else none

/-- A transaction begins to wait for its confirmation, or goes on at a start of the process
    with a rollback decided there. -/
structure Begins (s : Driver) (t : Txn) : Prop where
  active : s.st.active = some t
  task : s.task = some (.drive t.opId)
  deadline : 0 < t.deadlineMs
  phase : t.phase = .verifying ∧ t.intent = none ∧ s.entered = t.waitStartMs ∧ s.decided = none ∨
    t.phase = .rollingBack ∧ t.intent = some .rollback ∧ s.decided = some s.clock

/-- Nothing happens later than the deadline after the decision for a rollback while the
    rollback is not sent. -/
def Timely (s : Driver) (a : Act) : Prop :=
  ∀ t u, s.st.active = some t → t.phase = .rollingBack → t.intent = some .rollback →
    s.decided = some u → a.now ≤ u + t.deadlineMs

/-- The driver is about to feed a beat. -/
def atBeat (s : Driver) : Bool :=
  match s.task with
  | some (.feed ..) => true
  | _ => false

/-! ### The invariant -/

/-- The tasks in the loop of the driver of a transaction. -/
inductive InLoop (opId : String) : Task → Prop where
  | drive : InLoop opId (.drive opId)
  | rollback (uid : Nat) (value : String) (g : Nat) (spec : Option Spec) :
      InLoop opId (.rollback opId uid value g spec)
  | rollbackRead (uid : Nat) (value : String) (g : Nat) (spec : Spec) :
      InLoop opId (.rollbackRead opId uid value g spec)
  | rollbackWrite (uid : Nat) (value : String) : InLoop opId (.rollbackWrite opId uid value)
  | rollbackWait (uid : Nat) : InLoop opId (.rollbackWait opId uid)
  | rollbackSkip (uid : Nat) : InLoop opId (.rollbackSkip opId uid)
  | sleep (g : Nat) (spec : Option Spec) : InLoop opId (.sleep opId g spec)
  | read (g : Nat) (spec : Option Spec) : InLoop opId (.read opId g spec)
  | probe (g : Nat) (r : Reading) : InLoop opId (.probe opId g r)
  | feed (g : Nat) (r : Option Reading) : InLoop opId (.feed opId g r)

/-- The driver stays in its loop until it wakes the legacy queue. -/
theorem InLoop.turn {opId : String} {k k' : Task} (h : InLoop opId k) {cfg : Config}
    {bootId : String} {uid : Nat} {st : St} {draining : Bool} {i : Input}
    (hk : (k.turn cfg bootId uid st draining i).task = some k') (hl : loops k' = true) :
    InLoop opId k' := by
  cases h with
  | drive =>
    simp only [Task.turn] at hk
    split at hk
    · cases hk
      cases hl
    · split at hk
      · cases hk
        exact .rollback _ _ _ _
      · cases hk
        exact .sleep _ _
  | rollback uid value g spec =>
    simp only [Task.turn] at hk
    split at hk
    · cases hk
      exact .drive
    · cases hk
      split
      · exact .rollbackRead _ _ _ _
      · exact .rollbackSkip _
  | rollbackRead uid value g spec =>
    simp only [Task.turn] at hk
    split at hk
    · cases hk
      exact .drive
    · cases hk
      exact .rollbackWrite _ _
    · cases hk
      exact .sleep _ _
  | rollbackWrite uid value =>
    cases hk
    exact .rollbackWait _
  | rollbackWait uid =>
    cases hk
    exact .drive
  | rollbackSkip uid =>
    cases hk
    exact .drive
  | sleep g spec =>
    cases hk
    split
    · exact .drive
    · exact .read _ _
  | read g spec =>
    simp only [Task.turn] at hk
    split at hk
    · split at hk
      · cases hk
        cases hl
      · split at hk
        · cases hk
          exact .probe _ _
        · cases hk
          exact .feed _ _
    · cases hk
      exact .feed _ _
  | probe g r =>
    cases hk
    exact .feed _ _
  | feed g r =>
    simp only [Task.turn] at hk
    split at hk
    · cases hk
      cases hl
    · cases hk
      exact .drive

/-- The driver waits for readings of this generation. -/
def watches (g : Nat) : Task → Bool
  | .drive _ => true
  | .sleep _ g' _ => decide (g' = g)
  | .read _ g' _ => decide (g' = g)
  | .probe _ g' _ => decide (g' = g)
  | .feed _ g' _ => decide (g' = g)
  | _ => false

/-- Where a transaction is with its deadlines. -/
inductive Due (limit entered : Nat) (decided : Option Nat) (task : Option Task) (t : Txn) :
    Prop where
  | verifying (hp : t.phase = .verifying) (hi : t.intent = none)
      (he : t.waitStartMs = entered) (hd : decided = none)
      (hk : ∀ k, task = some k → watches t.generation k = true)
  | unsent (u : Nat) (hp : t.phase = .rollingBack) (hi : t.intent = some .rollback)
      (hd : decided = some u)
  | sent (u : Nat) (hp : t.phase = .rollingBack) (hi : t.intent = none) (hd : decided = some u)
      (hw : t.waitStartMs ≤ u + limit)
      (hk : ∀ k, task = some k → watches t.generation k = true)

theorem Due.watch {limit entered : Nat} {decided : Option Nat} {task : Option Task} {t : Txn}
    (h : Due limit entered decided task t) (hi : t.intent = none) :
    ∀ k, task = some k → watches t.generation k = true := by
  cases h with
  | verifying _ _ _ _ hk => exact hk
  | unsent u _ hi' _ =>
    rw [hi'] at hi
    cases hi
  | sent _ _ _ _ _ hk => exact hk

theorem Due.retask {limit entered : Nat} {decided : Option Nat} {task task' : Option Task}
    {t : Txn} (h : Due limit entered decided task t)
    (hk : t.intent = none → ∀ k, task' = some k → watches t.generation k = true) :
    Due limit entered decided task' t := by
  cases h with
  | verifying hp hi he hd _ => exact .verifying hp hi he hd (hk hi)
  | unsent u hp hi hd => exact .unsent u hp hi hd
  | sent u hp hi hd hw _ => exact .sent u hp hi hd hw (hk hi)

/-- A transaction and the driver that follows it. -/
structure Sound (opId : String) (limit : Nat) (s : Driver) : Prop where
  task : ∀ k, s.task = some k → InLoop opId k
  active : ∀ t, s.st.active = some t →
    t.opId = opId ∧ t.deadlineMs = limit ∧ Due limit s.entered s.decided s.task t

theorem Begins.sound {s : Driver} {t : Txn} (h : s.Begins t) : s.Sound t.opId t.deadlineMs := by
  constructor
  · intro k hk
    rw [h.task] at hk
    cases hk
    exact .drive
  · intro u hu
    rw [h.active] at hu
    cases hu
    refine ⟨rfl, rfl, ?_⟩
    rcases h.phase with ⟨hp, hi, he, hd⟩ | ⟨hp, hi, hd⟩
    · refine .verifying hp hi he.symm hd fun k hk => ?_
      rw [h.task] at hk
      cases hk
      rfl
    · exact .unsent s.clock hp hi hd

/-! ### Turns of the driver -/

section

variable {opId : String} {limit : Nat} {cfg : Config} {bootId : String} {s : Driver} {i : Input}
  {k : Task}

theorem decidedAfter_same {st : St} (h : st.active = s.st.active) (now : Nat) :
    s.decidedAfter st now = s.decided := by
  unfold decidedAfter rolling
  rw [h]
  cases s.st.active.any fun t => decide (t.phase = .rollingBack) with
  | true => rfl
  | false => rfl

theorem mem_filter_loops {task : Option Task} {k : Task} (h : task.filter loops = some k) :
    task = some k := (Option.filter_eq_some_iff.mp h).1

theorem InLoop.turned (h : InLoop opId k) :
    ∀ k', (s.turned cfg bootId k i).task = some k' → InLoop opId k' := by
  intro k' hk'
  obtain ⟨hmem, hl⟩ := Option.filter_eq_some_iff.mp hk'
  exact h.turn hmem hl

/-- A turn that leaves the transaction as it is. -/
theorem Sound.turn_same (hs : s.Sound opId limit) (hk : s.task = some k)
    (hact : (k.turn cfg bootId 0 s.st s.draining i).st.active = s.st.active)
    (hwatch : ∀ t, s.st.active = some t → t.intent = none →
      ∀ k', (k.turn cfg bootId 0 s.st s.draining i).task = some k' →
        watches t.generation k' = true) :
    (s.turned cfg bootId k i).Sound opId limit := by
  refine ⟨(hs.task k hk).turned, ?_⟩
  intro t ht
  have ht : s.st.active = some t := hact ▸ ht
  obtain ⟨ho, hd, hdue⟩ := hs.active t ht
  refine ⟨ho, hd, ?_⟩
  have hdec : (s.turned cfg bootId k i).decided = s.decided := decidedAfter_same hact i.now
  rw [hdec]
  exact hdue.retask fun hi k' hk' => hwatch t ht hi k' (mem_filter_loops hk')

/-- A turn that ends the transaction. -/
theorem Sound.turn_gone (hs : s.Sound opId limit) (hk : s.task = some k)
    (hact : (k.turn cfg bootId 0 s.st s.draining i).st.active = none) :
    (s.turned cfg bootId k i).Sound opId limit := by
  refine ⟨(hs.task k hk).turned, ?_⟩
  intro t ht
  have ht : (none : Option Txn) = some t := hact ▸ ht
  cases ht

/-- A turn that moves the transaction on. -/
theorem Sound.turn_to {t : Txn} (hs : s.Sound opId limit) (hk : s.task = some k)
    (hact : (k.turn cfg bootId 0 s.st s.draining i).st.active = some t)
    (ho : t.opId = opId) (hlim : t.deadlineMs = limit)
    (hdue : Due limit s.entered
      (s.decidedAfter (k.turn cfg bootId 0 s.st s.draining i).st i.now)
      ((k.turn cfg bootId 0 s.st s.draining i).task.filter loops) t) :
    (s.turned cfg bootId k i).Sound opId limit := by
  refine ⟨(hs.task k hk).turned, ?_⟩
  intro t' ht'
  have ht' : some t = some t' := hact ▸ ht'
  cases ht'
  exact ⟨ho, hlim, hdue⟩

theorem decidedAfter_rolling {st : St} {t t' : Txn} (ht : s.st.active = some t)
    (hp : t.phase = .rollingBack) (ht' : st.active = some t') (now : Nat) :
    s.decidedAfter st now = s.decided := by
  simp [decidedAfter, rolling, ht, ht', hp]

theorem decidedAfter_verifying {st : St} {t t' : Txn} (ht : s.st.active = some t)
    (hp : t.phase = .verifying) (ht' : st.active = some t') (now : Nat) :
    s.decidedAfter st now = if t'.phase = .rollingBack then some now else s.decided := by
  simp [decidedAfter, rolling, ht, ht', hp]

theorem live_of_sound (hs : s.Sound opId limit) {t : Txn} (ht : s.st.active = some t) :
    s.st.live opId = some t := by
  rw [St.live_eq_some]
  exact ⟨ht, (hs.active t ht).1⟩

theorem active_of_live {t : Txn} (h : s.st.live opId = some t) : s.st.active = some t :=
  (St.live_eq_some.mp h).1

theorem Sound.drive (hs : s.Sound opId limit) (hk : s.task = some (.drive opId)) :
    (s.turned cfg bootId (.drive opId) i).Sound opId limit := by
  refine hs.turn_same hk ?_ ?_
  · simp only [Task.turn]
    split
    · rfl
    · split
      · rfl
      · rfl
  · intro t ht hi k' hk'
    simp only [Task.turn, live_of_sound hs ht, hi] at hk'
    split at hk'
    · rename_i hr
      cases hr.2
    · cases hk'
      exact decide_eq_true rfl

/-- While the driver sends the rollback, the transaction has it open. -/
theorem Sound.unsent (hs : s.Sound opId limit) (hk : s.task = some k)
    (hw : ∀ g, watches g k = false) {t : Txn} (ht : s.st.active = some t) :
    ∃ u, t.phase = .rollingBack ∧ t.intent = some .rollback ∧ s.decided = some u := by
  obtain ⟨-, -, hdue⟩ := hs.active t ht
  cases hdue with
  | verifying _ hi _ _ hwatch =>
    have := hwatch k hk
    rw [hw] at this
    cases this
  | unsent u hp hi hd => exact ⟨u, hp, hi, hd⟩
  | sent _ _ _ _ _ hwatch =>
    have := hwatch k hk
    rw [hw] at this
    cases this

/-- A turn in the middle of sending. -/
theorem Sound.turn_sending (hs : s.Sound opId limit) (hk : s.task = some k)
    (hw : ∀ g, watches g k = false)
    (hact : (k.turn cfg bootId 0 s.st s.draining i).st.active = s.st.active) :
    (s.turned cfg bootId k i).Sound opId limit := by
  refine hs.turn_same hk hact ?_
  intro t ht hi
  obtain ⟨u, -, hi', -⟩ := hs.unsent hk hw ht
  rw [hi'] at hi
  cases hi

theorem Sound.rollback {uid g : Nat} {value : String} {spec : Option Spec}
    (hs : s.Sound opId limit) (hk : s.task = some (.rollback opId uid value g spec)) :
    (s.turned cfg bootId (.rollback opId uid value g spec) i).Sound opId limit := by
  refine hs.turn_sending hk (fun _ => rfl) ?_
  simp only [Task.turn]
  split
  · rfl
  · exact (s.st.persist_frame true).1

/-- Before the rollback is sent, what is on the device decides whether it still is to be. -/
theorem rollbackRead_turn_st (opId : String) (uid : Nat) (value : String) (g : Nat) (spec : Spec)
    (cfg : Config) (bootId : String) (s : Driver) (i : Input) :
    ((Task.rollbackRead opId uid value g spec).turn cfg bootId 0 s.st s.draining i).st =
      (s.st.rollbackCheck opId i.reading).1 := by
  simp only [Task.turn]
  split
  · rfl
  · rfl
  · rfl

theorem Sound.rollbackRead {uid g : Nat} {value : String} {spec : Spec}
    (hs : s.Sound opId limit) (hk : s.task = some (.rollbackRead opId uid value g spec)) :
    (s.turned cfg bootId (.rollbackRead opId uid value g spec) i).Sound opId limit := by
  have hst := rollbackRead_turn_st opId uid value g spec cfg bootId s i
  rcases s.st.rollbackCheck_active opId i.reading with h | h
  · exact hs.turn_sending hk (fun _ => rfl) (by rw [hst, h])
  · exact hs.turn_gone hk (by rw [hst, h])

theorem Sound.rollbackSent (hs : s.Sound opId limit) (hk : s.task = some k)
    (hw : ∀ g, watches g k = false)
    (hst : (k.turn cfg bootId 0 s.st s.draining i).st = (s.st.rollbackSent opId i.now).1)
    (htask : (k.turn cfg bootId 0 s.st s.draining i).task = some (.drive opId))
    (ht : s.Timely (.turn i)) : (s.turned cfg bootId k i).Sound opId limit := by
  rcases ha : s.st.active with _ | t
  · refine hs.turn_gone hk ?_
    have hl : s.st.live opId = none := by
      rw [St.live, ha]
    rw [hst, St.rollbackSent, hl]
    exact ha
  · obtain ⟨u, hp, hi, hd⟩ := hs.unsent hk hw ha
    obtain ⟨ho, hlim, -⟩ := hs.active t ha
    have hact : (k.turn cfg bootId 0 s.st s.draining i).st.active =
        some (t.rollbackSent i.now) := by
      rw [hst, St.rollbackSent, live_of_sound hs ha]
      exact ((s.st.setActive (t.rollbackSent i.now)).persist_frame true).1
    have hsent : t.rollbackSent i.now =
        { ({ t with intent := none, waitStartMs := i.now, seenMs := i.now, refConn := t.lastConn,
                    refMs := i.now } : Txn).resetProbe with generation := t.generation + 1 } := by
      rw [Txn.rollbackSent, if_neg (not_not.mpr hp)]
    refine hs.turn_to hk hact ?_ ?_ (.sent u ?_ ?_ ?_ ?_ ?_)
    · rw [hsent]
      exact ho
    · rw [hsent]
      exact hlim
    · rw [hsent]
      exact hp
    · rw [hsent]
      rfl
    · rw [decidedAfter_rolling ha hp hact, hd]
    · have hnow := ht t u ha hp hi hd
      rw [hlim] at hnow
      rw [hsent]
      exact hnow
    · intro k' hk'
      have hk' := mem_filter_loops hk'
      rw [htask] at hk'
      cases hk'
      rfl

/-- What a beat makes of the active transaction. -/
theorem feed_turn_st {g : Nat} {r : Option Reading} {t : Txn} (hl : s.st.live opId = some t) :
    ((Task.feed opId g r).turn cfg bootId 0 s.st s.draining i).st =
        (s.st.feed opId g r i.now).1 ∧
      ((Task.feed opId g r).turn cfg bootId 0 s.st s.draining i).task = some (.drive opId) := by
  simp only [Task.turn, hl, and_self]

/-- A beat does nothing while the rollback is not sent. -/
theorem feed_active_unsent {g : Nat} {r : Option Reading} {t : Txn}
    (hl : s.st.live opId = some t) (hp : t.phase = .rollingBack)
    (hi : t.intent = some .rollback) :
    (s.st.feed opId g r i.now).1.active = some t := by
  have hf : t.phase.isFinal = false := Txn.isFinal_of_waiting (.inr hp)
  by_cases hg : t.generation = g
  · have hbeat : t.beat r i.now = t := Txn.beat_of_intent hf (by rw [hi]; simp) r i.now
    have hf' : (t.beat r i.now).phase.isFinal = false := by
      rw [hbeat]
      exact hf
    have hopen := St.feed_active_open hl hf'
    rw [hbeat] at hopen
    rw [← hg]
    exact hopen
  · rw [St.feed, hl]
    dsimp only
    rw [if_pos hg]
    exact active_of_live hl

theorem Sound.feed {g : Nat} {r : Option Reading} (hs : s.Sound opId limit)
    (hk : s.task = some (.feed opId g r)) :
    (s.turned cfg bootId (.feed opId g r) i).Sound opId limit := by
  rcases ha : s.st.active with _ | t
  · have hl : s.st.live opId = none := by
      rw [St.live, ha]
    refine hs.turn_gone hk ?_
    simp only [Task.turn, hl]
    exact ha
  have hl := live_of_sound hs ha
  obtain ⟨hst, htask⟩ := @feed_turn_st opId cfg bootId s i g r t hl
  have hdrive : ∀ g' k', ((Task.feed opId g r).turn cfg bootId 0 s.st s.draining i).task.filter
      loops = some k' → watches g' k' = true := by
    intro g' k' hk'
    have hk' := mem_filter_loops hk'
    rw [htask] at hk'
    cases hk'
    rfl
  obtain ⟨ho, hlim, hdue⟩ := hs.active t ha
  cases hdue with
  | unsent u hp hi hd =>
    refine hs.turn_same hk ?_ ?_
    · rw [hst, feed_active_unsent hl hp hi, ha]
    · intro t' ht' hi'
      rw [ha] at ht'
      cases ht'
      rw [hi] at hi'
      cases hi'
  | verifying hp hi he hd hwatch =>
    obtain rfl : g = t.generation := of_decide_eq_true (hwatch _ hk)
    have hbeat := Txn.beat_spec (.inl hp) hi r i.now
    cases hbeat with
    | ended hf => exact hs.turn_gone hk (by rw [hst, St.feed_active_final hl hf])
    | wait h hdl =>
      have hp' : (t.beat r i.now).phase = .verifying := h.phase.trans hp
      have hact := St.feed_active_open hl (Txn.isFinal_of_waiting (.inl hp'))
      rw [← hst] at hact
      refine hs.turn_to hk hact ?_ ?_ (.verifying hp' ?_ ?_ ?_ (hdrive _))
      · exact (congrArg Txn.Ident.opId h.ident).trans ho
      · exact h.deadlineMs.trans hlim
      · exact h.intent.trans hi
      · exact h.waitStartMs.trans he
      · rw [decidedAfter_verifying ha hp hact, hp', hd]
        rfl
    | roll _ hdl hp' hi' hid =>
      have hact := St.feed_active_open hl (Txn.isFinal_of_waiting (.inr hp'))
      rw [← hst] at hact
      refine hs.turn_to hk hact ?_ ?_ (.unsent i.now hp' hi' ?_)
      · exact (congrArg Txn.Ident.opId hid).trans ho
      · exact (congrArg Txn.Ident.deadlineMs hid).trans hlim
      · rw [decidedAfter_verifying ha hp hact, if_pos hp']
  | sent u hp hi hd hw hwatch =>
    obtain rfl : g = t.generation := of_decide_eq_true (hwatch _ hk)
    have hbeat := Txn.beat_spec (.inr hp) hi r i.now
    cases hbeat with
    | ended hf => exact hs.turn_gone hk (by rw [hst, St.feed_active_final hl hf])
    | wait h hdl =>
      have hp' : (t.beat r i.now).phase = .rollingBack := h.phase.trans hp
      have hact := St.feed_active_open hl (Txn.isFinal_of_waiting (.inr hp'))
      rw [← hst] at hact
      refine hs.turn_to hk hact ?_ ?_ (.sent u hp' ?_ ?_ ?_ (hdrive _))
      · exact (congrArg Txn.Ident.opId h.ident).trans ho
      · exact h.deadlineMs.trans hlim
      · exact h.intent.trans hi
      · rw [decidedAfter_rolling ha hp hact, hd]
      · rw [h.waitStartMs]
        exact hw
    | roll hv =>
      rw [hp] at hv
      cases hv

theorem Sound.sleep {g : Nat} {spec : Option Spec} (hs : s.Sound opId limit)
    (hk : s.task = some (.sleep opId g spec)) :
    (s.turned cfg bootId (.sleep opId g spec) i).Sound opId limit := by
  refine hs.turn_same hk rfl ?_
  intro t ht hi k' hk'
  have hwatch := (hs.active t ht).2.2.watch hi _ hk
  cases hk'
  split
  · rfl
  · exact hwatch

theorem Sound.read {g : Nat} {spec : Option Spec} (hs : s.Sound opId limit)
    (hk : s.task = some (.read opId g spec)) :
    (s.turned cfg bootId (.read opId g spec) i).Sound opId limit := by
  refine hs.turn_same hk ?_ ?_
  · simp only [Task.turn]
    split
    · split
      · rfl
      · split
        · rfl
        · rfl
    · rfl
  · intro t ht hi k' hk'
    have hwatch := (hs.active t ht).2.2.watch hi _ hk
    simp only [Task.turn, live_of_sound hs ht] at hk'
    split at hk'
    · split at hk'
      · cases hk'
        exact hwatch
      · cases hk'
        exact hwatch
    · cases hk'
      exact hwatch

theorem Sound.probe {g : Nat} {r : Reading} (hs : s.Sound opId limit)
    (hk : s.task = some (.probe opId g r)) :
    (s.turned cfg bootId (.probe opId g r) i).Sound opId limit := by
  refine hs.turn_same hk rfl ?_
  intro t ht hi k' hk'
  have hwatch := (hs.active t ht).2.2.watch hi _ hk
  cases hk'
  exact hwatch

theorem Sound.turn (hs : s.Sound opId limit) (hk : s.task = some k) (ht : s.Timely (.turn i)) :
    (s.turned cfg bootId k i).Sound opId limit := by
  cases hs.task k hk with
  | drive => exact hs.drive hk
  | rollback uid value g spec => exact hs.rollback hk
  | rollbackRead uid value g spec => exact hs.rollbackRead hk
  | rollbackWrite uid value => exact hs.turn_sending hk (fun _ => rfl) rfl
  | rollbackWait uid => exact hs.rollbackSent hk (fun _ => rfl) rfl rfl ht
  | rollbackSkip uid => exact hs.rollbackSent hk (fun _ => rfl) rfl rfl ht
  | sleep g spec => exact hs.sleep hk
  | read g spec => exact hs.read hk
  | probe g r => exact hs.probe hk
  | feed g r => exact hs.feed hk

end

/-! ### Calls in between -/

theorem legacyGate_active (st : St) (item : Option String) (safety : Bool) :
    (st.legacyGate item safety).1.active = st.active ∨
      (st.legacyGate item safety).1.active = none := by
  unfold St.legacyGate
  split
  · exact .inr (st.cancelActive_active .preempted)
  · rcases item with _ | item
    · exact .inl rfl
    · dsimp only
      split
      · exact .inl rfl
      · rcases ha : st.active with _ | t
        · exact .inl ha
        · dsimp only
          split
          · exact .inr (st.cancelActive_active .superseded)
          · exact .inl ha

/-- What a call does to the active transaction: nothing, unless it ends it or sends it
    back. -/
inductive Called (st : St) : Option Txn → Prop where
  | same : Called st st.active
  | gone : Called st none
  | reverted (t t' : Txn) (n : Next) (ht : st.active = some t) (hr : t.revert = .ok (t', n)) :
      Called st (some t')

/-- The sections of the sessions reap first; they do not touch the transaction. -/
theorem Called.session {st : St} (now : Nat) : Called st (st.reapSession now).1.active := by
  rw [(st.reapSession_frame now).1]
  exact .same

theorem call_active (st : St) (draining : Bool) (c : Call) :
    Called st (c.turn st draining).st.active := by
  cases c with
  | revert opId =>
    simp only [Call.turn, St.revert]
    rcases hl : st.live opId with _ | t
    · exact .same
    · dsimp only
      rcases hr : t.revert with e | ⟨t', n⟩
      · exact .same
      · dsimp only
        rw [((st.setActive t').persist_frame true).1]
        exact .reverted t t' n (St.live_eq_some.mp hl).1 hr
  | keep opId =>
    simp only [Call.turn, St.keep]
    rcases hl : st.live opId with _ | t
    · exact .same
    · dsimp only
      rcases hr : t.keep with e | t'
      · exact .same
      · dsimp only
        rw [St.finish_final (st.setActive_active t') (Txn.keep_final hr).2,
          (St.retire_active (st.setActive_active t')).1]
        exact .gone
  | preempt =>
    have h := st.cancelActive_active .preempted
    simp only [Call.turn, St.preempt, St.dropLegacy]
    rw [h]
    exact .gone
  | otherWrite source =>
    simp only [Call.turn, St.otherWrite]
    rcases ha : st.active with _ | t
    · dsimp only
      rw [ha]
      exact .gone
    · dsimp only
      split
      · exact .same
      · dsimp only
        rw [St.cancelActive_active]
        exact .gone
  | interrupt source what =>
    simp only [Call.turn, St.interrupt]
    rcases ha : st.active with _ | t
    · dsimp only
      rw [ha]
      exact .gone
    · dsimp only
      rw [St.cancelActive_active]
      exact .gone
  | legacyGate item safety =>
    rcases legacyGate_active st item safety with h | h
    · simp only [Call.turn]
      rw [h]
      exact .same
    · simp only [Call.turn]
      rw [h]
      exact .gone
  | enqueueLegacy item action params now => exact .same
  | clearLegacy why => exact .same
  | sessionOpen source id now =>
    simp only [Call.turn, St.sessionOpen]
    split
    · exact .session now
    · split
      · exact .session now
      · exact .session now
  | sessionRenew id now =>
    simp only [Call.turn, St.sessionRenew]
    split
    · split
      · exact .session now
      · exact .session now
    · exact .session now
  | sessionClose id result now =>
    simp only [Call.turn, St.sessionClose]
    split
    · split
      · exact .session now
      · exact .session now
    · exact .session now
  | sessionGate action session now =>
    simp only [Call.turn, St.sessionGate]
    split
    · split
      · exact .session now
      · split
        · exact .session now
        · exact .session now
    · split
      · exact .session now
      · exact .session now
  | ack opId source =>
    simp only [Call.turn, St.ack]
    split
    · exact .same
    · split
      · exact .same
      · split
        · exact .same
        · exact .same
  | noticeAck source =>
    simp only [Call.turn, St.noticeAck]
    split
    · exact .same
    · exact .same
  | publishNow => exact .same

theorem Sound.call {opId : String} {limit : Nat} {s : Driver} (hs : s.Sound opId limit) (c : Call)
    (now : Nat) : (s.called c now).Sound opId limit := by
  refine ⟨hs.task, fun t' ht' => ?_⟩
  have hact : (c.turn s.st s.draining).st.active = some t' := ht'
  have hcall := call_active s.st s.draining c
  generalize hnew : (c.turn s.st s.draining).st.active = new at hcall
  cases hcall with
  | same =>
    obtain ⟨ho, hlim, hdue⟩ := hs.active t' (hnew ▸ hact)
    have hdec : (s.called c now).decided = s.decided := decidedAfter_same hnew now
    rw [hdec]
    exact ⟨ho, hlim, hdue⟩
  | gone =>
    rw [hnew] at hact
    cases hact
  | reverted t t₁ n ht hr =>
    rw [hnew] at hact
    cases hact
    obtain ⟨ho, hlim, hdue⟩ := hs.active t ht
    obtain ⟨hv, -, rfl⟩ := Txn.revert_eq hr
    have hdec : (s.called c now).decided = some now := by
      exact decidedAfter_verifying ht hv hnew now
    exact ⟨ho, hlim, .unsent now rfl rfl hdec⟩

theorem Sound.step {opId : String} {limit : Nat} {cfg : Config} {bootId : String}
    {s s' : Driver} {a : Act} (hs : s.Sound opId limit) (ht : s.Timely a)
    (h : s.next cfg bootId a = some s') : s'.Sound opId limit := by
  unfold next at h
  split at h
  · cases a with
    | turn i =>
      obtain ⟨k, hk, rfl⟩ := Option.map_eq_some_iff.mp h
      exact hs.turn hk ht
    | call c now =>
      cases h
      exact hs.call c now
  · cases h

/-! ### The deadlines -/

/-- After a beat past its deadline a transaction is not verifying any more. -/
theorem Sound.beat_verifying {opId : String} {limit : Nat} {cfg : Config} {bootId : String}
    {s : Driver} {i : Input} {g : Nat} {r : Option Reading} (hs : s.Sound opId limit)
    (hk : s.task = some (.feed opId g r)) (hnow : s.entered + limit ≤ i.now) {t' : Txn}
    (ht' : (s.turned cfg bootId (.feed opId g r) i).st.active = some t') :
    t'.phase ≠ .verifying := by
  intro hv'
  rcases ha : s.st.active with _ | t
  · have hl : s.st.live opId = none := by
      rw [St.live, ha]
    simp only [turned, Task.turn, hl, ha] at ht'
    cases ht'
  have hl := live_of_sound hs ha
  have ht' : (s.st.feed opId g r i.now).1.active = some t' :=
    (@feed_turn_st opId cfg bootId s i g r t hl).1 ▸ ht'
  obtain ⟨-, hlim, hdue⟩ := hs.active t ha
  cases hdue with
  | unsent u hp hi hd =>
    rw [feed_active_unsent hl hp hi] at ht'
    cases ht'
    rw [hp] at hv'
    cases hv'
  | verifying hp hi he hd hwatch =>
    obtain rfl : g = t.generation := of_decide_eq_true (hwatch _ hk)
    cases Txn.beat_spec (.inl hp) hi r i.now with
    | ended hf =>
      rw [St.feed_active_final hl hf] at ht'
      cases ht'
    | wait h hdl => omega
    | roll _ _ hp' _ _ =>
      rw [St.feed_active_open hl (Txn.isFinal_of_waiting (.inr hp'))] at ht'
      cases ht'
      rw [hp'] at hv'
      cases hv'
  | sent u hp hi hd hw hwatch =>
    obtain rfl : g = t.generation := of_decide_eq_true (hwatch _ hk)
    cases Txn.beat_spec (.inr hp) hi r i.now with
    | ended hf =>
      rw [St.feed_active_final hl hf] at ht'
      cases ht'
    | wait h hdl =>
      rw [St.feed_active_open hl (Txn.isFinal_of_waiting (h.waits (.inr hp)))] at ht'
      cases ht'
      rw [h.phase, hp] at hv'
      cases hv'
    | roll hv =>
      rw [hp] at hv
      cases hv

/-- A rollback that was sent in time ends by the first beat past its own deadline. -/
theorem Sound.beat_rolling {opId : String} {limit : Nat} {cfg : Config} {bootId : String}
    {s : Driver} {i : Input} {g u : Nat} {r : Option Reading} (hs : s.Sound opId limit)
    (hpos : 0 < limit) (hk : s.task = some (.feed opId g r)) (ht : s.Timely (.turn i))
    (hu : s.decided = some u) (hnow : u + 2 * limit ≤ i.now) :
    (s.turned cfg bootId (.feed opId g r) i).st.active = none := by
  rcases ha : s.st.active with _ | t
  · have hl : s.st.live opId = none := by
      rw [St.live, ha]
    simp only [turned, Task.turn, hl, ha]
  have hl := live_of_sound hs ha
  have hst := (@feed_turn_st opId cfg bootId s i g r t hl).1
  obtain ⟨-, hlim, hdue⟩ := hs.active t ha
  cases hdue with
  | unsent u' hp hi hd =>
    have hlate : i.now ≤ u' + t.deadlineMs := ht t u' ha hp hi hd
    rw [hu] at hd
    cases hd
    omega
  | verifying hp hi he hd hwatch =>
    rw [hu] at hd
    cases hd
  | sent u' hp hi hd hw hwatch =>
    obtain rfl : g = t.generation := of_decide_eq_true (hwatch _ hk)
    rw [hu] at hd
    cases hd
    cases Txn.beat_spec (.inr hp) hi r i.now with
    | ended hf =>
      simp only [turned, hst]
      exact St.feed_active_final hl hf
    | wait h hdl => omega
    | roll hv =>
      rw [hp] at hv
      cases hv

/-- **No transaction holds the lock forever**, if its rollback is sent within the deadline
    after it was decided.  In every such run, a beat at `entered + deadline` or later leaves
    nothing verifying, and a beat at twice the deadline after the decision or later leaves
    nothing at all. -/
theorem beat_deadline (cfg : Config) (bootId : String) {s₀ s s' : Driver} {t : Txn} {i : Input}
    (h₀ : s₀.Begins t) (h : Exec (next cfg bootId) Timely s₀ s) (hb : s.atBeat = true)
    (ht : s.Timely (.turn i)) (hn : s.next cfg bootId (.turn i) = some s') :
    (s.entered + t.deadlineMs ≤ i.now →
        ∀ t', s'.st.active = some t' → t'.phase ≠ .verifying) ∧
      (∀ u, s.decided = some u → u + 2 * t.deadlineMs ≤ i.now → s'.st.active = none) := by
  have hs : s.Sound t.opId t.deadlineMs :=
    h.invariant _ (fun hs ht hn => hs.step ht hn) h₀.sound
  unfold next at hn
  split at hn
  · obtain ⟨k, hk, rfl⟩ := Option.map_eq_some_iff.mp hn
    have hloop := hs.task k hk
    rw [atBeat, hk] at hb
    cases hloop with
    | feed g r =>
      exact ⟨fun hnow t' ht' => hs.beat_verifying hk hnow ht',
        fun u hu hnow => hs.beat_rolling h₀.deadline hk ht hu hnow⟩
    | drive => cases hb
    | rollback => cases hb
    | rollbackRead => cases hb
    | rollbackWrite => cases hb
    | rollbackWait => cases hb
    | rollbackSkip => cases hb
    | sleep => cases hb
    | read => cases hb
    | probe => cases hb
  · cases hn

/-- A change of the network mode whose write came back at 0. -/
def sampleTxn : Txn := (Txn.started Txn.sampleNew 0 true).applied .done 0

def sampleDriver : Driver where
  st := { active := some sampleTxn }
  task := some (.drive sampleTxn.opId)

theorem sampleDriver_begins : sampleDriver.Begins sampleTxn :=
  ⟨rfl, rfl, by decide, .inl ⟨rfl, rfl, rfl, rfl⟩⟩

/-- The device cannot be read until the deadline; a rollback is decided. -/
def silentRun : List Act :=
  [.turn {}, .turn { now := 119990 }, .turn { now := 119995 }, .turn { now := 120000 }]

/-- The card of the change is read and the old value written back. -/
def sentRun : List Act :=
  silentRun ++
    [.turn { now := 120001 }, .turn { now := 120002 },
      .turn { now := 120003, reading := .ok (Txn.sampleReading "Only_LTE" "8986001") },
      .turn { now := 120004 }, .turn { now := 120010, written := .ok .null },
      .turn { now := 120011 }, .turn { now := 125011 }, .turn { now := 125012 }]

/-- The card cannot be read either when the rollback is to be sent. -/
def unsentRun : List Act :=
  silentRun ++
    [.turn { now := 120001 }, .turn { now := 120002 }, .turn { now := 120003 },
      .turn { now := 125003 }, .turn { now := 125004 }]

/-- `Timely`, as a test. -/
def timely (s : Driver) (a : Act) : Bool :=
  match s.st.active, s.decided with
  | some t, some u =>
      decide (t.phase = .rollingBack → t.intent = some .rollback → a.now ≤ u + t.deadlineMs)
  | _, _ => true

theorem Timely.of_test (s : Driver) (a : Act) (h : s.timely a = true) : s.Timely a := by
  intro t u ht hp hi hu
  rw [timely, ht, hu] at h
  exact of_decide_eq_true h hp hi

theorem beat_deadline_sent :
    ∃ s s', Exec (next World.sampleConfig "b1") Timely sampleDriver s ∧
      s.next World.sampleConfig "b1" (.turn { now := 360000 }) = some s' ∧
      s'.st.active = none := by
  have hrun : (run (next World.sampleConfig "b1") timely sampleDriver sentRun).any (fun s =>
      s.atBeat && s.timely (.turn { now := 360000 }) && decide (s.decided = some 120000) &&
        (s.next World.sampleConfig "b1" (.turn { now := 360000 })).isSome) = true := by
    decide +kernel
  obtain ⟨s, hs, h⟩ := Exec.exists_of_run Timely.of_test (.refl _) hrun
  simp only [Bool.and_eq_true, decide_eq_true_eq] at h
  obtain ⟨⟨⟨hb, ht⟩, hd⟩, hn⟩ := h
  obtain ⟨s', hn⟩ := Option.isSome_iff_exists.mp hn
  have h := beat_deadline World.sampleConfig "b1" sampleDriver_begins hs hb
    (Timely.of_test _ _ ht) hn
  exact ⟨s, s', hs, hn, h.2 120000 hd (by decide)⟩

/-- A rollback whose card cannot be read is held past twice its deadline. -/
theorem beat_past_deadline :
    ∃ s s', Exec (next World.sampleConfig "b1") (fun _ _ => True) sampleDriver s ∧
      s.atBeat = true ∧ s.decided = some 120000 ∧
      s.next World.sampleConfig "b1" (.turn { now := 120000 + 2 * sampleTxn.deadlineMs }) =
        some s' ∧ s'.st.active ≠ none := by
  have hrun : (run (next World.sampleConfig "b1") (fun _ _ => true) sampleDriver
      unsentRun).any (fun s => s.atBeat && decide (s.decided = some 120000) &&
        (s.next World.sampleConfig "b1"
          (.turn { now := 120000 + 2 * sampleTxn.deadlineMs })).any fun s' =>
            s'.st.active.isSome) = true := by decide +kernel
  obtain ⟨s, hs, h⟩ := Exec.exists_of_run (fun _ _ _ => trivial) (.refl _) hrun
  simp only [Bool.and_eq_true, decide_eq_true_eq, Option.any_eq_true] at h
  obtain ⟨⟨hb, hd⟩, s', hn, hheld⟩ := h
  exact ⟨s, s', hs, hb, hd, hn, Option.isSome_iff_ne_none.mp hheld⟩

end Driver

end Datad
