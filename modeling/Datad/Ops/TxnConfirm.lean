/-
  Datad/Ops/TxnConfirm.lean
  =========================
  **When a reading confirms.**  `Txn.onReading` composes the SIM check, the
  readback, the data condition, the new-connection rule of an APN, the probe
  bookkeeping and the deadline.  This module states the condition a reading has
  to meet in one place (`Txn.Observed`, `Txn.DataUp`) and proves that the
  composition accepts exactly the readings that meet it, whatever the clock says.
-/
import Datad.Ops.TxnInvariant

namespace Datad

namespace Txn

/-! ### The conditions -/

/-- The connection was made after the write (or after the rollback). -/
def NewConnection (t : Txn) (c : Conn) : Prop :=
  t.refMs = 0 ∨ (∃ ref, t.refConn = some ref ∧ c.addr ≠ ref.addr) ∨
    ∃ since, c.upSinceMs = some since ∧ t.refMs < since

/-- The card is the captured one, the value is back, the modem is registered. -/
structure Observed (t : Txn) (r : Reading) (value : String) : Prop where
  sim : simCheck t.sim r.sim = .same
  value : r.value = some value
  registered : r.registered = true

/-- Data is expected and flows; for an APN over a new connection. -/
structure DataUp (t : Txn) (r : Reading) (d : DataPath) : Prop where
  expected : d.expected = some true
  connected : d.connected = true
  address : d.conn.ipv4 ≠ "" ∨ d.conn.ipv6 ≠ ""
  probed : r.probe = some true
  fresh : t.confirm = .apn → t.NewConnection d.conn

theorem newConn_iff (t : Txn) (c : Conn) : t.newConn c = true ↔ t.NewConnection c := by
  rw [newConn, NewConnection]
  simp only [Bool.or_eq_true, decide_eq_true_eq, or_assoc]
  refine or_congr Iff.rfl (or_congr ?_ ?_)
  · cases t.refConn with
    | none => simp
    | some ref =>
      simp only [decide_eq_true_eq, Option.some.injEq, exists_eq_left']
      exact ne_comm
  · cases c.upSinceMs with
    | none => simp
    | some since => simp

theorem addr_ne_empty_iff (c : Conn) : c.addr ≠ "" ↔ c.ipv4 ≠ "" ∨ c.ipv6 ≠ "" := by
  rw [Conn.addr]
  by_cases h : c.ipv4 = ""
  · simp [h]
  · simp [h]

/-! ### The data condition -/

theorem dataJudge_ok_iff (t : Txn) (r : Reading) :
    (t.dataJudge r).2 = .ok ↔ ∃ d, r.data = some d ∧
      ((d.expected = some false ∧ ¬ (t.confirm = .apn ∧ t.phase = .verifying)) ∨
        t.DataUp r d) := by
  rw [dataJudge, dataGate]
  cases hd : r.data with
  | none => simp
  | some d =>
    simp only [Option.some.injEq, exists_eq_left']
    cases he : d.expected with
    | none =>
      constructor
      · intro h; cases h
      · rintro (⟨h, -⟩ | h)
        · cases h
        · exact absurd h.expected (by rw [he]; exact nofun)
    | some e =>
      cases e with
      | false =>
        have hup : ¬ t.DataUp r d := fun h => by
          have := h.expected
          rw [he] at this
          cases this
        cases hc : t.confirm <;> cases hp : t.phase <;> simp [hup]
      | true =>
        by_cases hcon : d.connected = true ∧ (d.conn.ipv4 ≠ "" ∨ d.conn.ipv6 ≠ "")
        · obtain ⟨hc, ha⟩ := hcon
          have haddr := (addr_ne_empty_iff d.conn).mpr ha
          by_cases hnew : t.confirm = .apn ∧ ¬ t.NewConnection d.conn
          · have hb : t.newConn d.conn = false := by
              rw [Bool.eq_false_iff, ne_eq, newConn_iff]
              exact hnew.2
            have hno : ¬ t.DataUp r d := fun h => hnew.2 (h.fresh hnew.1)
            simp [hc, haddr, hnew.1, hb, hno]
          · have hfresh : t.confirm = .apn → t.NewConnection d.conn :=
              fun h => by_contra fun hn => hnew ⟨h, hn⟩
            have hgate : (decide (t.confirm = .apn) && !t.newConn d.conn) = false := by
              by_cases hcf : t.confirm = .apn
              · simp [(newConn_iff t d.conn).mpr (hfresh hcf)]
              · simp [hcf]
            by_cases hprobe : r.probe = some true
            · have hup : t.DataUp r d := ⟨he, hc, ha, hprobe, hfresh⟩
              simp [hc, haddr, hgate, hprobe, hup]
            · have hup : ¬ t.DataUp r d := fun h => hprobe h.probed
              simp [hc, haddr, hgate, hprobe, hup]
        · have hno : ¬ t.DataUp r d := fun h => hcon ⟨h.connected, h.address⟩
          have hgate : (!d.connected || decide (d.conn.addr = "")) = true := by
            by_cases hc : d.connected = true
            · have ha : ¬ d.conn.addr ≠ "" := fun h =>
                hcon ⟨hc, (addr_ne_empty_iff d.conn).mp h⟩
              simp [not_not.mp ha]
            · simp [hc]
          simp [hgate, hno]

theorem dataJudge_apnNoData_iff (t : Txn) (r : Reading) :
    (t.dataJudge r).2 = .apnNoData ↔ ∃ d, r.data = some d ∧ d.expected = some false ∧
      t.confirm = .apn ∧ t.phase = .verifying := by
  rw [dataJudge, dataGate]
  cases hd : r.data with
  | none => simp
  | some d =>
    simp only [Option.some.injEq, exists_eq_left']
    cases he : d.expected with
    | none => simp
    | some e =>
      cases e with
      | false => cases hc : t.confirm <;> cases hp : t.phase <;> simp
      | true =>
        constructor
        · intro h
          dsimp only at h
          split at h
          · rename_i heq
            split at heq
            · cases heq
            · split at heq <;> cases heq
          · split at h <;> cases h
          · cases h
        · rintro ⟨h, -⟩
          cases h

/-! ### The beat -/

/-- The deadline alone never confirms anything. -/
theorem onTick_phase (t : Txn) (now : Nat) :
    (t.onTick now).1.phase = t.phase ∨ (t.onTick now).1.phase = .rollbackFailed ∨
      (t.onTick now).1.phase = .notApplied ∨ (t.onTick now).1.phase = .rollingBack ∨
      (t.onTick now).1.phase = .unverified := by
  rw [onTick]
  split
  · exact .inl rfl
  · split
    · exact .inl rfl
    · dsimp only
      split
      · exact .inl rfl
      · split
        · exact .inr (.inl rfl)
        · split
          · exact .inr (.inr (.inl rfl))
          · rw [expire]
            split
            · exact .inr (.inr (.inr (.inl rfl)))
            · exact .inr (.inr (.inr (.inr rfl)))

theorem onTick_not_confirmed {t : Txn} (now : Nat) (hp : t.phase ≠ .confirmed) :
    (t.onTick now).1.phase ≠ .confirmed := by
  rcases onTick_phase t now with h | h | h | h | h <;> rw [h]
  · exact hp
  all_goals decide

theorem onTick_not_rolledBack {t : Txn} (now : Nat) (hp : t.phase ≠ .rolledBack) :
    (t.onTick now).1.phase ≠ .rolledBack := by
  rcases onTick_phase t now with h | h | h | h | h <;> rw [h]
  · exact hp
  all_goals decide

/-- The readback of a verifying transaction, by the verdict on the data. -/
theorem judgeVerifying_confirmed_iff (t : Txn) (r : Reading) (v : String) (now clock : Nat)
    (hp : t.phase = .verifying) :
    ((t.judgeVerifying r v now).1.conclude (t.judgeVerifying r v now).2 clock).1.phase =
        .confirmed ↔
      v = t.target ∧ r.registered = true ∧ (t.dataJudge r).2 = .ok := by
  have htick : ∀ t' : Txn, t'.phase = .verifying → ¬ (t'.onTick clock).1.phase = .confirmed :=
    fun t' h => onTick_not_confirmed clock (by rw [h]; decide)
  rw [judgeVerifying]
  by_cases hv : v = t.target
  · rw [if_pos hv]
    by_cases hr : r.registered = true
    · have hsame : (dataJudge { t with everMatched := true } r).2 = (t.dataJudge r).2 := rfl
      simp only [hr, if_true, hv, true_and, hsame]
      cases hj : (t.dataJudge r).2 with
      | ok => simp [conclude, finish, step]
      | apnNoData => simp [conclude, finish, step]
      | notYet =>
        simp only [conclude, reduceCtorEq, iff_false]
        exact htick _ hp
    · simp only [hr, Bool.false_eq_true, if_false, false_and, and_false, iff_false, conclude]
      exact htick _ hp
  · rw [if_neg hv]
    simp only [hv, false_and, iff_false]
    split
    · split
      · exact nofun
      · split
        · exact nofun
        · exact htick t hp
    · split
      · exact nofun
      · exact htick t hp

theorem judgeVerifying_verified (t : Txn) (r : Reading) (v : String) (now clock : Nat)
    (hv : v = t.target) (hr : r.registered = true) (hj : (t.dataJudge r).2 = .ok) :
    ((t.judgeVerifying r v now).1.conclude (t.judgeVerifying r v now).2 clock).1.reason =
      some .verified := by
  have hsame : (dataJudge { t with everMatched := true } r).2 = (t.dataJudge r).2 := rfl
  rw [judgeVerifying]
  simp only [hv, hr, if_true, hsame, hj]
  rfl

theorem judgeVerifying_apnNoData (t : Txn) (r : Reading) (v : String) (now clock : Nat)
    (hv : v = t.target) (hr : r.registered = true) (hj : (t.dataJudge r).2 = .apnNoData) :
    ((t.judgeVerifying r v now).1.conclude (t.judgeVerifying r v now).2 clock).1.phase =
        .unverified ∧
      ((t.judgeVerifying r v now).1.conclude (t.judgeVerifying r v now).2 clock).1.reason =
        some .apnNoData := by
  have hsame : (dataJudge { t with everMatched := true } r).2 = (t.dataJudge r).2 := rfl
  rw [judgeVerifying]
  simp only [hv, hr, if_true, hsame, hj]
  exact ⟨rfl, rfl⟩

theorem judgeRollback_rolledBack_iff (t : Txn) (r : Reading) (v : String) (clock : Nat)
    (hp : t.phase = .rollingBack) :
    ((t.judgeRollback r v).1.conclude (t.judgeRollback r v).2 clock).1.phase = .rolledBack ↔
      v = t.rollbackTo ∧ r.registered = true ∧ (t.dataJudge r).2 ≠ .notYet := by
  have htick : ∀ t' : Txn, t'.phase = .rollingBack → ¬ (t'.onTick clock).1.phase = .rolledBack :=
    fun t' h => onTick_not_rolledBack clock (by rw [h]; decide)
  rw [judgeRollback]
  by_cases hv : v = t.rollbackTo
  · rw [if_pos hv]
    by_cases hr : r.registered = true
    · simp only [hr, if_true, hv, true_and]
      by_cases hj : (t.dataJudge r).2 = .notYet
      · simp only [hj, ne_eq, not_true_eq_false, if_false, iff_false, conclude]
        exact htick _ hp
      · simp only [hj, ne_eq, not_false_eq_true, if_true, iff_true]
        rfl
    · simp only [hr, Bool.false_eq_true, if_false, false_and, and_false, iff_false, conclude]
      exact htick _ hp
  · rw [if_neg hv]
    simp only [hv, false_and, iff_false]
    split
    · exact nofun
    · exact htick t hp

/-- What `onReading` has noted when it comes to the value. -/
def noted (t : Txn) (r : Reading) (now : Nat) : Txn :=
  { { t with seenMs := now }.noteConn r with registered := r.registered }.noteProbe r now

theorem noted_frame (t : Txn) (r : Reading) (now : Nat) :
    (t.noted r now).phase = t.phase ∧ (t.noted r now).target = t.target ∧
      (t.noted r now).rollbackTo = t.rollbackTo ∧ (t.noted r now).confirm = t.confirm ∧
      (t.noted r now).refMs = t.refMs ∧ (t.noted r now).refConn = t.refConn := by
  rw [noted, noteProbe, noteConn]
  cases r.probe <;> cases r.data <;> exact ⟨rfl, rfl, rfl, rfl, rfl, rfl⟩

theorem dataJudge_congr {t t' : Txn} (r : Reading) (hp : t'.phase = t.phase)
    (hc : t'.confirm = t.confirm) (hm : t'.refMs = t.refMs) (hr : t'.refConn = t.refConn) :
    (t'.dataJudge r).2 = (t.dataJudge r).2 := by
  unfold dataJudge dataGate newConn
  rw [hp, hc, hm, hr]

/-- A beat of a counting transaction with the captured card and a value. -/
theorem onReading_of_same {t : Txn} {r : Reading} {now : Nat} {v : String}
    (hw : t.phase = .verifying ∨ t.phase = .rollingBack) (hi : t.intent = none)
    (hs : simCheck t.sim r.sim = .same) (hval : r.value = some v) :
    t.onReading r now =
      (((t.noted r now).noteValue v).judgeValue r v now).1.conclude
        (((t.noted r now).noteValue v).judgeValue r v now).2 now := by
  have hf := isFinal_of_waiting hw
  have hwait : t.waiting = true := by
    rw [waiting]
    rcases hw with h | h <;> rw [h]
  have hsim : (noteConn { t with seenMs := now } r).sim = t.sim :=
    congrArg Ident.sim (noteConn_frame { t with seenMs := now } r).2.1
  have hgate : ¬ (!t.waiting || t.intent.isSome) = true := by simp [hwait, hi]
  rw [onReading]
  rw [if_neg (Bool.eq_false_iff.mp hf), if_neg hgate]
  dsimp only
  rw [hsim, hs]
  rw [judge, noted]
  simp only [hval]

/-- A beat of a counting transaction without a value, or with another card, or
    with a card that cannot be told, ends in none of the confirming phases. -/
theorem onReading_unjudged {t : Txn} {r : Reading} {now : Nat}
    (hw : t.phase = .verifying ∨ t.phase = .rollingBack)
    (h : ¬ (simCheck t.sim r.sim = .same ∧ ∃ v, r.value = some v)) :
    (t.onReading r now).1.phase ≠ .confirmed ∧ (t.onReading r now).1.phase ≠ .rolledBack := by
  have hstill : ∀ t' : Txn, t'.phase = t.phase →
      t'.phase ≠ .confirmed ∧ t'.phase ≠ .rolledBack := by
    intro t' h'
    rw [h']
    rcases hw with hv | hv <;> rw [hv] <;> decide
  have htick : ∀ t' : Txn, t'.phase = t.phase →
      (t'.onTick now).1.phase ≠ .confirmed ∧ (t'.onTick now).1.phase ≠ .rolledBack :=
    fun t' h' => ⟨onTick_not_confirmed now (hstill t' h').1,
      onTick_not_rolledBack now (hstill t' h').2⟩
  obtain ⟨hctl, hid, -, -⟩ := noteConn_frame { t with seenMs := now } r
  rw [onReading]
  split
  · exact hstill t rfl
  · split
    · exact hstill t rfl
    · dsimp only
      generalize noteConn { t with seenMs := now } r = t₁ at hctl hid ⊢
      have hp₁ : t₁.phase = t.phase := congrArg Ctl.phase hctl
      have hsim : t₁.sim = t.sim := congrArg Ident.sim hid
      rw [hsim]
      cases hs : simCheck t.sim r.sim with
      | changed => exact ⟨nofun, nofun⟩
      | unknown => exact htick t₁ hp₁
      | same =>
        obtain ⟨hctl₂, -, -, -⟩ := noteProbe_frame { t₁ with registered := r.registered } r now
        have hval : r.value = none := by
          cases hv : r.value with
          | none => rfl
          | some v => exact absurd ⟨hs, v, hv⟩ h
        rw [judge]
        simp only [hval]
        exact htick _ ((congrArg Ctl.phase hctl₂).trans hp₁)

/-- The data condition does not look at what a beat notes. -/
theorem noted_dataJudge (t : Txn) (r : Reading) (now : Nat) (v : String) :
    (((t.noted r now).noteValue v).dataJudge r).2 = (t.dataJudge r).2 := by
  obtain ⟨hp, -, -, hc, hm, hr⟩ := noted_frame t r now
  exact dataJudge_congr r hp hc hm hr

theorem onReading_confirmed_iff (t : Txn) (r : Reading) (now : Nat) (hi : t.intent = none)
    (hp : t.phase = .verifying) :
    (t.onReading r now).1.phase = .confirmed ∧ (t.onReading r now).1.reason = some .verified ↔
      t.Observed r t.target ∧ (t.dataJudge r).2 = .ok := by
  obtain ⟨hnp, hnt, -⟩ := noted_frame t r now
  have hbeat : ∀ v, r.value = some v → simCheck t.sim r.sim = .same →
      t.onReading r now =
        (((t.noted r now).noteValue v).judgeVerifying r v now).1.conclude
          (((t.noted r now).noteValue v).judgeVerifying r v now).2 now := by
    intro v hval hs
    have hv : ((t.noted r now).noteValue v).phase = .verifying := hnp.trans hp
    rw [onReading_of_same (.inl hp) hi hs hval, judgeValue, if_pos hv]
  constructor
  · rintro ⟨hconf, -⟩
    by_cases hjudged : simCheck t.sim r.sim = .same ∧ ∃ v, r.value = some v
    · obtain ⟨hs, v, hval⟩ := hjudged
      rw [hbeat v hval hs, judgeVerifying_confirmed_iff ((t.noted r now).noteValue v) r v now now
        (hnp.trans hp), noted_dataJudge] at hconf
      obtain ⟨hv, hr, hj⟩ := hconf
      exact ⟨⟨hs, by rw [hval, hv]; exact congrArg some hnt, hr⟩, hj⟩
    · exact absurd hconf (onReading_unjudged (.inl hp) hjudged).1
  · rintro ⟨hobs, hj⟩
    have hj' := (noted_dataJudge t r now t.target).trans hj
    rw [hbeat t.target hobs.value hobs.sim]
    exact ⟨(judgeVerifying_confirmed_iff ((t.noted r now).noteValue t.target) r _ now now
        (hnp.trans hp)).mpr ⟨hnt.symm, hobs.registered, hj'⟩,
      judgeVerifying_verified ((t.noted r now).noteValue t.target) r _ now now hnt.symm
        hobs.registered hj'⟩

theorem onReading_rolledBack_iff (t : Txn) (r : Reading) (now : Nat) (hi : t.intent = none)
    (hp : t.phase = .rollingBack) :
    (t.onReading r now).1.phase = .rolledBack ↔
      t.Observed r t.rollbackTo ∧ (t.dataJudge r).2 ≠ .notYet := by
  obtain ⟨hnp, -, hnr, -⟩ := noted_frame t r now
  have hbeat : ∀ v, r.value = some v → simCheck t.sim r.sim = .same →
      ((t.onReading r now).1.phase = .rolledBack ↔
        v = t.rollbackTo ∧ r.registered = true ∧ (t.dataJudge r).2 ≠ .notYet) := by
    intro v hval hs
    have hv : ((t.noted r now).noteValue v).phase = .rollingBack := hnp.trans hp
    rw [onReading_of_same (.inr hp) hi hs hval, judgeValue, if_neg (by rw [hv]; decide),
      judgeRollback_rolledBack_iff _ r v now hv, noted_dataJudge]
    rw [show ((t.noted r now).noteValue v).rollbackTo = t.rollbackTo from hnr]
  constructor
  · intro hend
    by_cases hjudged : simCheck t.sim r.sim = .same ∧ ∃ v, r.value = some v
    · obtain ⟨hs, v, hval⟩ := hjudged
      obtain ⟨hv, hr, hj⟩ := (hbeat v hval hs).mp hend
      exact ⟨⟨hs, by rw [hval, hv], hr⟩, hj⟩
    · exact absurd hend (onReading_unjudged (.inr hp) hjudged).2
  · rintro ⟨hobs, hj⟩
    exact (hbeat t.rollbackTo hobs.value hobs.sim).mpr ⟨rfl, hobs.registered, hj⟩

/-- **A reading confirms exactly when it should.**  For a transaction that is
    verifying (or rolling back) with no write under way, at whatever clock: the
    beat ends it `confirmed/verified` (or `rolledBack`) iff the card, the value
    and the registration are right and the data condition holds.  An APN written
    where no data is expected ends `unverified/apnNoData`.  The clock does not
    occur in the condition, so an expired deadline never overrides it. -/
theorem onReading_confirms_iff (t : Txn) (r : Reading) (now : Nat) (hi : t.intent = none) :
    (t.phase = .verifying →
      ((t.onReading r now).1.phase = .confirmed ∧
          (t.onReading r now).1.reason = some .verified ↔
        t.Observed r t.target ∧ ∃ d, r.data = some d ∧
          (d.expected = some false ∧ t.confirm ≠ .apn ∨ t.DataUp r d)) ∧
      (t.Observed r t.target → (∃ d, r.data = some d ∧ d.expected = some false) →
        t.confirm = .apn →
        (t.onReading r now).1.phase = .unverified ∧
          (t.onReading r now).1.reason = some .apnNoData)) ∧
    (t.phase = .rollingBack →
      ((t.onReading r now).1.phase = .rolledBack ↔
        t.Observed r t.rollbackTo ∧ ∃ d, r.data = some d ∧
          (d.expected = some false ∨ t.DataUp r d))) := by
  refine ⟨fun hp => ⟨?_, ?_⟩, fun hp => ?_⟩
  · rw [onReading_confirmed_iff t r now hi hp, dataJudge_ok_iff]
    simp only [hp, and_true, ne_eq]
  · rintro hobs ⟨d, hd, he⟩ hapn
    obtain ⟨hnp, hnt, -⟩ := noted_frame t r now
    have hv : ((t.noted r now).noteValue t.target).phase = .verifying := hnp.trans hp
    have hj : (t.dataJudge r).2 = .apnNoData :=
      (dataJudge_apnNoData_iff t r).mpr ⟨d, hd, he, hapn, hp⟩
    rw [onReading_of_same (.inl hp) hi hobs.sim hobs.value, judgeValue, if_pos hv]
    exact judgeVerifying_apnNoData _ r _ now now hnt.symm hobs.registered
      ((noted_dataJudge t r now t.target).trans hj)
  · rw [onReading_rolledBack_iff t r now hi hp]
    refine and_congr_right fun _ => ?_
    have hno : ¬ (t.dataJudge r).2 = .apnNoData := by
      rw [dataJudge_apnNoData_iff]
      rintro ⟨d, -, -, -, hv⟩
      rw [hp] at hv
      cases hv
    have hok : (t.dataJudge r).2 ≠ .notYet ↔ (t.dataJudge r).2 = .ok := by
      cases hj : (t.dataJudge r).2 <;> simp_all
    rw [hok, dataJudge_ok_iff]
    simp [hp]

/-- A registered reading of the sample change with data up and probed. -/
def sampleConfirming : Reading where
  value := some "Only_LTE"
  registered := true
  sim := ⟨"8986001", 1⟩
  data := some
    { expected := some true, connected := true, conn := ⟨"10.0.0.7", "", some 5000⟩,
      iface := "rmnet_data0", dns := ["10.0.0.1"] }
  probe := some true

theorem sampleConfirming_confirms :
    (((started sampleNew 0 true).applied .done 10).onReading sampleConfirming 200000).1.phase =
      .confirmed := by
  refine ((onReading_confirms_iff ((started sampleNew 0 true).applied .done 10)
    sampleConfirming 200000 rfl).1 rfl).1.mpr ⟨⟨by decide, rfl, rfl⟩, _, rfl, .inr ?_⟩ |>.1
  exact ⟨rfl, rfl, .inl (by decide), rfl, fun h => absurd h (by decide)⟩

end Txn

end Datad
