/-
  Datad/Ops/ProbePace.lean
  ========================
  **How often the driver probes** (`Txn::wants_probe`, `Txn::note_probe`, `Engine::drive`).

  A DNS probe is made with a reading that lacks nothing else.  Its result is noted when
  that reading is fed, and the next probe is held back by what was noted: three failures
  on one connection make a round, and the next round waits longer.

  An observer of the driver keeps the probes of the current phase.  Each began with what
  the transaction had noted of the one before (`Probe.Before`), and from that alone follow
  the distances between them.
-/
import Datad.Lib.Ghost
import Datad.Lib.Spacing
import Datad.Ops.Deadline
import Datad.Ops.TxnConfirm
import Mathlib.Data.List.Chain

namespace Datad

open Transition

/-! ### What a beat notes -/

namespace Txn

/-- What is kept about the probes. -/
structure Probes where
  conn : Option Conn
  fails : Nat
  lastMs : Option Nat

def probes (t : Txn) : Probes := ⟨t.probeConn, t.probeFails, t.probeLastMs⟩

theorem onTick_probes {t : Txn} (hw : t.phase = .verifying ∨ t.phase = .rollingBack)
    (hi : t.intent = none) (now : Nat) :
    (t.onTick now).1.phase ≠ t.phase ∨ (t.onTick now).1.probes = t.probes := by
  have hgate : ¬ (!t.waiting || t.intent.isSome) = true := by
    rcases hw with h | h <;> simp [waiting, h, hi]
  rw [onTick, if_neg (Bool.eq_false_iff.mp (isFinal_of_waiting hw)), if_neg hgate]
  dsimp only
  split
  · exact .inr rfl
  · split
    · exact .inr rfl
    · split
      · exact .inr rfl
      · rw [expire]
        split
        · rename_i hr _ _
          exact .inl (fun h => hr (h.symm.trans rfl))
        · exact .inr rfl

theorem judgeValue_probes (t : Txn) (r : Reading) (v : String) (now : Nat) :
    (t.judgeValue r v now).1.probes = t.probes := by
  unfold judgeValue judgeVerifying judgeRollback
  split
  · split
    · dsimp only
      split
      · split
        · rfl
        · rfl
        · rfl
      · rfl
    · split
      · split
        · rfl
        · split
          · rfl
          · rfl
      · split
        · rfl
        · rfl
  · split
    · split
      · dsimp only
        split
        · rfl
        · rfl
      · rfl
    · split
      · rfl
      · rfl

theorem noteConn_probes (t : Txn) (r : Reading) : (t.noteConn r).probes = t.probes := by
  unfold noteConn
  split
  · rfl
  · rfl

/-- Noting a probe reads and writes nothing else. -/
theorem noteProbe_probes {t t' : Txn} (h : t'.probes = t.probes) (r : Reading) (now : Nat) :
    (t'.noteProbe r now).probes = (t.noteProbe r now).probes := by
  have hconn : t'.probeConn = t.probeConn := congrArg Probes.conn h
  have hfails : t'.probeFails = t.probeFails := congrArg Probes.fails h
  unfold noteProbe
  split
  · simp only [probes, hconn, hfails]
  · exact h

theorem noteProbe_none (t : Txn) {r : Reading} (h : r.probe = none) (now : Nat) :
    t.noteProbe r now = t := by
  simp [noteProbe, h]

/-- A reading that is judged leaves the phase, or its probe result is noted. -/
theorem judge_probes {t : Txn} (hw : t.phase = .verifying ∨ t.phase = .rollingBack)
    (hi : t.intent = none) (r : Reading) (now : Nat) :
    (t.judge r now).1.phase ≠ t.phase ∨
      (t.judge r now).1.probes = (t.noteProbe r now).probes := by
  have hset : Alike t { t with registered := r.registered } := ⟨rfl, rfl, rfl⟩
  have hnoted := hset.trans (noteProbe_alike _ r now)
  have hsame : ({ t with registered := r.registered } : Txn).probes = t.probes := rfl
  have hprobes : ({ t with registered := r.registered }.noteProbe r now).probes =
      (t.noteProbe r now).probes := noteProbe_probes hsame r now
  have htick : ∀ t₁, Alike t t₁ → t₁.probes = (t.noteProbe r now).probes →
      (t₁.onTick now).1.phase ≠ t.phase ∨
        (t₁.onTick now).1.probes = (t.noteProbe r now).probes := by
    intro t₁ h₁ hp
    rcases onTick_probes (h₁.waits hw) (h₁.intent.trans hi) now with h | h
    · exact .inl (h₁.phase ▸ h)
    · exact .inr (h.trans hp)
  unfold judge
  dsimp only
  rcases r.value with _ | v
  · exact htick _ hnoted hprobes
  · dsimp only
    have hvalue := judgeValue_probes
      (({ t with registered := r.registered }.noteProbe r now).noteValue v) r v now
    rcases judgeValue_alike (({ t with registered := r.registered }.noteProbe r now).noteValue v)
      r v now with ⟨hf, hs⟩ | ⟨hn, ha⟩
    · obtain ⟨n, hn⟩ := Option.isSome_iff_exists.mp hs
      rw [hn]
      exact .inr (hvalue.trans hprobes)
    · rw [hn]
      have hall : Alike t
          (({ t with registered := r.registered }.noteProbe r now).noteValue v) :=
        ⟨hnoted.ctl, hnoted.ident, hnoted.waitStartMs⟩
      exact htick _ (hall.trans ha) (hvalue.trans hprobes)

/-- **What a beat notes** of a transaction that stays in its phase. -/
theorem beat_probes {t : Txn} (hw : t.phase = .verifying ∨ t.phase = .rollingBack)
    (hi : t.intent = none) (reading : Option Reading) (now : Nat) :
    (t.beat reading now).phase ≠ t.phase ∨
      (t.beat reading now).probes = match reading with
        | some r => if simCheck t.sim r.sim = .same then (t.noteProbe r now).probes else t.probes
        | none => t.probes := by
  cases reading with
  | none => exact onTick_probes hw hi now
  | some r =>
    have hgate : ¬ (!t.waiting || t.intent.isSome) = true := by
      rcases hw with h | h <;> simp [waiting, h, hi]
    have hset : Alike t { t with seenMs := now } := ⟨rfl, rfl, rfl⟩
    have hnoted := hset.trans (noteConn_alike _ r)
    have hprobes : ({ t with seenMs := now }.noteConn r).probes = t.probes :=
      noteConn_probes _ r
    have hsim : ({ t with seenMs := now }.noteConn r).sim = t.sim :=
      congrArg Ident.sim hnoted.ident
    simp only [beat]
    rw [onReading, if_neg (Bool.eq_false_iff.mp (isFinal_of_waiting hw)), if_neg hgate]
    dsimp only
    rw [hsim]
    split
    · left
      rcases hw with h | h <;> rw [h] <;> simp [finish, step]
    · rename_i hs
      rw [if_neg (by rw [hs]; simp)]
      rcases onTick_probes (hnoted.waits hw) (hnoted.intent.trans hi) now with h | h
      · exact .inl fun he => h (he.trans hnoted.phase.symm)
      · exact .inr (h.trans hprobes)
    · rename_i hs
      rw [if_pos hs]
      rcases judge_probes (hnoted.waits hw) (hnoted.intent.trans hi) r now with h | h
      · exact .inl fun he => h (he.trans hnoted.phase.symm)
      · exact .inr (h.trans (noteProbe_probes hprobes r now))

/-! ### What is probed -/

/-- A reading that lacks nothing but the probe. -/
structure Lacking (t : Txn) (r : Reading) (d : DataPath) : Prop where
  value : r.value = some t.goal
  registered : r.registered = true
  sim : simCheck t.sim r.sim = .same
  data : r.data = some d
  expected : d.expected = some true
  connected : d.connected = true
  addr : d.conn.addr ≠ ""
  newConn : t.confirm = .apn → t.newConn d.conn = true

/-- What was noted holds the next probe back. -/
def Held (t : Txn) (d : DataPath) (now : Nat) : Prop :=
  ∀ last, t.probeLastMs = some last →
    PROBE_GAP_MS ≤ now - last ∧
      (t.probeConn.any (·.same d.conn) = true → PROBE_TRIES ≤ t.probeFails →
        PROBE_ROUND_GAP_MS ≤ now - last)

theorem dataGate_lacking {t : Txn} {r : Reading} {target : ProbeTarget}
    (h : t.dataGate r = .error (some target)) :
    ∃ d, r.data = some d ∧ d.expected = some true ∧ d.connected = true ∧ d.conn.addr ≠ "" ∧
      (t.confirm = .apn → t.newConn d.conn = true) := by
  unfold dataGate at h
  split at h
  · cases h
  · rename_i d hd
    split at h
    · cases h
    · split at h
      · cases h
      · cases h
    · rename_i he
      split at h
      · cases h
      · rename_i hc
        split at h
        · cases h
        · rename_i ha
          simp only [Bool.or_eq_true, Bool.not_eq_true', decide_eq_true_eq, not_or,
            Bool.not_eq_false] at hc
          simp only [Bool.and_eq_true, decide_eq_true_eq, Bool.not_eq_true', not_and,
            Bool.not_eq_false] at ha
          exact ⟨d, hd, he, hc.1, hc.2, ha⟩

theorem wantsProbe_spec {t : Txn} {r : Reading} {now : Nat} {target : ProbeTarget}
    (h : t.wantsProbe r now = some target) :
    (t.phase = .verifying ∨ t.phase = .rollingBack) ∧ t.intent = none ∧
      ∃ d, t.Lacking r d ∧ t.Held d now := by
  unfold wantsProbe at h
  split at h
  · cases h
  rename_i hg
  split at h
  · cases h
  rename_i hv
  split at h
  · cases h
  rename_i hs
  split at h
  · rename_i target' d hgate hd
    obtain ⟨d', hd', he, hc, ha, hn⟩ := dataGate_lacking hgate
    rw [hd] at hd'
    cases hd'
    simp only [Bool.or_eq_true, not_or] at hg
    obtain ⟨hwi, hr⟩ := hg
    obtain ⟨hw, hi⟩ := not_counting_of_guard (by simpa using hwi)
    refine ⟨hw, hi, d, ⟨not_not.mp hv, by simpa using hr, not_not.mp hs, hd, he, hc, ha, hn⟩, ?_⟩
    intro last hlast
    have hgap : (if (t.probeConn.any (·.same d.conn) && decide (t.probeFails ≥ PROBE_TRIES)) = true
        then PROBE_ROUND_GAP_MS else PROBE_GAP_MS) ≤ now - last := by
      dsimp only at h
      rw [hlast] at h
      cases hc : t.probeConn with
      | none =>
        rw [hc] at h
        exact Nat.le_of_not_lt (Option.ite_none_left_eq_some.mp h).1
      | some c =>
        rw [hc] at h
        exact Nat.le_of_not_lt (Option.ite_none_left_eq_some.mp h).1
    refine ⟨Nat.le_trans ?_ hgap, fun hsame hfails => ?_⟩
    · split
      · decide
      · exact Nat.le_refl _
    · rwa [hsame, if_pos (by simpa using hfails)] at hgap
  · cases h

/-- The connection the wait began with. -/
def ref (t : Txn) : Option Conn × Nat := (t.refConn, t.refMs)

theorem noteProbe_ref (t : Txn) (r : Reading) (now : Nat) : (t.noteProbe r now).ref = t.ref := by
  unfold noteProbe
  split
  · rfl
  · rfl

theorem noteConn_ref (t : Txn) (r : Reading) : (t.noteConn r).ref = t.ref := by
  unfold noteConn
  split
  · rfl
  · rfl

/-- What a reading lacks does not depend on what a beat notes. -/
theorem Lacking.congr {t t' : Txn} {r : Reading} {d : DataPath} (h : t.Lacking r d)
    (ha : Alike t t') (href : t'.ref = t.ref) : t'.Lacking r d := by
  have htarget : t'.target = t.target := congrArg Ident.target ha.ident
  have hrollback : t'.rollbackTo = t.rollbackTo := congrArg Ident.rollbackTo ha.ident
  have hsim : t'.sim = t.sim := congrArg Ident.sim ha.ident
  have hconfirm : t'.confirm = t.confirm := congrArg Ident.confirm ha.ident
  have hconn : t'.refConn = t.refConn := congrArg Prod.fst href
  have hms : t'.refMs = t.refMs := congrArg Prod.snd href
  refine ⟨?_, h.registered, hsim ▸ h.sim, h.data, h.expected, h.connected, h.addr, ?_⟩
  · rw [goal, ha.phase, hrollback, htarget]
    exact h.value
  · intro hc
    rw [Txn.newConn, hms, hconn]
    exact h.newConn (hconfirm ▸ hc)

theorem Lacking.dataGate {t : Txn} {r : Reading} {d : DataPath} (h : t.Lacking r d) :
    ∃ target, t.dataGate r = .error (some target) := by
  have hconn : ¬(!d.connected || decide (d.conn.addr = "")) = true := by
    simp [h.connected, h.addr]
  have hnew : ¬(decide (t.confirm = .apn) && !t.newConn d.conn) = true := by
    simpa using h.newConn
  simp only [Txn.dataGate, h.data, h.expected, if_neg hconn, if_neg hnew]
  exact ⟨_, rfl⟩

theorem Lacking.judgeValue {t : Txn} {r : Reading} {d : DataPath} (h : t.Lacking r d)
    (hw : t.phase = .verifying ∨ t.phase = .rollingBack) (hp : r.probe = some true) (now : Nat) :
    (t.judgeValue r t.goal now).1.phase.isFinal = true ∧
      (t.judgeValue r t.goal now).2.isSome = true := by
  have hjudge : ∀ t₁ : Txn, t₁.Lacking r d → (t₁.dataJudge r).2 = .ok := by
    intro t₁ h₁
    obtain ⟨target, hgate⟩ := h₁.dataGate
    simp only [dataJudge, hgate, hp, if_true]
  rcases hw with hv | hr
  · have hgoal : t.goal = t.target := by simp [goal, hv]
    have hok := hjudge { t with everMatched := true } (h.congr ⟨rfl, rfl, rfl⟩ rfl)
    rw [Txn.judgeValue, if_pos hv, judgeVerifying, if_pos hgoal]
    dsimp only
    rw [if_pos h.registered, hok]
    exact ⟨rfl, rfl⟩
  · have hgoal : t.goal = t.rollbackTo := by simp [goal, hr]
    have hok := hjudge t h
    rw [Txn.judgeValue, if_neg (by simp [hr]), judgeRollback, if_pos hgoal, if_pos h.registered]
    dsimp only
    rw [hok]
    exact ⟨rfl, rfl⟩

/-- **A probe that succeeds ends the phase**: nothing else was lacking. -/
theorem Lacking.beat {t : Txn} {r : Reading} {d : DataPath} (h : t.Lacking r d)
    (hw : t.phase = .verifying ∨ t.phase = .rollingBack) (hi : t.intent = none)
    (hp : r.probe = some true) (now : Nat) :
    (t.beat (some r) now).phase.isFinal = true := by
  have hgate : ¬ (!t.waiting || t.intent.isSome) = true := by
    rcases hw with hv | hr
    · simp [waiting, hv, hi]
    · simp [waiting, hr, hi]
  have hseen : Alike t { t with seenMs := now } := ⟨rfl, rfl, rfl⟩
  have hconn := hseen.trans (noteConn_alike _ r)
  have hset : Alike t { { t with seenMs := now }.noteConn r with registered := r.registered } :=
    ⟨hconn.ctl, hconn.ident, hconn.waitStartMs⟩
  have hprobe := hset.trans (noteProbe_alike _ r now)
  have hnoted : Alike t (({ { t with seenMs := now }.noteConn r with
      registered := r.registered }.noteProbe r now).noteValue t.goal) :=
    ⟨hprobe.ctl, hprobe.ident, hprobe.waitStartMs⟩
  have href : (({ { t with seenMs := now }.noteConn r with
      registered := r.registered }.noteProbe r now).noteValue t.goal).ref = t.ref :=
    (noteProbe_ref _ r now).trans (noteConn_ref { t with seenMs := now } r)
  have hlack := h.congr hnoted href
  have hsim : ({ t with seenMs := now }.noteConn r).sim = t.sim :=
    congrArg Ident.sim hconn.ident
  have hgoal := Option.some.inj (hlack.value.symm.trans h.value)
  obtain ⟨hf, hs⟩ := hlack.judgeValue (hnoted.waits hw) hp now
  rw [hgoal] at hf hs
  obtain ⟨n, hn⟩ := Option.isSome_iff_exists.mp hs
  simp only [Txn.beat]
  rw [onReading, if_neg (Bool.eq_false_iff.mp (isFinal_of_waiting hw)), if_neg hgate]
  dsimp only
  rw [hsim, h.sim]
  dsimp only
  rw [judge]
  dsimp only
  rw [h.value]
  dsimp only
  rw [hn]
  exact hf

end Txn

/-! ### The record of the probes -/

/-- A probe: of which reading, and of which transaction. -/
structure Probe where
  txn : Txn
  reading : Reading
  start : Nat
  ended : Option Nat := none

namespace Probe

/-- The connection probed is the same as the one stored in the transaction, if there is
    one. -/
def steady (p : Probe) : Bool :=
  p.reading.data.any fun d => p.txn.probeConn.all (·.same d.conn)

/-- What the transaction holds when a failed probe is noted. -/
def noted (p : Probe) (now : Nat) : Txn.Probes :=
  (p.txn.noteProbe { p.reading with probe := some false } now).probes

/-- It began when nothing else was lacking and nothing held it back. -/
def Due (p : Probe) : Prop :=
  (p.txn.phase = .verifying ∨ p.txn.phase = .rollingBack) ∧ p.txn.intent = none ∧
    ∃ d, p.txn.Lacking p.reading d ∧ p.txn.Held d p.start

/-- A probe failed and was noted before the next began. -/
def Before (p q : Probe) : Prop :=
  ∃ e n, p.ended = some e ∧ p.start ≤ e ∧ e ≤ n ∧ n ≤ q.start ∧ q.txn.probes = p.noted n

/-- The next begins so much later than it ended. -/
def Apart (gap : Nat) (p q : Probe) : Prop := ∃ e, p.ended = some e ∧ e + gap ≤ q.start

end Probe

namespace Probe

variable {p q : Probe} {l : List Probe}

/-! ### What follows for the distances -/

theorem Due.data (h : p.Due) : ∃ d, p.reading.data = some d := by
  obtain ⟨-, -, d, hd, -⟩ := h
  exact ⟨d, hd.data⟩

theorem noted_eq {d : DataPath} (hd : p.reading.data = some d) (n : Nat) :
    p.noted n =
      if p.txn.probeConn.any (·.same d.conn) = true ∧ p.txn.probeFails < PROBE_TRIES then
        ⟨p.txn.probeConn, p.txn.probeFails + 1, some n⟩
      else ⟨some d.conn, 1, some n⟩ := by
  by_cases hf : p.txn.probeFails < PROBE_TRIES
  · have hge : ¬p.txn.probeFails ≥ PROBE_TRIES := Nat.not_le_of_lt hf
    rcases hc : p.txn.probeConn with _ | c
    · simp [noted, Txn.noteProbe, Txn.probes, hd, hc]
    · by_cases hs : c.same d.conn = true
      · simp [noted, Txn.noteProbe, Txn.probes, hd, hc, hs, hf, hge]
      · simp [noted, Txn.noteProbe, Txn.probes, hd, hc, hs]
  · have hge : p.txn.probeFails ≥ PROBE_TRIES := Nat.le_of_not_lt hf
    simp [noted, Txn.noteProbe, Txn.probes, hd, hf, hge]

theorem Before.last (h : p.Before q) (hp : p.Due) :
    ∃ e n, p.ended = some e ∧ p.start ≤ e ∧ e ≤ n ∧ n ≤ q.start ∧
      q.txn.probeLastMs = some n := by
  obtain ⟨e, n, he, hs, hn, hq, hnoted⟩ := h
  obtain ⟨d, hd⟩ := hp.data
  refine ⟨e, n, he, hs, hn, hq, ?_⟩
  rw [noted_eq hd] at hnoted
  have hlast := congrArg Txn.Probes.lastMs hnoted
  split at hlast
  · exact hlast
  · exact hlast

theorem Before.apart (h : p.Before q) (hp : p.Due) (hq : q.Due) : Apart 5000 p q := by
  obtain ⟨e, n, he, -, hn, hle, hlast⟩ := h.last hp
  obtain ⟨-, -, d, -, hheld⟩ := hq
  have hgap : 5000 ≤ q.start - n := (hheld n hlast).1
  exact ⟨e, he, by omega⟩

/-- The third failure on one connection holds the next probe back for longer. -/
theorem Before.round (h : p.Before q) (hp : p.Due) (hq : q.Due)
    (hsame : ∀ d, q.reading.data = some d → q.txn.probeConn.any (·.same d.conn) = true)
    (hfails : 3 ≤ q.txn.probeFails) : Apart 30000 p q := by
  obtain ⟨e, n, he, -, hn, hle, hlast⟩ := h.last hp
  obtain ⟨-, -, d, hlack, hheld⟩ := hq
  have hgap : 30000 ≤ q.start - n := (hheld n hlast).2 (hsame d hlack.data) hfails
  exact ⟨e, he, by omega⟩

theorem Before.stored (h : p.Before q) (hp : p.Due) :
    (∃ c, q.txn.probeConn = some c) ∧ 1 ≤ q.txn.probeFails := by
  obtain ⟨e, n, -, -, -, -, hnoted⟩ := h
  obtain ⟨d, hd⟩ := hp.data
  rw [noted_eq hd] at hnoted
  have hconn := congrArg Txn.Probes.conn hnoted
  have hfails := congrArg Txn.Probes.fails hnoted
  split at hconn
  · rename_i hc
    rw [if_pos hc] at hfails
    obtain ⟨c, hc, -⟩ := Option.any_eq_true _ _ |>.mp hc.1
    exact ⟨⟨c, hconn.trans hc⟩, by simp only [Txn.probes] at hfails; omega⟩
  · rename_i hc
    rw [if_neg hc] at hfails
    exact ⟨⟨d.conn, hconn⟩, Nat.le_of_eq hfails.symm⟩

theorem steady.same (h : p.steady = true) (hc : ∃ c, p.txn.probeConn = some c) {d : DataPath}
    (hd : p.reading.data = some d) : p.txn.probeConn.any (·.same d.conn) = true := by
  obtain ⟨c, hc⟩ := hc
  simpa [steady, hd, hc] using h

/-- Failures on one connection are counted. -/
theorem Before.counts (h : p.Before q) (hp : p.Due) (hs : p.steady = true)
    (hc : ∃ c, p.txn.probeConn = some c) (hf : p.txn.probeFails < 3) :
    q.txn.probeFails = p.txn.probeFails + 1 := by
  obtain ⟨e, n, -, -, -, -, hnoted⟩ := h
  obtain ⟨d, hd⟩ := hp.data
  rw [noted_eq hd, if_pos ⟨steady.same hs hc hd, hf⟩] at hnoted
  exact congrArg Txn.Probes.fails hnoted

/-- **Of any four consecutive probes** of one connection there are two that are further
    apart. -/
theorem apart_of_four {a b c d : Probe} (hab : a.Before b) (hbc : b.Before c) (hcd : c.Before d)
    (hdue : ∀ p ∈ [a, b, c, d], p.Due) (hsteady : ∀ p ∈ [b, c, d], p.steady = true) :
    Apart 30000 a b ∨ Apart 30000 b c ∨ Apart 30000 c d := by
  have ha := hdue a (by simp)
  have hb := hdue b (by simp)
  have hc := hdue c (by simp)
  have hd := hdue d (by simp)
  have hsb := hsteady b (by simp)
  have hsc := hsteady c (by simp)
  have hsd := hsteady d (by simp)
  obtain ⟨hstored, hone⟩ := hab.stored ha
  by_cases h₁ : 3 ≤ b.txn.probeFails
  · exact .inl (hab.round ha hb (fun _ => steady.same hsb hstored) h₁)
  have htwo := hbc.counts hb hsb hstored (by omega)
  have hstored := (hbc.stored hb).1
  by_cases h₂ : 3 ≤ c.txn.probeFails
  · exact .inr (.inl (hbc.round hb hc (fun _ => steady.same hsc hstored) h₂))
  have hthree := hcd.counts hc hsc hstored (by omega)
  have hstored := (hcd.stored hc).1
  exact .inr (.inr (hcd.round hc hd (fun _ => steady.same hsd hstored) (by omega)))

section Record

variable (hchain : l.IsChain fun q p => p.Before q) (hdue : ∀ p ∈ l, p.Due)

include hchain hdue

theorem apart_of_chain (i : Nat) (h : i + 1 < l.length) : Apart 5000 l[i + 1] l[i] := by
  have hbefore := List.isChain_iff_getElem.mp hchain i h
  exact hbefore.apart (hdue _ (List.getElem_mem _)) (hdue _ (List.getElem_mem _))

theorem apart_of_steady (hsteady : ∀ p ∈ l, p.steady = true) (i : Nat) (h : i + 3 < l.length) :
    Apart 30000 l[i + 3] l[i + 2] ∨ Apart 30000 l[i + 2] l[i + 1] ∨
      Apart 30000 l[i + 1] l[i] := by
  have hbefore := List.isChain_iff_getElem.mp hchain
  apply apart_of_four (hbefore (i + 2) h) (hbefore (i + 1) (by omega)) (hbefore i (by omega))
  · simp only [List.mem_cons, List.not_mem_nil, or_false]
    rintro p (rfl | rfl | rfl | rfl) <;> exact hdue _ (List.getElem_mem _)
  · simp only [List.mem_cons, List.not_mem_nil, or_false]
    rintro p (rfl | rfl | rfl) <;> exact hsteady _ (List.getElem_mem _)

/-- A probe ends after its start. -/
theorem starts_of_apart {gap : Nat} (i : Nat) (h : i + 1 < l.length)
    (hapart : Apart gap l[i + 1] l[i]) : l[i + 1].start + gap ≤ l[i].start := by
  obtain ⟨e, he, hgap⟩ := hapart
  have hbefore := List.isChain_iff_getElem.mp hchain i h
  obtain ⟨e', _, he', hstart, -⟩ := hbefore.last (hdue _ (List.getElem_mem _))
  rw [he'] at he
  cases he
  omega

/-- **At most twelve probes in two minutes.** -/
theorem count_of_steady (hsteady : ∀ p ∈ l, p.steady = true) (since : Nat) :
    (l.filter fun p => decide (since ≤ p.start ∧ p.start ≤ since + 120000)).length ≤ 12 := by
  have hnear : Spacing.Spaced Probe.start 1 5000 l := fun i h =>
    starts_of_apart hchain hdue i h (apart_of_chain hchain hdue i h)
  have hfar : Spacing.Spaced Probe.start 3 40000 l := by
    intro i h
    have h₀ : l[i + 1].start + 5000 ≤ l[i].start := hnear i (by omega)
    have h₁ : l[i + 2].start + 5000 ≤ l[i + 1].start := hnear (i + 1) (by omega)
    have h₂ : l[i + 3].start + 5000 ≤ l[i + 2].start := hnear (i + 2) h
    rcases apart_of_steady hchain hdue hsteady i h with h' | h' | h'
    · have : l[i + 3].start + 30000 ≤ l[i + 2].start :=
        starts_of_apart hchain hdue (i + 2) h h'
      omega
    · have : l[i + 2].start + 30000 ≤ l[i + 1].start :=
        starts_of_apart hchain hdue (i + 1) (by omega) h'
      omega
    · have : l[i + 1].start + 30000 ≤ l[i].start :=
        starts_of_apart hchain hdue i (by omega) h'
      omega
  exact (hfar.mul 4).count (hnear.mono (Nat.zero_le _)) (by decide) since

end Record

end Probe

namespace Driver

def phase (st : St) : Option Phase := st.active.map (·.phase)

/-- The latest probe comes back. -/
def noteEnd (now : Nat) : List Probe → List Probe
  | p :: l => { p with ended := some now } :: l
  | [] => []

/-- The observer keeps the probes of the current phase, the latest first. -/
def seeProbe (s : Driver) (a : Act) (s' : Driver) (l : List Probe) : List Probe :=
  match a, s.task, s'.task with
  | .turn i, some (.read opId _ _), some (.probe _ _ r) =>
      match s.st.live opId with
      | some t => { txn := t, reading := r, start := i.now } :: l
      | none => l
  | .turn i, some (.probe ..), _ => noteEnd i.now l
  | _, _, _ => l

def noteProbes (s : Driver) (a : Act) (s' : Driver) (l : List Probe) : List Probe :=
  if phase s'.st = phase s.st then seeProbe s a s' l else []

/-- The device does not probe: the driver does. -/
def Unprobed : Act → Prop
  | .turn i => ∀ r, i.reading = .ok r → r.probe = none
  | .call .. => True

/-- The driver does not hold a probe or its result. -/
def plain : Task → Bool
  | .probe .. => false
  | .feed _ _ (some r) => r.probe.isNone
  | _ => true

/-- Where the driver is with the latest probe of the phase. -/
inductive Pace (opId : String) (s : Driver) : List Probe → Prop where
  | nothing : Pace opId s []
  | failed {p : Probe} {l : List Probe} {t : Txn} {e n : Nat} (live : s.st.live opId = some t)
      (waits : t.phase = .verifying ∨ t.phase = .rollingBack) (intent : t.intent = none)
      (task : ∀ k, s.task = some k → plain k = true)
      (ended : p.ended = some e) (start : p.start ≤ e) (noted : e ≤ n) (clock : n ≤ s.clock)
      (probes : t.probes = p.noted n) : Pace opId s (p :: l)
  | probing {p : Probe} {l : List Probe} {g : Nat} (live : s.st.live opId = some p.txn)
      (task : s.task = some (.probe opId g p.reading)) (start : p.start ≤ s.clock) :
      Pace opId s (p :: l)
  | probed {p : Probe} {l : List Probe} {g e : Nat} {ok : Bool}
      (live : s.st.live opId = some p.txn)
      (task : s.task = some (.feed opId g (some { p.reading with probe := some ok })))
      (ended : p.ended = some e) (start : p.start ≤ e) (clock : e ≤ s.clock) :
      Pace opId s (p :: l)

structure Paced (opId : String) (s : Driver) (l : List Probe) : Prop where
  task : ∀ k, s.task = some k → InLoop opId k
  watch : ∀ t, s.st.live opId = some t → t.intent = none →
    ∀ k, s.task = some k → watches t.generation k = true
  pace : Pace opId s l
  chain : l.IsChain fun q p => p.Before q
  due : ∀ p ∈ l, p.Due

/-- The driver starts to follow a transaction, in whatever state it is. -/
def spawned (st : St) (opId : String) (now : Nat) (draining : Bool) : Driver where
  st := st
  task := some (.drive opId)
  clock := now
  draining := draining

/-! ### One step of the driver -/

section Step

variable {opId bootId : String} {cfg : Config} {s s' : Driver} {k : Task} {i : Input}
  {l : List Probe}

theorem live_of_active {st st' : St} (h : st'.active = st.active) (opId : String) :
    st'.live opId = st.live opId := by
  rw [St.live, St.live, h]

theorem phase_of_live {t : Txn} (h : s.st.live opId = some t) : phase s.st = some t.phase := by
  rw [phase, active_of_live h]
  rfl

theorem Pace.live (h : Pace opId s l) (hl : l ≠ []) : ∃ t, s.st.live opId = some t := by
  cases h with
  | nothing => exact absurd rfl hl
  | failed live => exact ⟨_, live⟩
  | probing live => exact ⟨_, live⟩
  | probed live => exact ⟨_, live⟩

/-- A driver without a probe goes on, and the transaction is left alone. -/
theorem Pace.plain (h : Pace opId s l) (hk : ∀ k, s.task = some k → plain k = true)
    (hact : s'.st.active = s.st.active) (hclock : s.clock ≤ s'.clock)
    (hk' : ∀ k, s'.task = some k → Driver.plain k = true) : Pace opId s' l := by
  cases h with
  | nothing => exact .nothing
  | failed live waits intent _ ended start noted clock probes =>
    exact .failed ((live_of_active hact opId).trans live) waits intent hk' ended start noted
      (Nat.le_trans clock hclock) probes
  | probing live task =>
    have := hk _ task
    cases this
  | probed live task =>
    have := hk _ task
    cases this

theorem Pace.call (h : Pace opId s l) (hact : s'.st.active = s.st.active)
    (hclock : s.clock ≤ s'.clock) (htask : s'.task = s.task) : Pace opId s' l := by
  have hlive := live_of_active hact opId
  cases h with
  | nothing => exact .nothing
  | failed live waits intent task ended start noted clock probes =>
    exact .failed (hlive.trans live) waits intent (htask ▸ task) ended start noted
      (Nat.le_trans clock hclock) probes
  | probing live task start =>
    exact .probing (hlive.trans live) (htask.trans task) (Nat.le_trans start hclock)
  | probed live task ended start clock =>
    exact .probed (hlive.trans live) (htask.trans task) ended start
      (Nat.le_trans clock hclock)

theorem seeProbe_plain {a : Act} (hr : ∀ x g spec, s.task ≠ some (.read x g spec))
    (hp : ∀ x g r, s.task ≠ some (.probe x g r)) : seeProbe s a s' l = l := by
  unfold seeProbe
  split
  · rename_i h _
    exact absurd h (hr _ _ _)
  · rename_i h
    exact absurd h (hp _ _ _)
  · rfl

/-- A record of nothing holds of any driver. -/
theorem Paced.cleared (htask : ∀ k, s'.task = some k → InLoop opId k)
    (hwatch : ∀ t, s'.st.live opId = some t → t.intent = none →
      ∀ k, s'.task = some k → watches t.generation k = true) : s'.Paced opId [] :=
  ⟨htask, hwatch, .nothing, .nil, by simp⟩

/-- Nothing was recorded of a transaction that is gone, or whose phase changed. -/
theorem Paced.noteProbes_nil {a : Act} (hs : s.Paced opId l)
    (hsee : seeProbe s a s' l = l)
    (h : s'.st.active = none ∨ phase s'.st ≠ phase s.st) : noteProbes s a s' l = [] := by
  unfold noteProbes
  split
  · rename_i hphase
    rw [hsee]
    by_contra hl
    obtain ⟨t, ht⟩ := hs.pace.live hl
    rw [phase_of_live ht] at hphase
    rcases h with h | h
    · rw [phase, h] at hphase
      cases hphase
    · rw [phase_of_live ht] at h
      exact h hphase
  · rfl

theorem Paced.call (hs : s.Paced opId l) (c : Call) {now : Nat} (hnow : s.clock ≤ now) :
    (s.called c now).Paced opId (noteProbes s (.call c now) (s.called c now) l) := by
  have hsee : seeProbe s (.call c now) (s.called c now) l = l := rfl
  have hcall := call_active s.st s.draining c
  generalize hnew : (c.turn s.st s.draining).st.active = new at hcall
  have hact : (s.called c now).st.active = new := hnew
  cases hcall with
  | same =>
    have hphase : phase (s.called c now).st = phase s.st := by rw [phase, hact, phase]
    rw [noteProbes, if_pos hphase, hsee]
    refine ⟨hs.task, fun t ht => hs.watch t ?_, hs.pace.call hact hnow rfl, hs.chain, hs.due⟩
    rwa [live_of_active hact] at ht
  | gone =>
    rw [hs.noteProbes_nil hsee (.inl hact)]
    refine .cleared hs.task fun t ht => ?_
    rw [active_of_live ht] at hact
    cases hact
  | reverted t t' n ht hr =>
    obtain ⟨hv, -, rfl⟩ := Txn.revert_eq hr
    have hphase : phase (s.called c now).st ≠ phase s.st := by
      rw [phase, hact, phase, ht]
      simp [Txn.startRollback, Txn.step, hv]
    rw [hs.noteProbes_nil hsee (.inr hphase)]
    refine .cleared hs.task fun t' ht' hi => ?_
    rw [active_of_live ht'] at hact
    cases hact
    cases hi

theorem seeProbe_turn (hk : s.task = some k) (hplain : plain k = true)
    (hread : ∀ x g spec, k ≠ .read x g spec) : seeProbe s (.turn i) s' l = l := by
  apply seeProbe_plain
  · intro x g spec h
    rw [hk] at h
    exact hread x g spec (Option.some.inj h)
  · intro x g r h
    rw [hk] at h
    rw [Option.some.inj h] at hplain
    cases hplain

/-- A turn of a driver without a probe that leaves the transaction alone. -/
theorem Paced.turn_same (hs : s.Paced opId l) (hk : s.task = some k) (hplain : plain k = true)
    (hread : ∀ x g spec, k ≠ .read x g spec) (hclock : s.clock ≤ i.now)
    (hact : (k.turn cfg bootId 0 s.st s.draining i).st.active = s.st.active)
    (hk' : ∀ k', (k.turn cfg bootId 0 s.st s.draining i).task = some k' → plain k' = true)
    (hw : ∀ t, s.st.live opId = some t → t.intent = none → ∀ k',
      (k.turn cfg bootId 0 s.st s.draining i).task = some k' → loops k' = true →
        watches t.generation k' = true) :
    (s.turned cfg bootId k i).Paced opId
      (noteProbes s (.turn i) (s.turned cfg bootId k i) l) := by
  have hact' : (s.turned cfg bootId k i).st.active = s.st.active := hact
  have hphase : phase (s.turned cfg bootId k i).st = phase s.st := by rw [phase, hact', phase]
  rw [noteProbes, if_pos hphase, seeProbe_turn hk hplain hread]
  refine ⟨?_, ?_, ?_, hs.chain, hs.due⟩
  · exact (hs.task _ hk).turned
  · intro t ht hi k' h
    obtain ⟨hmem, hl⟩ := Option.filter_eq_some_iff.mp h
    rw [live_of_active hact'] at ht
    exact hw t ht hi k' hmem hl
  · refine hs.pace.plain (fun k' h => ?_) hact' hclock fun k' h => hk' k' (mem_filter_loops h)
    rw [hk] at h
    rw [← Option.some.inj h]
    exact hplain

/-- A turn of a driver without a probe that ends the transaction, or its phase. -/
theorem Paced.turn_cleared (hs : s.Paced opId l) (hk : s.task = some k)
    (hsee : seeProbe s (.turn i) (s.turned cfg bootId k i) l = l)
    (h : (s.turned cfg bootId k i).st.active = none ∨
      phase (s.turned cfg bootId k i).st ≠ phase s.st)
    (hw : ∀ t, (s.turned cfg bootId k i).st.live opId = some t → t.intent = none →
      ∀ k', (s.turned cfg bootId k i).task = some k' → watches t.generation k' = true) :
    (s.turned cfg bootId k i).Paced opId
      (noteProbes s (.turn i) (s.turned cfg bootId k i) l) := by
  rw [hs.noteProbes_nil hsee h]
  exact .cleared ((hs.task _ hk).turned) hw

theorem Paced.drive (hs : s.Paced opId l) (hk : s.task = some (.drive opId))
    (hclock : s.clock ≤ i.now) :
    (s.turned cfg bootId (.drive opId) i).Paced opId
      (noteProbes s (.turn i) (s.turned cfg bootId (.drive opId) i) l) := by
  refine hs.turn_same hk rfl (by simp) hclock ?_ ?_ ?_
  · simp only [Task.turn]
    split
    · rfl
    · split
      · rfl
      · rfl
  · intro k' hk'
    simp only [Task.turn] at hk'
    split at hk'
    · cases hk'
      rfl
    · split at hk'
      · cases hk'
        rfl
      · cases hk'
        rfl
  · intro t ht hi k' hk' hl
    simp only [Task.turn, ht, hi] at hk'
    split at hk'
    · rename_i hr
      cases hr.2
    · cases hk'
      exact decide_eq_true rfl

/-- While the driver sends the rollback, a live transaction has it open. -/
theorem Paced.unsent (hs : s.Paced opId l) (hk : s.task = some k)
    (hw : ∀ g, watches g k = false) {t : Txn} (ht : s.st.live opId = some t) :
    t.intent ≠ none := by
  intro hi
  have := hs.watch t ht hi k hk
  rw [hw] at this
  cases this

/-- Nothing is recorded while the rollback is open. -/
theorem Paced.unsent_nil (hs : s.Paced opId l) (hk : s.task = some k)
    (hw : ∀ g, watches g k = false) : l = [] := by
  have hpace := hs.pace
  cases hpace with
  | nothing => rfl
  | failed live _ intent => exact absurd intent (hs.unsent hk hw live)
  | @probing p l g live task =>
    rw [hk] at task
    cases task
    simpa [watches] using hw g
  | @probed p l g e ok live task =>
    rw [hk] at task
    cases task
    simpa [watches] using hw g

theorem Paced.rollback {uid g : Nat} {value : String} {spec : Option Spec}
    (hs : s.Paced opId l) (hk : s.task = some (.rollback opId uid value g spec))
    (hclock : s.clock ≤ i.now) :
    (s.turned cfg bootId (.rollback opId uid value g spec) i).Paced opId
      (noteProbes s (.turn i) (s.turned cfg bootId (.rollback opId uid value g spec) i) l) := by
  refine hs.turn_same hk rfl (by simp) hclock ?_ ?_ ?_
  · simp only [Task.turn]
    split
    · rfl
    · exact (s.st.persist_frame true).1
  · intro k' hk'
    simp only [Task.turn] at hk'
    split at hk'
    · cases hk'
      rfl
    · cases hk'
      split
      · rfl
      · rfl
  · intro t ht hi
    exact absurd hi (hs.unsent hk (fun _ => rfl) ht)

theorem Paced.rollbackRead {uid g : Nat} {value : String} {spec : Spec}
    (hs : s.Paced opId l) (hk : s.task = some (.rollbackRead opId uid value g spec))
    (hclock : s.clock ≤ i.now) :
    (s.turned cfg bootId (.rollbackRead opId uid value g spec) i).Paced opId
      (noteProbes s (.turn i)
        (s.turned cfg bootId (.rollbackRead opId uid value g spec) i) l) := by
  have hst := rollbackRead_turn_st opId uid value g spec cfg bootId s i
  rcases s.st.rollbackCheck_active opId i.reading with h | h
  · refine hs.turn_same hk rfl (by simp) hclock (by rw [hst, h]) ?_ ?_
    · intro k' hk'
      simp only [Task.turn] at hk'
      split at hk'
      · cases hk'
        rfl
      · cases hk'
        rfl
      · cases hk'
        rfl
    · intro t ht hi
      exact absurd hi (hs.unsent hk (fun _ => rfl) ht)
  · have hgone : (s.turned cfg bootId (.rollbackRead opId uid value g spec) i).st.active =
        none := (congrArg St.active hst).trans h
    refine hs.turn_cleared hk (seeProbe_turn hk rfl (by simp)) (.inl hgone) fun t ht => ?_
    rw [active_of_live ht] at hgone
    cases hgone

/-- The rollback is sent: the wait for its confirmation begins without a probe. -/
theorem Paced.rollbackSent (hs : s.Paced opId l) (hk : s.task = some k)
    (hw : ∀ g, watches g k = false)
    (htask : (k.turn cfg bootId 0 s.st s.draining i).task = some (.drive opId)) :
    (s.turned cfg bootId k i).Paced opId
      (noteProbes s (.turn i) (s.turned cfg bootId k i) l) := by
  have hnil := hs.unsent_nil hk hw
  subst hnil
  have hsee : noteProbes s (.turn i) (s.turned cfg bootId k i) [] = [] := by
    have hread : ∀ x g spec, s.task ≠ some (.read x g spec) := by
      intro x g spec h
      rw [hk] at h
      rw [Option.some.inj h] at hw
      simpa [watches] using hw g
    have hprobe : ∀ x g r, s.task ≠ some (.probe x g r) := by
      intro x g r h
      rw [hk] at h
      rw [Option.some.inj h] at hw
      simpa [watches] using hw g
    rw [noteProbes, seeProbe_plain hread hprobe, ite_self]
  rw [hsee]
  refine .cleared ((hs.task _ hk).turned) fun t _ _ k' h => ?_
  have hk' := mem_filter_loops h
  rw [htask] at hk'
  cases hk'
  rfl

theorem Paced.sleep {g : Nat} {spec : Option Spec} (hs : s.Paced opId l)
    (hk : s.task = some (.sleep opId g spec)) (hclock : s.clock ≤ i.now) :
    (s.turned cfg bootId (.sleep opId g spec) i).Paced opId
      (noteProbes s (.turn i) (s.turned cfg bootId (.sleep opId g spec) i) l) := by
  refine hs.turn_same hk rfl (by simp) hclock rfl ?_ ?_
  · intro k' hk'
    cases hk'
    split
    · rfl
    · rfl
  · intro t ht hi k' hk' _
    have hwatch := hs.watch t ht hi _ hk
    cases hk'
    split
    · rfl
    · exact hwatch

/-- A reading that is not probed. -/
theorem Paced.read_plain {g : Nat} {spec : Option Spec} (hs : s.Paced opId l)
    (hk : s.task = some (.read opId g spec)) (hclock : s.clock ≤ i.now)
    (hp : ∀ k', ((Task.read opId g spec).turn cfg bootId 0 s.st s.draining i).task = some k' →
      plain k' = true)
    (hw : ∀ t, s.st.live opId = some t → t.intent = none → ∀ k',
      ((Task.read opId g spec).turn cfg bootId 0 s.st s.draining i).task = some k' →
        watches t.generation k' = true)
    (hst : ((Task.read opId g spec).turn cfg bootId 0 s.st s.draining i).st = s.st) :
    (s.turned cfg bootId (.read opId g spec) i).Paced opId
      (noteProbes s (.turn i) (s.turned cfg bootId (.read opId g spec) i) l) := by
  have hact : (s.turned cfg bootId (.read opId g spec) i).st.active = s.st.active :=
    congrArg St.active hst
  have hphase : phase (s.turned cfg bootId (.read opId g spec) i).st = phase s.st := by
    rw [phase, hact, phase]
  have hsee : seeProbe s (.turn i) (s.turned cfg bootId (.read opId g spec) i) l = l := by
    unfold seeProbe
    split
    · rename_i h
      have := hp _ (mem_filter_loops h)
      cases this
    · rename_i h
      rw [hk] at h
      cases h
    · rfl
  rw [noteProbes, if_pos hphase, hsee]
  refine ⟨(hs.task _ hk).turned, ?_, ?_, hs.chain, hs.due⟩
  · intro t ht hi k' h
    rw [live_of_active hact] at ht
    exact hw t ht hi k' (mem_filter_loops h)
  · refine hs.pace.plain (fun k' h => ?_) hact hclock fun k' h => hp k' (mem_filter_loops h)
    rw [hk] at h
    cases h
    rfl

/-- The probe that begins follows on what was noted of the one before. -/
theorem Pace.before {p : Probe} (h : Pace opId s (p :: l))
    (hk : ∀ k, s.task = some k → Driver.plain k = true) {t : Txn}
    (ht : s.st.live opId = some t) {r : Reading} {now : Nat} (hnow : s.clock ≤ now) :
    p.Before { txn := t, reading := r, start := now } := by
  cases h with
  | failed live waits intent task ended start noted clock probes =>
    rw [live] at ht
    cases ht
    exact ⟨_, _, ended, start, noted, Nat.le_trans clock hnow, probes⟩
  | probing live task =>
    have := hk _ task
    cases this
  | probed live task =>
    have := hk _ task
    cases this

theorem Paced.read_probe {g : Nat} {spec : Option Spec} (hs : s.Paced opId l)
    (hk : s.task = some (.read opId g spec)) (hclock : s.clock ≤ i.now) {t : Txn} {r : Reading}
    {target : ProbeTarget} (ht : s.st.live opId = some t)
    (hwant : t.wantsProbe r i.now = some target)
    (hturn : (Task.read opId g spec).turn cfg bootId 0 s.st s.draining i =
      { task := some (.probe opId g r), st := s.st, draining := s.draining }) :
    (s.turned cfg bootId (.read opId g spec) i).Paced opId
      (noteProbes s (.turn i) (s.turned cfg bootId (.read opId g spec) i) l) := by
  have hst : (s.turned cfg bootId (.read opId g spec) i).st = s.st := congrArg Turn.st hturn
  have htask : (s.turned cfg bootId (.read opId g spec) i).task = some (.probe opId g r) := by
    simp only [turned, hturn, Option.filter, loops, if_true]
  have hplain : ∀ k, s.task = some k → plain k = true := by
    intro k' h
    rw [hk] at h
    cases h
    rfl
  obtain ⟨hw, hi, d, hlack, hheld⟩ := Txn.wantsProbe_spec hwant
  have hsee : seeProbe s (.turn i) (s.turned cfg bootId (.read opId g spec) i) l =
      { txn := t, reading := r, start := i.now } :: l := by
    simp only [seeProbe, hk, htask, ht]
  rw [noteProbes, if_pos (by rw [hst]), hsee]
  constructor
  · exact (hs.task _ hk).turned
  · intro t' ht' hi' k' h
    rw [hst] at ht'
    rw [htask] at h
    cases h
    have hwatch : decide (g = t'.generation) = true := hs.watch t' ht' hi' _ hk
    exact hwatch
  · exact .probing (by rw [hst]; exact ht) htask (Nat.le_refl _)
  · cases l with
    | nil => exact .singleton _
    | cons p l => exact .cons_cons (hs.pace.before hplain ht hclock) hs.chain
  · intro p hp
    rcases List.mem_cons.mp hp with rfl | hp
    · exact ⟨hw, hi, d, hlack, hheld⟩
    · exact hs.due p hp

theorem Paced.read {g : Nat} {spec : Option Spec} (hs : s.Paced opId l)
    (hk : s.task = some (.read opId g spec)) (hclock : s.clock ≤ i.now)
    (hu : ∀ r, i.reading = .ok r → r.probe = none) :
    (s.turned cfg bootId (.read opId g spec) i).Paced opId
      (noteProbes s (.turn i) (s.turned cfg bootId (.read opId g spec) i) l) := by
  have hwatch : ∀ t, s.st.live opId = some t → t.intent = none → decide (g = t.generation) = true :=
    fun t ht hi => hs.watch t ht hi _ hk
  have hblind : ((Task.read opId g spec).turn cfg bootId 0 s.st s.draining i) =
      { task := some (.feed opId g none), st := s.st, draining := s.draining } →
      (s.turned cfg bootId (.read opId g spec) i).Paced opId
        (noteProbes s (.turn i) (s.turned cfg bootId (.read opId g spec) i) l) := by
    intro hturn
    refine hs.read_plain hk hclock (fun k' h => ?_) (fun t ht hi k' h => ?_)
      (congrArg Turn.st hturn)
    · rw [hturn] at h
      cases h
      rfl
    · rw [hturn] at h
      cases h
      exact hwatch t ht hi
  rcases spec with _ | spec
  · exact hblind rfl
  rcases hr : i.reading with e | r
  · exact hblind (by simp only [Task.turn, hr])
  rcases ht : s.st.live opId with _ | t
  · have hturn : (Task.read opId g (some spec)).turn cfg bootId 0 s.st s.draining i =
        { task := some .kick, st := s.st, draining := s.draining } := by
      simp only [Task.turn, hr, ht]
    refine hs.read_plain hk hclock (fun k' h => ?_) (fun t ht' => ?_) (congrArg Turn.st hturn)
    · rw [hturn] at h
      cases h
      rfl
    · rw [ht] at ht'
      cases ht'
  rcases hwant : t.wantsProbe r i.now with _ | target
  · have hturn : (Task.read opId g (some spec)).turn cfg bootId 0 s.st s.draining i =
        { task := some (.feed opId g (some r)), st := s.st, draining := s.draining } := by
      simp only [Task.turn, hr, ht, hwant]
    refine hs.read_plain hk hclock (fun k' h => ?_) (fun t' ht' hi k' h => ?_)
      (congrArg Turn.st hturn)
    · rw [hturn] at h
      cases h
      simp [plain, hu r hr]
    · rw [hturn] at h
      cases h
      exact hwatch t' ht' hi
  · exact hs.read_probe hk hclock ht hwant (by simp only [Task.turn, hr, ht, hwant])

theorem isChain_ended {p : Probe} {e : Option Nat}
    (h : (p :: l).IsChain fun q p => p.Before q) :
    ({ p with ended := e } :: l).IsChain fun q p => p.Before q := by
  cases l with
  | nil => exact .singleton _
  | cons q l =>
    obtain ⟨hpq, hl⟩ := List.isChain_cons_cons.mp h
    exact .cons_cons hpq hl

theorem Paced.probe {g : Nat} {r : Reading} (hs : s.Paced opId l)
    (hk : s.task = some (.probe opId g r)) (hclock : s.clock ≤ i.now) :
    (s.turned cfg bootId (.probe opId g r) i).Paced opId
      (noteProbes s (.turn i) (s.turned cfg bootId (.probe opId g r) i) l) := by
  have hwatch : ∀ t, s.st.live opId = some t → t.intent = none → ∀ k',
      (s.turned cfg bootId (.probe opId g r) i).task = some k' →
        watches t.generation k' = true := by
    intro t ht hi k' h
    have hfeed : some (Task.feed opId g (some { r with probe := some i.probe })) = some k' := h
    cases hfeed
    have hwatch : decide (g = t.generation) = true := hs.watch t ht hi _ hk
    exact hwatch
  have hphase : phase (s.turned cfg bootId (.probe opId g r) i).st = phase s.st := rfl
  have hsee : seeProbe s (.turn i) (s.turned cfg bootId (.probe opId g r) i) l =
      noteEnd i.now l := by
    simp only [seeProbe, hk]
  rw [noteProbes, if_pos hphase, hsee]
  have hpace := hs.pace
  have hchain := hs.chain
  have hdue := hs.due
  cases hpace with
  | nothing => exact .cleared ((hs.task _ hk).turned) hwatch
  | failed _ _ _ task =>
    have := task _ hk
    cases this
  | @probing p l g' live task start =>
    rw [hk] at task
    cases task
    refine ⟨(hs.task _ hk).turned, hwatch, ?_, isChain_ended hchain, ?_⟩
    · exact .probed live rfl rfl (Nat.le_trans start hclock) (Nat.le_refl _)
    · intro q hq
      rcases List.mem_cons.mp hq with rfl | hq
      · exact hdue p List.mem_cons_self
      · exact hdue q (List.mem_cons_of_mem _ hq)
  | probed _ task =>
    rw [hk] at task
    cases task

/-- What a beat makes of the latest probe: a failure that is noted, unless the phase ends. -/
theorem Pace.fed {p : Probe} {g : Nat} {r : Option Reading} {t : Txn} {now : Nat}
    (h : Pace opId s (p :: l)) (hdue : p.Due) (hk : s.task = some (.feed opId g r))
    (ht : s.st.live opId = some t) (hclock : s.clock ≤ now) :
    (t.phase = .verifying ∨ t.phase = .rollingBack) ∧ t.intent = none ∧
      ((t.beat r now).phase = t.phase → ∃ e n, p.ended = some e ∧ p.start ≤ e ∧ e ≤ n ∧
        n ≤ now ∧ (t.beat r now).probes = p.noted n) := by
  cases h with
  | failed live waits intent task ended start noted clock probes =>
    rw [ht] at live
    cases live
    refine ⟨waits, intent, fun hphase => ?_⟩
    have hplain := task _ hk
    have hsame : (t.beat r now).probes = t.probes := by
      have hbeat := (Txn.beat_probes waits intent r now).resolve_left (not_not.mpr hphase)
      rcases r with _ | r
      · exact hbeat
      · have hnone : r.probe = none := Option.isNone_iff_eq_none.mp hplain
        dsimp only at hbeat
        rw [Txn.noteProbe_none t hnone, ite_self] at hbeat
        exact hbeat
    exact ⟨_, _, ended, start, noted, Nat.le_trans clock hclock, hsame.trans probes⟩
  | probing live task =>
    rw [hk] at task
    cases task
  | @probed p l g' e ok live task ended start clock =>
    rw [ht] at live
    cases live
    rw [hk] at task
    cases task
    obtain ⟨hw, hi, d, hlack, -⟩ := hdue
    refine ⟨hw, hi, fun hphase => ?_⟩
    have hlack' : p.txn.Lacking { p.reading with probe := some ok } d :=
      ⟨hlack.value, hlack.registered, hlack.sim, hlack.data, hlack.expected, hlack.connected,
        hlack.addr, hlack.newConn⟩
    cases ok with
    | true =>
      have hfinal := hlack'.beat hw hi rfl now
      rw [hphase, Txn.isFinal_of_waiting hw] at hfinal
      cases hfinal
    | false =>
      have hbeat := (Txn.beat_probes hw hi _ now).resolve_left (not_not.mpr hphase)
      have hsame : simCheck p.txn.sim p.reading.sim = .same := hlack.sim
      dsimp only at hbeat
      rw [if_pos hsame] at hbeat
      exact ⟨e, now, ended, start, Nat.le_trans clock hclock, Nat.le_refl _, hbeat⟩

theorem Paced.feed {g : Nat} {r : Option Reading} (hs : s.Paced opId l)
    (hk : s.task = some (.feed opId g r)) (hclock : s.clock ≤ i.now) :
    (s.turned cfg bootId (.feed opId g r) i).Paced opId
      (noteProbes s (.turn i) (s.turned cfg bootId (.feed opId g r) i) l) := by
  have hsee : seeProbe s (.turn i) (s.turned cfg bootId (.feed opId g r) i) l = l := by
    apply seeProbe_plain
    · intro x g' spec h
      rw [hk] at h
      cases h
    · intro x g' r' h
      rw [hk] at h
      cases h
  have hnil : l = [] → noteProbes s (.turn i) (s.turned cfg bootId (.feed opId g r) i) l = [] := by
    rintro rfl
    rw [noteProbes, hsee, ite_self]
  rcases ht : s.st.live opId with _ | t
  · have hl : l = [] := by
      by_contra hl
      obtain ⟨t, ht'⟩ := hs.pace.live hl
      rw [ht] at ht'
      cases ht'
    rw [hnil hl]
    refine .cleared ((hs.task _ hk).turned) fun t ht' => ?_
    have hst : (s.turned cfg bootId (.feed opId g r) i).st = s.st := by
      simp only [turned, Task.turn, ht]
    rw [hst, ht] at ht'
    cases ht'
  have hst : (s.turned cfg bootId (.feed opId g r) i).st = (s.st.feed opId g r i.now).1 :=
    (feed_turn_st ht).1
  have htask : ((Task.feed opId g r).turn cfg bootId 0 s.st s.draining i).task =
      some (.drive opId) := (feed_turn_st ht).2
  have hw : ∀ t, (s.turned cfg bootId (.feed opId g r) i).st.live opId = some t →
      t.intent = none → ∀ k', (s.turned cfg bootId (.feed opId g r) i).task = some k' →
        watches t.generation k' = true := by
    intro t' _ _ k' h
    have hk' := mem_filter_loops h
    rw [htask] at hk'
    cases hk'
    rfl
  cases l with
  | nil =>
    rw [hnil rfl]
    exact .cleared ((hs.task _ hk).turned) hw
  | cons p l =>
    obtain ⟨hwaits, hi, hfed⟩ := hs.pace.fed (hs.due p List.mem_cons_self) hk ht hclock
    have hg : g = t.generation := of_decide_eq_true (hs.watch t ht hi _ hk)
    subst hg
    have hopen : (t.beat r i.now).phase.isFinal = false →
        (s.turned cfg bootId (.feed opId t.generation r) i).st.active = some (t.beat r i.now) :=
      fun hf => (congrArg St.active hst).trans (St.feed_active_open ht hf)
    cases Txn.beat_spec hwaits hi r i.now with
    | ended hf =>
      exact hs.turn_cleared hk hsee
        (.inl ((congrArg St.active hst).trans (St.feed_active_final ht hf))) hw
    | roll hp hd hp' hi' hid =>
      refine hs.turn_cleared hk hsee (.inr ?_) hw
      rw [phase, hopen (by rw [hp']; rfl), phase_of_live ht, hp]
      simp [hp']
    | wait halike hd =>
      have hact := hopen (by rw [halike.phase]; exact Txn.isFinal_of_waiting hwaits)
      have hphase : phase (s.turned cfg bootId (.feed opId t.generation r) i).st =
          phase s.st := by
        rw [phase, hact, phase_of_live ht, ← halike.phase]
        rfl
      have hlive : (s.turned cfg bootId (.feed opId t.generation r) i).st.live opId =
          some (t.beat r i.now) :=
        St.live_eq_some.mpr
          ⟨hact, (congrArg Txn.Ident.opId halike.ident).trans (St.live_eq_some.mp ht).2⟩
      obtain ⟨e, n, hended, hstart, hn, hnow, hprobes⟩ := hfed halike.phase
      rw [noteProbes, if_pos hphase, hsee]
      refine ⟨(hs.task _ hk).turned, hw, ?_, hs.chain, hs.due⟩
      refine .failed hlive (halike.waits hwaits) (halike.intent.trans hi) (fun k' h => ?_)
        hended hstart hn hnow hprobes
      have hk' := mem_filter_loops h
      rw [htask] at hk'
      cases hk'
      rfl

/-- **One step of the driver**, whatever comes in between. -/
theorem Paced.step {a : Act} (hs : s.Paced opId l) (hu : Unprobed a)
    (h : s.next cfg bootId a = some s') : s'.Paced opId (noteProbes s a s' l) := by
  unfold next at h
  split at h
  · rename_i hclock
    cases a with
    | call c now =>
      cases h
      exact hs.call c hclock
    | turn i =>
      obtain ⟨k, hk, rfl⟩ := Option.map_eq_some_iff.mp h
      cases hs.task k hk with
      | drive => exact hs.drive hk hclock
      | rollback uid value g spec => exact hs.rollback hk hclock
      | rollbackRead uid value g spec => exact hs.rollbackRead hk hclock
      | rollbackWrite uid value =>
        refine hs.turn_same hk rfl (by simp) hclock rfl (fun k' hk' => ?_) fun t ht hi => ?_
        · cases hk'
          rfl
        · exact absurd hi (hs.unsent hk (fun _ => rfl) ht)
      | rollbackWait uid => exact hs.rollbackSent hk (fun _ => rfl) rfl
      | rollbackSkip uid => exact hs.rollbackSent hk (fun _ => rfl) rfl
      | sleep g spec => exact hs.sleep hk hclock
      | read g spec => exact hs.read hk hclock hu
      | probe g r => exact hs.probe hk hclock
      | feed g r => exact hs.feed hk hclock
  · cases h

end Step

/-! ### The pace of a run -/

theorem spawned_paced (st : St) (opId : String) (now : Nat) (draining : Bool) :
    (spawned st opId now draining).Paced opId [] := by
  refine .cleared (fun k h => ?_) fun t _ _ k h => ?_
  · cases h
    exact .drive
  · cases h
    rfl

/-- **The pace of the probes** of one phase, latest first: each is made of a reading that
    lacks nothing else; it begins five seconds after the one before ended or later; and as
    long as the connection stays the same, of any four in a row two are thirty seconds
    apart, and there are at most twelve in two minutes. -/
theorem probe_pace (cfg : Config) (bootId : String) (st : St) (opId : String) (now : Nat)
    (draining : Bool) {s : Driver} {l : List Probe}
    (h : Exec (watched (next cfg bootId) noteProbes) (fun _ a => Unprobed a)
      (spawned st opId now draining, []) (s, l)) :
    (∀ p ∈ l, ∃ d, p.txn.Lacking p.reading d) ∧
      (∀ i (h : i + 1 < l.length), Probe.Apart 5000 l[i + 1] l[i]) ∧
      ∀ w, w <:+: l → (∀ p ∈ w, p.steady = true) →
        (∀ i (h : i + 3 < w.length), Probe.Apart 30000 w[i + 3] w[i + 2] ∨
          Probe.Apart 30000 w[i + 2] w[i + 1] ∨ Probe.Apart 30000 w[i + 1] w[i]) ∧
        ∀ since,
          (w.filter fun p => decide (since ≤ p.start ∧ p.start ≤ since + 120000)).length ≤ 12 := by
  have hs : s.Paced opId l := by
    have hinv := h.invariant (fun p : Driver × List Probe => p.1.Paced opId p.2)
      (fun {p p' a} hp hu hs => by
        obtain ⟨hnext, hnote⟩ := watched_eq_some.mp hs
        rw [hnote]
        exact hp.step hu hnext)
      (spawned_paced st opId now draining)
    exact hinv
  refine ⟨fun p hp => ?_, fun i hi => Probe.apart_of_chain hs.chain hs.due i hi, ?_⟩
  · obtain ⟨-, -, d, hlack, -⟩ := hs.due p hp
    exact ⟨d, hlack⟩
  · intro w hw hsteady
    have hchain := hs.chain.infix hw
    have hdue : ∀ p ∈ w, p.Due := fun p hp => hs.due p (hw.subset hp)
    exact ⟨Probe.apart_of_steady hchain hdue hsteady, Probe.count_of_steady hchain hdue hsteady⟩

/-- Everything is there but the answer of the DNS. -/
def unansweredReading : Reading := { Txn.sampleConfirming with probe := none }

/-- A probe fails; the next reading comes too early for another one. -/
def unansweredRun : List Act :=
  [.turn {}, .turn { now := 5000 }, .turn { now := 5001, reading := .ok unansweredReading },
    .turn { now := 6000 }, .turn { now := 6000 }, .turn { now := 6000 }, .turn { now := 9000 },
    .turn { now := 9001, reading := .ok unansweredReading }, .turn { now := 9001 },
    .turn { now := 9001 }, .turn { now := 12000 },
    .turn { now := 12001, reading := .ok unansweredReading }]

/-- `Unprobed`, as a test. -/
def unprobed (a : Act) : Bool :=
  match a with
  | .turn i =>
      match i.reading with
      | .ok r => r.probe.isNone
      | .error _ => true
  | .call .. => true

theorem Unprobed.of_test (a : Act) (h : unprobed a = true) : Unprobed a := by
  cases a with
  | call c now => trivial
  | turn i =>
    intro r hr
    simpa [unprobed, hr] using h

theorem probe_pace_unanswered : ∃ s p q,
    Exec (watched (next World.sampleConfig "b1") noteProbes) (fun _ a => Unprobed a)
        (spawned { active := some sampleTxn } sampleTxn.opId 0 false, []) (s, [q, p]) ∧
      p.start = 5001 ∧ q.start = 12001 ∧ Probe.Apart 5000 p q := by
  have hrun : (run (watched (next World.sampleConfig "b1") noteProbes) (fun _ a => unprobed a)
      (spawned { active := some sampleTxn } sampleTxn.opId 0 false, []) unansweredRun).any
      (fun s => s.2.map Probe.start = [12001, 5001]) = true := by
    decide +kernel
  obtain ⟨⟨s, l⟩, h, hp⟩ := Exec.exists_of_run (fun _ => Unprobed.of_test) (.refl _) hrun
  have hstarts : l.map Probe.start = [12001, 5001] := of_decide_eq_true hp
  obtain ⟨q, l, rfl, hq, hl⟩ := List.map_eq_cons_iff.mp hstarts
  obtain ⟨p, l, rfl, hfirst, hl⟩ := List.map_eq_cons_iff.mp hl
  obtain rfl := List.map_eq_nil_iff.mp hl
  exact ⟨s, p, q, h, hfirst, hq,
    (probe_pace World.sampleConfig "b1" { active := some sampleTxn } sampleTxn.opId 0 false h).2.1
      0 (by simp)⟩

end Driver

end Datad
