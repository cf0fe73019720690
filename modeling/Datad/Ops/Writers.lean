/-
  Datad/Ops/Writers.lean
  ======================
  **What keeps the writes of one transaction apart.**

  Nothing in the engine counts writes.  A task finds its transaction by `op_id`:
  one task at a time works for an `op_id` (`uniq`), so the intent of a transaction
  stays open while its writer is under way (`armed`), and once a rollback has been
  sent the intent is gone from memory and from disk before anybody else can look
  (`sent`, `sentDisk`).

  All of it rests on an `op_id` not being taken again while a task of its earlier
  transaction still runs.  `submit` refuses an `op_id` only as long as it is among
  the last `RECENT` transactions, so it does not ensure this; `NoReuse` is the
  condition under which the invariant holds.
-/
import Datad.Ops.TaskPassage
import Datad.Ops.Exclusion

namespace Datad

open Transition

/-- The start of a device write of this transaction with this intent. -/
def Event.isWrite (uid : Nat) (intent : Intent) : Event → Bool
  | .write u i _ => decide (u = uid) && decide (i = intent)
  | _ => false

theorem Event.isWrite_iff {uid : Nat} {intent : Intent} {e : Event} :
    e.isWrite uid intent = true ↔ ∃ v, e = .write uid intent v := by
  cases e with
  | write u i v =>
    simp only [isWrite, Bool.and_eq_true, decide_eq_true_eq, write.injEq]
    constructor
    · rintro ⟨hu, hi⟩; exact ⟨v, hu, hi, rfl⟩
    · rintro ⟨v', hu, hi, -⟩; exact ⟨hu, hi⟩
  | _ => simp [isWrite]

/-- The transaction whose end is recorded. -/
def Event.ended : Event → Option Txn
  | .fx (.append (.txn t)) => some t
  | _ => none

theorem Event.ended_eq_some {e : Event} {t : Txn} :
    e.ended = some t ↔ e = .fx (.append (.txn t)) := by
  constructor
  · intro h
    unfold ended at h
    split at h
    · rw [Option.some.inj h]
    · cases h
  · rintro rfl
    rfl

namespace World

/-- No `submit` is accepted under an `op_id` that a task of an earlier transaction
    still works for. -/
def NoReuse (cfg : Config) (w : World) (a : Act) : Prop :=
  ∀ key i req x, a = .task key i → w.tasks key = some (.submitRead req x) →
    (w.turnOf cfg (.submitRead req x) i).accepted = 1 → ∀ k, worksOf (w.tasks k) ≠ some x

/-- What keeps the writes of one transaction apart. -/
structure Once (w : World) : Prop where
  uniq : ∀ {k k' x}, worksOf (w.tasks k) = some x → worksOf (w.tasks k') = some x → k = k'
  own : ∀ {k k' u i i'}, owesOf (w.tasks k) = some (u, i) →
    owesOf (w.tasks k') = some (u, i') → k = k'
  issued : ∀ {k u i}, owesOf (w.tasks k) = some (u, i) → u < w.nextUid
  bound : ∀ {k u i t}, owesOf (w.tasks k) = some (u, i) → w.st.active = some t →
    (worksOf (w.tasks k) = some t.opId ↔ t.uid = u)
  armed : ∀ {k u i t}, owesOf (w.tasks k) = some (u, i) → w.st.active = some t →
    t.uid = u → t.intent = some i
  ahead : ∀ {k u i v v'}, aheadOf (w.tasks k) = some (u, i, v) → .write u i v' ∉ w.log
  logged : ∀ {u i v}, .write u i v ∈ w.log → u < w.nextUid
  sent : ∀ {u v t}, .write u .rollback v ∈ w.log → w.st.active = some t → t.uid = u →
    Ctl.Sent t.ctl ∨ ∃ k, owesOf (w.tasks k) = some (u, .rollback)
  sentDisk : ∀ {u v p}, .write u .rollback v ∈ w.log → w.disk.pending = some p → p.uid = u →
    Ctl.Sent p.ctl ∨ p.intent = some .rollback
  once : ∀ u i, w.log.countP (Event.isWrite u i) ≤ 1

theorem Once.empty : Once {} :=
  ⟨by simp [worksOf], by simp [owesOf], by simp [owesOf], by simp [owesOf], by simp [owesOf],
    by simp, by simp, by simp, by simp, by simp⟩

/-- A write in the log of a transaction that wants to roll back has its writer
    still under way. -/
theorem Once.writer {w : World} (hok : w.Ok) (h : w.Once) {t : Txn}
    {v : String} (ht : w.st.active = some t) (hi : t.intent = some .rollback)
    (hm : .write t.uid .rollback v ∈ w.log) :
    ∃ k, owesOf (w.tasks k) = some (t.uid, .rollback) := by
  rcases h.sent hm ht rfl with hs | hk
  · exact absurd hi (hs.not_rollback (hok.st.inv t ht))
  · exact hk

theorem countP_fx (l : List Event) (fx : List Effect) (u : Nat) (i : Intent) :
    (l ++ fx.map Event.fx).countP (Event.isWrite u i) = l.countP (Event.isWrite u i) := by
  have hfx : (fx.map Event.fx).countP (Event.isWrite u i) = 0 := by
    rw [List.countP_eq_zero]
    intro e he
    obtain ⟨f, -, rfl⟩ := List.mem_map.mp he
    simp [Event.isWrite]
  rw [List.countP_append, hfx, Nat.add_zero]

/-! ### One turn -/

/-- A turn of the task in this slot (an empty slot counts as an idle task). -/
structure Goes (w : World) (key : Nat) (T : Task) (may : Bool) (turn : Turn) : Prop where
  works : worksOf (w.tasks key) = T.works
  owes : owesOf (w.tasks key) = T.owes
  ahead : aheadOf (w.tasks key) = T.ahead
  passes : Passes w.nextUid w.st turn.st turn.accepted T turn.task turn.events
  shift : Shift T.lands may (turn.fresh w.nextUid) w.st turn.st turn.fx
  reuse : turn.accepted = 1 → ∀ k t', turn.st.active = some t' →
    worksOf (w.tasks k) ≠ some t'.opId

namespace Goes

variable {w : World} {key : Nat} {T : Task} {may : Bool} {turn : Turn}

theorem at_key : (w.take key turn).tasks key = turn.task := by
  show setTask w.tasks key turn.task key = turn.task
  rw [setTask, if_pos rfl]

theorem at_other {k : Nat} (hk : k ≠ key) : (w.take key turn).tasks k = w.tasks k := by
  show setTask w.tasks key turn.task k = w.tasks k
  rw [setTask, if_neg hk]

/-- Where no other slot has what the task has after the turn, one slot has it. -/
theorem one_slot {P : Option Task → Prop}
    (hslot : P turn.task → ∀ j, j ≠ key → ¬ P (w.tasks j))
    (hold : ∀ {k k'}, P (w.tasks k) → P (w.tasks k') → k = k') {k k' : Nat}
    (hk : P ((w.take key turn).tasks k)) (hk' : P ((w.take key turn).tasks k')) : k = k' := by
  by_cases hkey : k = key
  · by_cases hkey' : k' = key
    · rw [hkey, hkey']
    · rw [hkey, at_key] at hk
      rw [at_other hkey'] at hk'
      exact absurd hk' (hslot hk _ hkey')
  · rw [at_other hkey] at hk
    by_cases hkey' : k' = key
    · rw [hkey', at_key] at hk'
      exact absurd hk (hslot hk' _ hkey)
    · rw [at_other hkey'] at hk'
      exact hold hk hk'

/-- Unless the turn accepts, the active transaction keeps its identity. -/
theorem same (g : Goes w key T may turn) (hacc : turn.accepted = 0) {t' : Txn}
    (ht' : turn.st.active = some t') : ∃ t, w.st.active = some t ∧ t'.ident = t.ident := by
  rcases g.shift.sect.source ht' with h | h
  · exact h
  · have := (Turn.fresh_eq_some h).2
    omega

theorem accepted (g : Goes w key T may turn) (hacc : 0 < turn.accepted) {t' : Txn}
    (ht' : turn.st.active = some t') : turn.accepted = 1 ∧ t'.uid = w.nextUid := by
  cases g.passes with
  | on h0 => omega
  | accept h1 hT hT' he ht₁ hu =>
    rw [ht'] at ht₁
    rw [Option.some.inj ht₁]
    exact ⟨h1, hu⟩
  | decide h0 => omega
  | send h0 => omega

theorem mem_log {u : Nat} {i : Intent} {v : String} :
    .write u i v ∈ (w.take key turn).log ↔ .write u i v ∈ w.log ∨ .write u i v ∈ turn.events := by
  show .write u i v ∈ w.log ++ (turn.fx.map .fx ++ turn.events) ↔ _
  simp

theorem uniq (h : w.Once) (g : Goes w key T may turn) {k k' : Nat} {x : String}
    (hk : worksOf ((w.take key turn).tasks k) = some x)
    (hk' : worksOf ((w.take key turn).tasks k') = some x) : k = k' := by
  refine one_slot (P := fun T => worksOf T = some x) ?_ h.uniq hk hk'
  -- an `op_id` the slot works for afterwards belongs to no other slot
  intro hx j hj hjx
  have hT : T.works = some x → False := fun hT => hj (h.uniq hjx (g.works.trans hT))
  cases g.passes with
  | on hacc hw ho ha hl hk he => exact hT (hw x hx)
  | accept hacc hT hT' he ht' hu ho hi hv =>
    apply g.reuse hacc j _ ht'
    rw [hT'] at hx
    rw [ho, hjx]
    exact hx.symm
  | decide hacc hst hT₀ hT' he ht hi =>
    rw [hT'] at hx
    rw [hT₀] at hT
    exact hT hx
  | send hacc hst ha ha' ho hw hl hs he => exact hT (hw.symm.trans hx)

/-- What the slot owes after the turn it owed before, or it is the write of a
    transaction that was active then or is active now. -/
theorem owes_cases (g : Goes w key T may turn) {u : Nat} {i : Intent}
    (hk : owesOf turn.task = some (u, i)) :
    (owesOf (w.tasks key) = some (u, i) ∧ worksOf turn.task = worksOf (w.tasks key) ∧
        turn.accepted = 0 ∧ T.lands = none) ∨
      (turn.accepted = 1 ∧ u = w.nextUid ∧ ∃ t', turn.st.active = some t' ∧ t'.uid = u ∧
        worksOf turn.task = some t'.opId ∧ t'.intent = some i) ∨
      (turn.accepted = 0 ∧ turn.st = w.st ∧ owesOf (w.tasks key) = none ∧
        ∃ t, w.st.active = some t ∧ t.uid = u ∧ worksOf (w.tasks key) = some t.opId ∧
          worksOf turn.task = some t.opId ∧ t.intent = some i ∧ i = .rollback) := by
  cases g.passes with
  | on hacc hw ho ha hl hk' he =>
    obtain ⟨h1, h2⟩ := ho (u, i) hk
    refine .inl ⟨g.owes.trans h1, h2.trans g.works.symm, hacc, ?_⟩
    by_contra hne
    rw [hl hne] at hk
    cases hk
  | accept hacc hT hT' he ht' hu hx hi hv =>
    rw [hT'] at hk
    cases hk
    refine .inr (.inl ⟨hacc, rfl, _, ht', hu, ?_, hi⟩)
    rw [hT', hx]; rfl
  | decide hacc hst hT hT' he ht hi =>
    rw [hT'] at hk
    cases hk
    refine .inr (.inr ⟨hacc, hst, ?_, _, ht, rfl, ?_, ?_, hi, rfl⟩)
    · rw [g.owes, hT]; rfl
    · rw [g.works, hT]; rfl
    · rw [hT']; rfl
  | send hacc hst ha ha' ho hw hl hs he =>
    exact .inl ⟨g.owes.trans (ho ▸ hk), hw.trans g.works.symm, hacc, hl⟩

theorem issued (hok : w.Ok) (h : w.Once) (g : Goes w key T may turn) {k u : Nat} {i : Intent}
    (hk : owesOf ((w.take key turn).tasks k) = some (u, i)) :
    u < (w.take key turn).nextUid := by
  show u < w.nextUid + turn.accepted
  by_cases hkey : k = key
  · rw [hkey, at_key] at hk
    rcases g.owes_cases hk with ⟨ho, -, -, -⟩ | ⟨hacc, hu, -⟩ | ⟨-, -, -, t, ht, hu, -⟩
    · have := h.issued ho
      omega
    · omega
    · have := (hok.active ht).fresh
      omega
  · rw [at_other hkey] at hk
    have := h.issued hk
    omega

theorem own (h : w.Once) (g : Goes w key T may turn) {k k' u : Nat} {i i' : Intent}
    (hk : owesOf ((w.take key turn).tasks k) = some (u, i))
    (hk' : owesOf ((w.take key turn).tasks k') = some (u, i')) : k = k' := by
  refine one_slot (P := fun T => ∃ i, owesOf T = some (u, i)) ?_ ?_ ⟨i, hk⟩ ⟨i', hk'⟩
  · rintro ⟨i, ho⟩ j hj ⟨i', hjo⟩
    rcases g.owes_cases ho with ⟨ho', -, -, -⟩ | ⟨-, hu, -⟩ | ⟨-, -, -, t, ht, hu, hx, -⟩
    · exact hj (h.own hjo ho')
    · have := h.issued hjo
      omega
    · exact hj (h.uniq ((h.bound hjo ht).mpr hu) hx)
  · rintro k k' ⟨i, hk⟩ ⟨i', hk'⟩
    exact h.own hk hk'

theorem bound (h : w.Once) (g : Goes w key T may turn) {k u : Nat} {i : Intent} {t' : Txn}
    (hk : owesOf ((w.take key turn).tasks k) = some (u, i))
    (ht' : turn.st.active = some t') :
    worksOf ((w.take key turn).tasks k) = some t'.opId ↔ t'.uid = u := by
  -- a slot that owed the write before, seen from a transaction that was there before
  have hold : ∀ {j}, turn.accepted = 0 → owesOf (w.tasks j) = some (u, i) →
      (worksOf (w.tasks j) = some t'.opId ↔ t'.uid = u) := by
    intro j hacc ho
    obtain ⟨t, ht, hid⟩ := g.same hacc ht'
    have hx : t'.opId = t.opId := congrArg Txn.Ident.opId hid
    have hu : t'.uid = t.uid := congrArg Txn.Ident.uid hid
    rw [hx, hu]
    exact h.bound ho ht
  by_cases hkey : k = key
  · rw [hkey, at_key] at hk ⊢
    rcases g.owes_cases hk with ⟨ho, hw, hacc, -⟩ | ⟨-, -, t₁, ht₁, hu, hw, -⟩ |
      ⟨hacc, hst, -, t₁, ht₁, hu, -, hw, -⟩
    · rw [hw]
      exact hold hacc ho
    · rw [ht'] at ht₁
      rw [Option.some.inj ht₁]
      exact ⟨fun _ => hu, fun _ => hw⟩
    · rw [hst, ht₁] at ht'
      rw [← Option.some.inj ht']
      exact ⟨fun _ => hu, fun _ => hw⟩
  · rw [at_other hkey] at hk ⊢
    rcases Nat.eq_zero_or_pos turn.accepted with hacc | hacc
    · exact hold hacc hk
    · -- a transaction was accepted: its number is new and so is its `op_id`
      obtain ⟨hone, hnew⟩ := g.accepted hacc ht'
      have hlt := h.issued hk
      constructor
      · intro hx; exact absurd hx (g.reuse hone k t' ht')
      · intro hu; omega

theorem armed (h : w.Once) (g : Goes w key T may turn) {k u : Nat} {i : Intent} {t' : Txn}
    (hk : owesOf ((w.take key turn).tasks k) = some (u, i))
    (ht' : turn.st.active = some t') (hu : t'.uid = u) : t'.intent = some i := by
  -- the writer of an open intent is the only one that can close it
  have hold : ∀ {j}, turn.accepted = 0 → owesOf (w.tasks j) = some (u, i) →
      (T.lands ≠ none → j ≠ key) → t'.intent = some i := by
    intro j hacc ho hland
    obtain ⟨t, ht, hid⟩ := g.same hacc ht'
    have htu : t.uid = u := (congrArg Txn.Ident.uid hid).symm.trans hu
    have hti := h.armed ho ht htu
    have hs := g.shift.sect
    rw [ht, ht'] at hs
    generalize hfresh : turn.fresh w.nextUid = fresh at hs
    generalize trail turn.fx = l at hs
    cases hs with
    | stay => exact hti
    | resave => exact hti
    | advance hi hm hid hf hl => rw [hti] at hi; cases hi
    | landed hw hs hid hf =>
      have hwork : worksOf (w.tasks key) = some t.opId := g.works.trans (Task.works_of_lands hw)
      have hj := h.uniq ((h.bound ho ht).mpr htu) hwork
      exact absurd hj (hland (by rw [hw]; exact nofun))
    | accept hfr ho =>
      have := (Turn.fresh_eq_some (hfresh.trans hfr)).2
      omega
  by_cases hkey : k = key
  · rw [hkey, at_key] at hk
    rcases g.owes_cases hk with ⟨ho, hw, hacc, hl⟩ | ⟨-, -, t₁, ht₁, -, -, hi⟩ |
      ⟨hacc, hst, -, t₁, ht₁, -, -, -, hi, -⟩
    · exact hold hacc ho (fun hne => absurd hl hne)
    · rw [ht'] at ht₁
      rw [Option.some.inj ht₁]
      exact hi
    · rw [hst, ht₁] at ht'
      rw [← Option.some.inj ht']
      exact hi
  · rw [at_other hkey] at hk
    rcases Nat.eq_zero_or_pos turn.accepted with hacc | hacc
    · exact hold hacc hk (fun _ => hkey)
    · have hnew := (g.accepted hacc ht').2
      have hlt := h.issued hk
      omega

theorem ahead' (hok : w.Ok) (h : w.Once) (g : Goes w key T may turn) {k u : Nat} {i : Intent}
    {v v' : String} (hk : aheadOf ((w.take key turn).tasks k) = some (u, i, v)) :
    .write u i v' ∉ (w.take key turn).log := by
  rw [mem_log]
  by_cases hkey : k = key
  · rw [hkey, at_key] at hk
    cases g.passes with
    | on hacc hw ho ha hl hk' he =>
      rintro (hm | hm)
      · exact h.ahead (g.ahead.trans (ha _ hk)) hm
      · exact he u i v' hm
    | accept hacc hT hT' he ht' hu hx hi hv =>
      rw [hT'] at hk
      cases hk
      rintro (hm | hm)
      · exact absurd (h.logged hm) (Nat.lt_irrefl _)
      · rw [he] at hm; cases hm
    | decide hacc hst hT hT' he ht hi =>
      rw [hT'] at hk
      cases hk
      rintro (hm | hm)
      · obtain ⟨j, hj⟩ := h.writer hok ht hi hm
        have hjx := (h.bound hj ht).mpr rfl
        have hkeyx : worksOf (w.tasks key) = some _ := g.works.trans (by rw [hT]; rfl)
        rw [h.uniq hjx hkeyx, g.owes, hT] at hj
        cases hj
      · rw [he] at hm; cases hm
    | send hacc hst ha ha' ho hw hl hs he => rw [ha'] at hk; cases hk
  · rw [at_other hkey] at hk
    rintro (hm | hm)
    · exact h.ahead hk hm
    · have ha := (g.passes.write_ahead hm).2.1
      exact hkey (h.own (owesOf_of_ahead hk) (g.owes.trans (Task.owes_of_ahead ha)))

theorem logged (h : w.Once) (g : Goes w key T may turn) {u : Nat} {i : Intent} {v : String}
    (hm : .write u i v ∈ (w.take key turn).log) : u < (w.take key turn).nextUid := by
  show u < w.nextUid + turn.accepted
  rcases mem_log.mp hm with hm | hm
  · have := h.logged hm
    omega
  · have ha := (g.passes.write_ahead hm).2.1
    have := h.issued (g.owes.trans (Task.owes_of_ahead ha))
    omega

/-- A slot with a write in the log either reports it in this turn or goes on owing
    it. -/
theorem sent_slot (hok : w.Ok) (h : w.Once) (g : Goes w key T may turn) {u : Nat} {v : String}
    {t t' : Txn} (hm : .write u .rollback v ∈ w.log) (ht : w.st.active = some t)
    (hu : t.uid = u) (ht' : turn.st.active = some t')
    (hkey : owesOf (w.tasks key) = some (u, .rollback)) :
    Ctl.Sent t'.ctl ∨ owesOf turn.task = some (u, .rollback) := by
  have hTo : T.owes = some (u, .rollback) := g.owes.symm.trans hkey
  cases g.passes with
  | on hacc hw ho ha hl hk he =>
    have hna : T.ahead = none := by
      rcases hTa : T.ahead with _ | ⟨u', i', v'⟩
      · rfl
      · have hpair := Task.owes_of_ahead hTa
        rw [hTo] at hpair
        cases hpair
        exact absurd hm (h.ahead (g.ahead.trans hTa))
    rcases hk u hTo hna with h₁ | h₁
    · exact .inr (h₁.trans hTo)
    · refine .inl (h₁ t t' ht ?_ (hok.st.inv t ht) (h.armed hkey ht hu) ht')
      exact g.works.symm.trans ((h.bound hkey ht).mpr hu)
  | accept hacc hT => rw [hT] at hTo; cases hTo
  | decide hacc hst hT => rw [hT] at hTo; cases hTo
  | send hacc hst ha ha' ho hw hl hs he => exact .inr (ho.trans hTo)

theorem sent (hok : w.Ok) (h : w.Once) (g : Goes w key T may turn) {u : Nat} {v : String} {t' : Txn}
    (hm : .write u .rollback v ∈ (w.take key turn).log) (ht' : turn.st.active = some t')
    (hu : t'.uid = u) :
    Ctl.Sent t'.ctl ∨ ∃ k, owesOf ((w.take key turn).tasks k) = some (u, .rollback) := by
  -- the writer, in whichever slot it is, goes on owing the write or reports it now
  have hwriter : ∀ {t k}, .write u .rollback v ∈ w.log → w.st.active = some t → t.uid = u →
      owesOf (w.tasks k) = some (u, .rollback) →
      Ctl.Sent t'.ctl ∨ ∃ k, owesOf ((w.take key turn).tasks k) = some (u, .rollback) := by
    intro t k hml ht htu hk
    by_cases hkey : k = key
    · rw [hkey] at hk
      rcases g.sent_slot hok h hml ht htu ht' hk with h₁ | h₁
      · exact .inl h₁
      · exact .inr ⟨key, by rw [at_key]; exact h₁⟩
    · exact .inr ⟨k, by rw [at_other hkey]; exact hk⟩
  rcases Nat.eq_zero_or_pos turn.accepted with hacc | hacc
  · obtain ⟨t, ht, hid⟩ := g.same hacc ht'
    have htu : t.uid = u := (congrArg Txn.Ident.uid hid).symm.trans hu
    rcases mem_log.mp hm with hml | hme
    · have hs := g.shift.sect
      rw [ht, ht'] at hs
      generalize hfresh : turn.fresh w.nextUid = fresh at hs
      generalize trail turn.fx = l at hs
      rcases h.sent hml ht htu with h₁ | ⟨k, hk⟩
      · cases hs with
        | stay => exact .inl h₁
        | resave => exact .inl h₁
        | advance hi hms hid hf hl => exact .inl (h₁.moves hms)
        | landed hw hst hid hf => exact .inl (h₁.step hst)
        | accept hfr ho =>
          have := (Turn.fresh_eq_some (hfresh.trans hfr)).2
          omega
      · have hi := h.armed hk ht htu
        cases hs with
        | stay => exact hwriter hml ht htu hk
        | resave => exact hwriter hml ht htu hk
        | advance hn hms hid hf hl => rw [hi] at hn; cases hn
        | landed hw hst hid hf => exact .inl (hst.sent_of_rollback (hok.st.inv t ht) hi)
        | accept hfr ho =>
          have := (Turn.fresh_eq_some (hfresh.trans hfr)).2
          omega
    · -- the write starts in this turn: its writer owes it
      obtain ⟨-, ha, ho, -⟩ := g.passes.write_ahead hme
      exact .inr ⟨key, by rw [at_key, ho]; exact Task.owes_of_ahead ha⟩
  · obtain ⟨-, hnew⟩ := g.accepted hacc ht'
    rcases mem_log.mp hm with hml | hme
    · have := h.logged hml
      omega
    · have := (g.passes.write_ahead hme).1
      omega

theorem once (h : w.Once) (g : Goes w key T may turn) (u : Nat) (i : Intent) :
    (w.take key turn).log.countP (Event.isWrite u i) ≤ 1 := by
  have hcount : (w.take key turn).log.countP (Event.isWrite u i) =
      w.log.countP (Event.isWrite u i) + turn.events.countP (Event.isWrite u i) := by
    show (w.log ++ (turn.fx.map Event.fx ++ turn.events)).countP _ = _
    rw [← List.append_assoc, List.countP_append, countP_fx]
  rw [hcount]
  have hold := h.once u i
  cases g.passes with
  | on hacc hw ho ha hl hk he =>
    have : turn.events.countP (Event.isWrite u i) = 0 := by
      rw [List.countP_eq_zero]
      intro e hm hw
      obtain ⟨v, rfl⟩ := Event.isWrite_iff.mp hw
      exact he u i v hm
    omega
  | accept hacc hT hT' he => rw [he]; exact hold
  | decide hacc hst hT hT' he => rw [he]; exact hold
  | @send u' i' v' hacc hst ha ha' ho hw hl hs he =>
    rw [he, List.countP_singleton]
    split
    · rename_i hw
      obtain ⟨v, heq⟩ := Event.isWrite_iff.mp hw
      cases heq
      have : w.log.countP (Event.isWrite u i) = 0 := by
        rw [List.countP_eq_zero]
        intro e hm hw'
        obtain ⟨v₁, rfl⟩ := Event.isWrite_iff.mp hw'
        exact h.ahead (g.ahead.trans ha) hm
      omega
    · exact hold

end Goes

/-- **One turn keeps the writes apart.** -/
theorem Once.take {w : World} {key : Nat} {T : Task} {may : Bool} {turn : Turn} (hok : w.Ok)
    (hok' : (w.take key turn).Ok) (hu : w.up = true) (h : w.Once) (g : Goes w key T may turn) :
    (w.take key turn).Once := by
  refine ⟨g.uniq h, g.own h, g.issued hok h, g.bound h, g.armed h, g.ahead' hok h, g.logged h,
    g.sent hok h, ?_, g.once h⟩
  intro u v p hm hp hpu
  -- between sections the file says what the active transaction says
  obtain ⟨t, ht, hc, hid, -⟩ := (hok'.mirror hu).active hp
  have htu : t.uid = u := (congrArg Txn.Ident.uid hid).symm.trans hpu
  rw [hc]
  rcases g.sent hok h hm ht htu with h₁ | ⟨k, hk⟩
  · exact .inl h₁
  · exact .inr ((congrArg Ctl.intent hc).trans (g.armed h hk ht htu))

/-! ### Crashes and restarts -/

/-- Whatever a turn leaves active, its rollback is not wanted twice. -/
theorem Once.after {w : World} (hok : w.Ok) (h : w.Once) {who : Option String} {may : Bool}
    {turn : Turn} (hs : Shift who may (turn.fresh w.nextUid) w.st turn.st turn.fx) {u : Nat}
    {v : String} {t' : Txn} (hm : .write u .rollback v ∈ w.log)
    (ht' : turn.st.active = some t') (hu : t'.uid = u) :
    Ctl.Sent t'.ctl ∨ t'.intent = some .rollback := by
  have hlt := h.logged hm
  have hsect := hs.sect
  rw [ht'] at hsect
  have hbefore : ∀ {t}, w.st.active = some t → t.uid = u →
      Ctl.Sent t.ctl ∨ t.intent = some .rollback := by
    intro t ht htu
    rcases h.sent hm ht htu with h₁ | ⟨k, hk⟩
    · exact .inl h₁
    · exact .inr (h.armed hk ht htu)
  generalize hfresh : turn.fresh w.nextUid = fresh at hsect
  generalize hact : w.st.active = a at hsect
  generalize trail turn.fx = l at hsect
  cases hsect with
  | stay => exact hbefore hact hu
  | resave => exact hbefore hact hu
  | advance hi hms hid hf hl =>
    rcases hbefore hact ((congrArg Txn.Ident.uid hid).symm.trans hu) with h₁ | h₁
    · exact .inl (h₁.moves hms)
    · rw [hi] at h₁; cases h₁
  | landed hw hst hid hf =>
    rcases hbefore hact ((congrArg Txn.Ident.uid hid).symm.trans hu) with h₁ | h₁
    · exact .inl (h₁.step hst)
    · exact .inl (hst.sent_of_rollback (hok.st.inv _ hact) h₁)
  | accept hfr ho =>
    have hnew := (Turn.fresh_eq_some (hfresh.trans hfr)).1
    have hu : _ = u := hu
    exact absurd hlt (by rw [← hu, ← hnew]; exact Nat.lt_irrefl _)

theorem mem_log_die {w : World} {fx : List Effect} {n u : Nat} {i : Intent} {v : String} :
    .write u i v ∈ (w.die fx n).log ↔ .write u i v ∈ w.log := by
  show .write u i v ∈ w.log ++ fx.map .fx ↔ _
  simp

theorem Once.die {w : World} (h : w.Once) {fx : List Effect} {n : Nat}
    (hq : ∀ u v p, .write u .rollback v ∈ w.log →
      pendingAfter w.disk.pending (trail fx) = some p → p.uid = u →
        Ctl.Sent p.ctl ∨ p.intent = some .rollback) : (w.die fx n).Once := by
  refine ⟨fun hk => (nomatch hk), fun hk => (nomatch hk), fun hk => (nomatch hk),
    fun hk => (nomatch hk), fun hk => (nomatch hk), fun hk => (nomatch hk), ?_,
    fun _ ht => (nomatch ht), ?_, ?_⟩
  · intro u i v hm
    have := h.logged (mem_log_die.mp hm)
    show u < w.nextUid + n
    omega
  · intro u v p hm hp hu
    have hp : (w.disk.applyAll fx).pending = some p := hp
    rw [Disk.applyAll_pending] at hp
    exact hq u v p (mem_log_die.mp hm) hp hu
  · intro u i
    show (w.log ++ fx.map Event.fx).countP _ ≤ 1
    rw [countP_fx]
    exact h.once u i

theorem Once.dieTurn {w : World} (hok : w.Ok) (h : w.Once) {who : Option String} {may : Bool}
    {turn : Turn} (n : Nat) (hs : Shift who may (turn.fresh w.nextUid) w.st turn.st turn.fx) :
    (w.die (turn.fx.take n) turn.accepted).Once := by
  apply h.die
  intro u v p hm hp hu
  rcases @Sect.crash _ _ _ _ _ w.disk.pending _ _ hs.sect (trail_take turn.fx n) with hq | hq | hq
  · rw [hq] at hp
    exact h.sentDisk hm hp hu
  · rw [hq] at hp; cases hp
  · rw [hq] at hp
    exact h.after hok hs hm hp hu

/-- After `start`, the rollback of a saved transaction is behind it when its intent
    was saved, or when it was behind it before. -/
theorem sent_of_start {w : World} (hok : w.Ok) {bootId : String} {now : Nat} {t : Txn}
    (ht : (w.disk.start bootId now).1.active = some t)
    (hp : ∀ p, w.disk.pending = some p → p.uid = t.uid →
      Ctl.Sent p.ctl ∨ p.intent = some .rollback) : Ctl.Sent t.ctl := by
  obtain ⟨p, hpend, hid, c, hstep, hmoves⟩ := (hok.resumed bootId now).2.source ht
  rcases hp p hpend (congrArg Txn.Ident.uid hid).symm with h₁ | h₁
  · exact (h₁.step hstep).moves hmoves
  · exact (hstep.sent_of_rollback (hok.saved p hpend).inv h₁).moves hmoves

theorem Once.resumed {w : World} (hok : w.Ok) (h : w.Once) {bootId : String} {now u : Nat}
    {v : String} {t : Txn} (hm : .write u .rollback v ∈ w.log)
    (ht : (w.disk.start bootId now).1.active = some t) (hu : t.uid = u) : Ctl.Sent t.ctl :=
  sent_of_start hok ht fun _ hp hpu => h.sentDisk hm hp (hpu.trans hu)

/-- A started process has one driver at most, which owes nothing yet. -/
theorem startTasks_free (st : St) (key k : Nat) :
    owesOf (startTasks st key k) = none ∧ aheadOf (startTasks st key k) = none := by
  rw [startTasks, setTask]
  split
  · cases st.active <;> exact ⟨rfl, rfl⟩
  · exact ⟨rfl, rfl⟩

theorem startTasks_works {st : St} {key k : Nat} {x : String}
    (h : worksOf (startTasks st key k) = some x) : k = key := by
  by_contra hne
  rw [startTasks, setTask] at h
  rw [if_neg hne] at h
  cases h

theorem Once.start {cfg : Config} {w w' : World} {key : Nat} {bootId : String} {now : Nat}
    (hok : w.Ok) (hok' : w'.Ok) (h : w.Once) (hs : Step cfg w (.start key bootId now) w') :
    w'.Once := by
  cases hs with
  | start hu =>
    have hmem : ∀ {u i v}, .write u i v ∈ w.log ++ (w.disk.start bootId now).2.map .fx →
        .write u i v ∈ w.log := by
      intro u i v hm
      simpa using hm
    constructor
    · intro k k' x hk hk'
      exact (startTasks_works hk).trans (startTasks_works hk').symm
    · intro k k' u i i' hk; rw [(startTasks_free _ key k).1] at hk; cases hk
    · intro k u i hk; rw [(startTasks_free _ key k).1] at hk; cases hk
    · intro k u i t hk; rw [(startTasks_free _ key k).1] at hk; cases hk
    · intro k u i t hk; rw [(startTasks_free _ key k).1] at hk; cases hk
    · intro k u i v v' hk; rw [(startTasks_free _ key k).2] at hk; cases hk
    · intro u i v hm; exact h.logged (hmem hm)
    · intro u v t hm ht hu; exact .inl (h.resumed hok (hmem hm) ht hu)
    · intro u v p hm hp hpu
      obtain ⟨t, hact, hc, hid, -⟩ := (hok'.mirror rfl).active hp
      rw [hc]
      exact .inl (h.resumed hok (hmem hm) hact ((congrArg Txn.Ident.uid hid).symm.trans hpu))
    · intro u i
      show (w.log ++ (w.disk.start bootId now).2.map Event.fx).countP _ ≤ 1
      rw [countP_fx]
      exact h.once u i

/-! ### Runs -/

/-- A slot changes and nothing else happens. -/
def idleTurn (w : World) (T' : Option Task) : Turn :=
  { task := T', st := w.st, draining := w.draining }

theorem take_idle (w : World) (key : Nat) (T' : Option Task) :
    w.take key (w.idleTurn T') = { w with tasks := setTask w.tasks key T' } := by
  show World.mk w.up w.bootId w.st w.draining (w.disk.applyAll []) (setTask w.tasks key T')
    (w.nextUid + 0) (w.log ++ []) = _
  rw [List.append_nil]
  rfl

theorem Goes.task {cfg : Config} {w : World} (hok : w.Ok) {key : Nat} {T : Task}
    (hT : w.tasks key = some T) (i : Input) (hr : NoReuse cfg w (.task key i)) :
    Goes w key T T.cancels (w.turnOf cfg T i) := by
  have hp := T.turn_passes cfg w.bootId w.nextUid w.st w.draining i
  refine ⟨?_, ?_, ?_, hp, turnOf_shift cfg hok.st T i, ?_⟩
  · rw [hT]; rfl
  · rw [hT]; rfl
  · rw [hT]; rfl
  · intro hacc k t' ht'
    cases hp with
    | on h0 => rw [turnOf, h0] at hacc; cases hacc
    | accept h1 hTr hT' he ht₁ hu hx =>
      have heq := ht₁.symm.trans ht'
      rw [← Option.some.inj heq, hx]
      rw [hTr] at hT hacc
      exact hr key i _ _ rfl hT hacc k
    | decide h0 => rw [turnOf, h0] at hacc; cases hacc
    | send h0 => rw [turnOf, h0] at hacc; cases hacc

theorem Goes.call (w : World) {key : Nat} (hk : w.tasks key = none) (c : Call) :
    Goes w key .kick c.cancels (c.turn w.st w.draining) := by
  obtain ⟨hworks, howes, hahead⟩ := c.turn_free w.st w.draining
  refine ⟨by rw [hk]; rfl, by rw [hk]; rfl, by rw [hk]; rfl, ?_, call_shift c w, ?_⟩
  · rw [(call_fresh c w.st w.draining w.nextUid).1, Call.turn_events]
    refine .of_free ?_ rfl howes hahead (by simp)
    intro x h; rw [hworks] at h; cases h
  · intro hacc
    rw [(call_fresh c w.st w.draining w.nextUid).1] at hacc
    cases hacc

theorem Goes.submit {w : World} {key : Nat} (hk : w.tasks key = none) (req : Request)
    (x : String) : Goes w key .kick false (w.idleTurn (some (.submit req x))) := by
  refine ⟨by rw [hk]; rfl, by rw [hk]; rfl, by rw [hk]; rfl, ?_, .refl w.st rfl, ?_⟩
  · exact .of_free (fun y h => by cases h) rfl rfl rfl (by simp [idleTurn])
  · intro hacc; cases hacc

theorem Goes.drop {w : World} {key : Nat} {T : Task} (hT : w.tasks key = some T)
    (hd : droppable T = true) : Goes w key T false (w.idleTurn none) := by
  refine ⟨by rw [hT]; rfl, by rw [hT]; rfl, by rw [hT]; rfl, ?_, .refl w.st rfl, ?_⟩
  · refine .on rfl (fun x h => by cases h) (fun o h => by cases h) (fun o h => by cases h)
      (fun _ => rfl) ?_ (by simp [idleTurn])
    intro u hu
    cases T with
    | submitRead => exact (nomatch hu)
    | submitWait => exact (nomatch hu)
    | _ => cases hd
  · intro hacc; cases hacc

/-- **Every step that reuses no `op_id` keeps the writes apart.** -/
theorem Once.step {cfg : Config} {w w' : World} {a : Act} (hok : w.Ok) (h : w.Once)
    (hr : NoReuse cfg w a) (hs : Step cfg w a w') : w'.Once := by
  have hok' : w'.Ok := hok.step hs
  have hstep := hs
  cases hs with
  | submit hu hk =>
    rw [← take_idle] at hok' ⊢
    exact h.take hok hok' hu (.submit hk _ _)
  | task ht => exact h.take hok hok' (hok.up ht) (.task hok ht _ hr)
  | call hu hk => exact h.take hok hok' hu (.call w hk _)
  | drop ht hd =>
    rw [← take_idle] at hok' ⊢
    exact h.take hok hok' (hok.up ht) (.drop ht hd)
  | start hu => exact h.start hok hok' hstep
  | takeover =>
    exact ⟨h.uniq, h.own, h.issued, h.bound, h.armed, h.ahead, h.logged, h.sent, h.sentDisk, h.once⟩
  | crash hu => exact h.die fun _ _ _ hm hp hu => h.sentDisk hm hp hu
  | crashTask ht => exact h.dieTurn hok _ (turnOf_shift cfg hok.st _ _)
  | @crashCall c n hu =>
    have := h.dieTurn hok n (call_shift c w)
    rw [(call_fresh c w.st w.draining w.nextUid).1] at this
    exact this
  | @crashStart bootId now n hu =>
    apply h.die
    intro u v p hm hp hpu
    rcases pendingAfter_cases (trail ((w.disk.start bootId now).2.take n)) w.disk.pending
      with hq | ⟨-, hq⟩ | ⟨t, ht, hq⟩
    · rw [hq] at hp
      exact h.sentDisk hm hp hpu
    · rw [hq] at hp; cases hp
    · have ht' := (hok.resumed bootId now).2.saved ((trail_take _ n).mem ht)
      rw [hq] at hp
      rw [← Option.some.inj hp] at hpu ⊢
      exact .inl (h.resumed hok hm ht' hpu)

theorem Once.exec {cfg : Config} {w : World} (h : Exec (next cfg) (NoReuse cfg) {} w) :
    w.Ok ∧ w.Once := by
  refine h.invariant (fun w => w.Ok ∧ w.Once) ?_ ⟨.empty, .empty⟩
  rintro v v' a ⟨hok, hv⟩ hr hs
  exact ⟨hok.step (next_step hs), hv.step hok hr (next_step hs)⟩

end World

end Datad
