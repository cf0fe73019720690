/-
  Datad/Ops/Resume.lean
  =====================
  **A finished transaction is not resumed.**

  Three files record the end of a transaction: a journal line, `last.json`, and the
  removal of `pending.json`.  Where the driver ends a transaction the file goes first;
  a user's decision, a safety write, a changed SIM and an overriding `submit` write
  the journal and `last.json` first.  If the process dies in between, the next start
  finds the file and resumes what is over.  With no death in that place, what has been
  recorded as ended never comes back.
-/
import Datad.Ops.Turns
import Datad.Ops.WriteOnce

namespace Datad

open Transition

/-- The end of this transaction has been written to the journal or to `last.json`. -/
def Recorded (l : List Event) (u : Nat) : Prop :=
  ∃ t : Txn, t.uid = u ∧ t.phase.isFinal = true ∧
    (.fx (.append (.txn t)) ∈ l ∨ ∃ acked, .fx (.saveLast ⟨t, acked⟩) ∈ l)

def Effect.endLine : Effect → Bool
  | .append (.txn _) => true
  | _ => false

def Effect.onPending : Effect → Bool
  | .save _ | .clear => true
  | _ => false

/-- Effects that record the end of a transaction and leave `pending.json` as it was. -/
def torn (fx : List Effect) : Bool := fx.any Effect.endLine && !fx.any Effect.onPending

theorem torn_trail (fx : List Effect) : torn (trail fx) = torn fx := by
  have hend : ∀ e : Effect, (e.onTrail && e.endLine) = e.endLine := by
    intro e
    cases e with
    | append line => cases line <;> rfl
    | _ => rfl
  have hpend : ∀ e : Effect, (e.onTrail && e.onPending) = e.onPending := by
    intro e
    cases e <;> first | rfl | exact Bool.and_false _
  simp only [torn, trail, List.any_filter, hend, hpend]

/-! ### One section -/

theorem mem_prefix_two {α : Type} {x y : α} {l : List α} (h : l <+: [x, y]) :
    l = [] ∨ l = [x] ∨ l = [x, y] := by
  obtain ⟨s, hs⟩ := h
  rcases l with _ | ⟨a, _ | ⟨b, l⟩⟩
  · exact .inl rfl
  · simp_all
  · simp_all

/-- A death inside the section after an end was recorded, with `pending.json` no longer
    as it was: what the file holds then is new. -/
theorem Sect.mended {who : Option String} {may : Bool} {fresh : Option Nat} {a a' : Option Txn}
    {l l' : List Effect} (h : Sect who may fresh a a' l) (hl' : l' <+: l)
    (hm : torn l' = false) {t : Txn} (ht : .append (.txn t) ∈ l') {p : Option Txn} {q : Txn}
    (hq : pendingAfter p l' = some q) : fresh = some q.uid := by
  have hpend : l'.any Effect.onPending = true := by
    by_contra hno
    have hend : l'.any Effect.endLine = true := List.any_eq_true.mpr ⟨_, ht, rfl⟩
    rw [torn, hend, Bool.eq_false_iff.mpr hno] at hm
    cases hm
  cases h with
  | stay => rw [List.prefix_nil.mp hl'] at ht; cases ht
  | resave u => simpa using hl'.mem ht
  | advance hi hmv hid hf hl =>
    rcases hl with rfl | ⟨rfl, -⟩
    · simpa using hl'.mem ht
    · rw [List.prefix_nil.mp hl'] at ht; cases ht
  | landed hw hs hid hf => simpa using hl'.mem ht
  | close hmv hid hf hc hl =>
    exfalso
    rcases hl with rfl | rfl
    · rcases mem_prefix_two hl' with rfl | rfl | rfl
      · cases ht
      · cases hpend
      · cases hq
    · -- the file was removed first
      rcases List.prefix_cons_iff.mp hl' with rfl | ⟨l'', rfl, hl''⟩
      · cases ht
      · rcases mem_prefix_two hl'' with rfl | rfl | rfl <;> cases hq
  | @accept a n now hu ho =>
    rcases a with _ | t₀
    · simpa using hl'.mem ht
    · rcases mem_prefix_two hl' with rfl | rfl | rfl
      · cases ht
      · cases hpend
      · rw [← Option.some.inj hq]
        exact hu

/-- What a section files is the end of the transaction it ends, or what had been filed
    before. -/
theorem Files.recorded {st st' : St} {fx fx' : List Effect} (hf : Files st st' fx)
    (hp : fx' <+: fx) {l : Last} (hm : .saveLast l ∈ fx') :
    (∃ l₀, st.last = some l₀ ∧ l.txn = l₀.txn) ∨ .append (.txn l.txn) ∈ fx' := by
  have hb : books fx' <+: books fx := hp.filter _
  have hm' : .saveLast l ∈ books fx' := mem_books.mpr ⟨hm, rfl⟩
  rw [Files] at hf
  generalize books fx = b at hf hb
  generalize st'.recent = r at hf
  generalize st'.last = l' at hf
  cases hf with
  | none => rw [List.prefix_nil.mp hb] at hm'; cases hm'
  | @retire t hfin =>
    have heq : l = ⟨t, false⟩ := by simpa using hb.mem hm'
    subst heq
    right
    rcases mem_prefix_two hb with h | h | h
    · rw [h] at hm'; cases hm'
    · rw [h] at hm'; simp at hm'
    · have : .append (.txn t) ∈ books fx' := by rw [h]; exact List.mem_cons_self
      exact (mem_books.mp this).1
  | @ack l₀ hl =>
    have heq : l = { l₀ with acked := true } := by simpa using hb.mem hm'
    left
    rw [heq]
    exact ⟨l₀, hl, rfl⟩

theorem Files.last {st st' : St} {fx : List Effect} (hf : Files st st' fx) {l : Last}
    (hl : st'.last = some l) :
    (∃ l₀, st.last = some l₀ ∧ l.txn = l₀.txn) ∨ .saveLast l ∈ fx := by
  rw [Files] at hf
  generalize hb : books fx = b at hf
  generalize st'.recent = r at hf
  generalize st.last = l₀ at hf ⊢
  rw [hl] at hf
  cases hf with
  | none => exact .inl ⟨l, rfl, rfl⟩
  | retire hfin =>
    right
    apply (mem_books.mp _).1
    rw [hb]
    exact List.mem_cons_of_mem _ List.mem_cons_self
  | ack hl₀ => exact .inl ⟨_, hl₀, rfl⟩

/-- The lines that record an end carry a final phase. -/
theorem Files.final {st st' : St} {fx : List Effect} (hf : Files st st' fx) {t : Txn}
    (hm : .append (.txn t) ∈ fx) : t.phase.isFinal = true := by
  have hm' : .append (.txn t) ∈ books fx := mem_books.mpr ⟨hm, rfl⟩
  rw [Files] at hf
  generalize books fx = b at hf hm'
  generalize st'.recent = r at hf
  generalize st'.last = l' at hf
  cases hf with
  | none => cases hm'
  | @retire u hfin =>
    have heq : t = u := by simpa using hm'
    rw [heq]
    exact hfin
  | ack => simp at hm'

theorem Disk.applyAll_last {l : Last} (fx : List Effect) :
    ∀ {d : Disk}, (d.applyAll fx).last = some l → d.last = some l ∨ .saveLast l ∈ fx := by
  induction fx with
  | nil => intro d h; exact .inl h
  | cons e fx ih =>
    intro d h
    rcases @ih (d.apply e) h with h | h
    · cases e with
      | saveLast l' =>
        rw [← Option.some.inj h]
        exact .inr List.mem_cons_self
      | _ => exact .inl h
    · exact .inr (List.mem_cons_of_mem _ h)

/-- The end of this transaction in the journal. -/
def recordedEnd (l : List Event) (u : Nat) : Bool :=
  l.any fun
    | .fx (.append (.txn t)) => decide (t.uid = u) && t.phase.isFinal
    | _ => false

theorem Recorded.of_end {l : List Event} {u : Nat} (h : recordedEnd l u = true) :
    Recorded l u := by
  obtain ⟨e, hm, he⟩ := List.any_eq_true.mp h
  split at he
  · rename_i t
    rw [Bool.and_eq_true, decide_eq_true_eq] at he
    exact ⟨t, he.1, he.2, .inl hm⟩
  · cases he

namespace World

/-! ### What is recorded stays over -/

structure Buried (w : World) : Prop where
  issued : ∀ {u}, Recorded w.log u → u < w.nextUid
  active : ∀ {u t}, Recorded w.log u → w.st.active = some t → t.uid ≠ u
  pending : ∀ {u p}, Recorded w.log u → w.disk.pending = some p → p.uid ≠ u
  last : ∀ {l}, w.st.last = some l → Recorded w.log l.txn.uid
  lastDisk : ∀ {l}, w.disk.last = some l → Recorded w.log l.txn.uid

theorem Buried.empty : Buried {} := by
  constructor
  · rintro u ⟨t, -, -, h | ⟨acked, h⟩⟩ <;> cases h
  · intro u t _ h; cases h
  · intro u p _ h; cases h
  · intro l h; cases h
  · intro l h; cases h

theorem recorded_mono {l l' : List Event} {u : Nat} (h : Recorded l u) : Recorded (l ++ l') u := by
  obtain ⟨t, hu, hf, hm | ⟨acked, hm⟩⟩ := h
  · exact ⟨t, hu, hf, .inl (List.mem_append_left _ hm)⟩
  · exact ⟨t, hu, hf, .inr ⟨acked, List.mem_append_left _ hm⟩⟩

/-- The ends recorded after some of a section's effects. -/
theorem recorded_cases {st st' : St} {log log' : List Event} {fx fx' : List Effect}
    (hmem : ∀ e, .fx e ∈ log' ↔ .fx e ∈ log ∨ e ∈ fx') (hf : Files st st' fx)
    (hp : fx' <+: fx) (hlast : ∀ {l}, st.last = some l → Recorded log l.txn.uid) {u : Nat}
    (h : Recorded log' u) :
    Recorded log u ∨ ∃ t, .append (.txn t) ∈ fx' ∧ t.uid = u := by
  obtain ⟨t, hu, hfin, hm | ⟨acked, hm⟩⟩ := h
  · rcases (hmem _).mp hm with hm | hm
    · exact .inl ⟨t, hu, hfin, .inl hm⟩
    · exact .inr ⟨t, hm, hu⟩
  · rcases (hmem _).mp hm with hm | hm
    · exact .inl ⟨t, hu, hfin, .inr ⟨acked, hm⟩⟩
    · rcases hf.recorded hp hm with ⟨l₀, hl₀, heq⟩ | hm
      · have heq : t = l₀.txn := heq
        rw [heq] at hu
        rw [← hu]
        exact .inl (hlast hl₀)
      · exact .inr ⟨t, hm, hu⟩

theorem Buried.turn {cfg : Config} {w : World} (hok : w.Ok) (h : w.Buried) {key : Nat} {T : Task}
    {turn : Turn} (hok' : (w.take key turn).Ok) (hup : w.up = true) (g : Turned cfg w key T turn) :
    (w.take key turn).Buried := by
  obtain ⟨who, may, hs⟩ := g.shift
  have hmem : ∀ e, .fx e ∈ (w.take key turn).log ↔ .fx e ∈ w.log ∨ e ∈ turn.fx :=
    fun e => mem_take_fx g.events
  have hcases := fun {u} => @recorded_cases _ _ _ _ _ _ hmem g.files (List.prefix_refl _) h.last u
  have hold : ∀ {u}, Recorded (w.take key turn).log u → u < w.nextUid ∧
      ∀ t, turn.st.active = some t → t.uid ≠ u := by
    intro u hu
    rcases hcases hu with hu | ⟨t', hm, rfl⟩
    · refine ⟨h.issued hu, ?_⟩
      intro t ht
      rcases hs.sect.source ht with ⟨t₀, ht₀, hid⟩ | hfresh
      · have huid : t.uid = t₀.uid := congrArg Txn.Ident.uid hid
        rw [huid]
        exact h.active hu ht₀
      · have := (Turn.fresh_eq_some hfresh).1
        have := h.issued hu
        omega
    · obtain ⟨t₀, ht₀, hid, -, hnew⟩ := hs.sect.ended (mem_trail.mpr ⟨hm, rfl⟩)
      have huid : t'.uid = t₀.uid := congrArg Txn.Ident.uid hid
      have hlt := (hok.active ht₀).fresh
      refine ⟨by omega, ?_⟩
      intro t ht
      have := (Turn.fresh_eq_some (hnew t ht)).1
      omega
  have hsaved : ∀ {l}, .saveLast l ∈ turn.fx → Recorded (w.take key turn).log l.txn.uid := by
    intro l hm
    rcases g.files.recorded (List.prefix_refl _) hm with ⟨l₀, hl₀, heq⟩ | hm
    · rw [heq]
      exact recorded_mono (h.last hl₀)
    · exact ⟨l.txn, rfl, g.files.final hm, .inl ((hmem _).mpr (.inr hm))⟩
  refine ⟨?_, fun hu ht => (hold hu).2 _ ht, ?_, ?_, ?_⟩
  · intro u hu
    exact Nat.lt_add_right _ (hold hu).1
  · intro u p hu hp
    obtain ⟨t, hact, -, hid, -⟩ := (hok'.mirror hup).active hp
    have huid : p.uid = t.uid := congrArg Txn.Ident.uid hid
    rw [huid]
    exact (hold hu).2 t hact
  · intro l hl
    rcases g.files.last hl with ⟨l₀, hl₀, heq⟩ | hm
    · rw [heq]
      exact recorded_mono (h.last hl₀)
    · exact hsaved hm
  · intro l hl
    rcases Disk.applyAll_last _ hl with hl | hm
    · exact recorded_mono (h.lastDisk hl)
    · exact hsaved hm

/-- The process dies after some effects of a section.  What the file holds then must not
    be among what is recorded. -/
theorem Buried.die {w : World} (h : w.Buried) {st st' : St} {fx fx' : List Effect} {n : Nat}
    (hf : Files st st' fx) (hp : fx' <+: fx)
    (hlast : ∀ {l}, st.last = some l → Recorded w.log l.txn.uid)
    (hold : ∀ {u p}, Recorded w.log u → pendingAfter w.disk.pending (trail fx') = some p →
      p.uid ≠ u)
    (hnew : ∀ {t}, .append (.txn t) ∈ fx' → t.uid < w.nextUid ∧
      ∀ p, pendingAfter w.disk.pending (trail fx') = some p → p.uid ≠ t.uid) :
    (w.die fx' n).Buried := by
  have hmem : ∀ e, .fx e ∈ (w.die fx' n).log ↔ .fx e ∈ w.log ∨ e ∈ fx' := fun e => mem_die_fx
  have hcases := fun {u} => @recorded_cases _ _ _ _ _ _ hmem hf hp hlast u
  refine ⟨?_, fun _ ht => (nomatch ht), ?_, fun hl => (nomatch hl), ?_⟩
  · intro u hu
    apply Nat.lt_add_right
    rcases hcases hu with hu | ⟨t, hm, rfl⟩
    · exact h.issued hu
    · exact (hnew hm).1
  · intro u p hu hpend
    have hpend : (w.disk.applyAll fx').pending = some p := hpend
    rw [Disk.applyAll_pending] at hpend
    rcases hcases hu with hu | ⟨t, hm, rfl⟩
    · exact hold hu hpend
    · exact (hnew hm).2 p hpend
  · intro l hl
    rcases Disk.applyAll_last _ hl with hl | hm
    · exact recorded_mono (h.lastDisk hl)
    · rcases hf.recorded hp hm with ⟨l₀, hl₀, heq⟩ | hm
      · rw [heq]
        exact recorded_mono (hlast hl₀)
      · exact ⟨l.txn, rfl, hf.final (hp.mem hm), .inl ((hmem _).mpr (.inr hm))⟩

theorem Buried.dieTurn {w : World} (hok : w.Ok) (h : w.Buried) {who : Option String} {may : Bool}
    {turn : Turn} {fx' : List Effect} (hp : fx' <+: turn.fx)
    (hs : Shift who may (turn.fresh w.nextUid) w.st turn.st turn.fx)
    (hf : Files w.st turn.st turn.fx) (ht : torn fx' = false) :
    (w.die fx' turn.accepted).Buried := by
  have hpt : trail fx' <+: trail turn.fx := hp.filter _
  refine h.die hf hp h.last ?_ ?_
  · intro u p hu hpend
    rcases @Sect.crash _ _ _ _ _ w.disk.pending _ _ hs.sect hpt with hq | hq | hq
    · rw [hq] at hpend
      exact h.pending hu hpend
    · rw [hq] at hpend; cases hpend
    · rw [hq] at hpend
      rcases hs.sect.source hpend with ⟨t₀, ht₀, hid⟩ | hfresh
      · have huid : p.uid = t₀.uid := congrArg Txn.Ident.uid hid
        rw [huid]
        exact h.active hu ht₀
      · have := (Turn.fresh_eq_some hfresh).1
        have := h.issued hu
        omega
  · intro t hm
    have hm' : .append (.txn t) ∈ trail fx' := mem_trail.mpr ⟨hm, rfl⟩
    obtain ⟨t₀, ht₀, hid, -, -⟩ := hs.sect.ended (hpt.mem hm')
    have huid : t.uid = t₀.uid := congrArg Txn.Ident.uid hid
    have hlt := (hok.active ht₀).fresh
    refine ⟨by omega, ?_⟩
    intro p hpend
    have hfresh := hs.sect.mended hpt (by rw [torn_trail]; exact ht) hm' hpend
    have := (Turn.fresh_eq_some hfresh).1
    omega

/-- Starting, or dying while starting: the file is removed before the end is recorded. -/
theorem Resumed.mended {p a : Option Txn} {l l' : List Effect} (h : Resumed p a l)
    (hl' : l' <+: l) {t : Txn} (ht : .append (.txn t) ∈ l') : pendingAfter p l' = none := by
  cases h with
  | none => rw [List.prefix_nil.mp hl'] at ht; cases ht
  | live hm hid hf => simpa using hl'.mem ht
  | ended hid hf =>
    rcases List.prefix_cons_iff.mp hl' with rfl | ⟨l'', rfl, hl''⟩
    · cases ht
    · rcases mem_prefix_two hl'' with rfl | rfl | rfl
      · simp at ht
      · rfl
      · rfl

theorem Buried.dieStart {w : World} (hok : w.Ok) (h : w.Buried) {bootId : String} {now n : Nat}
    {fx' : List Effect} (hp : fx' <+: (w.disk.start bootId now).2) :
    (w.die fx' n).Buried := by
  have hpt : trail fx' <+: trail (w.disk.start bootId now).2 := hp.filter _
  have hres := (hok.resumed bootId now).2
  refine h.die (w.disk.start_files bootId now) hp (fun hl => h.lastDisk hl) ?_ ?_
  · intro u p hu hpend
    rcases pendingAfter_cases (trail fx') w.disk.pending with hq | ⟨-, hq⟩ | ⟨t, ht, hq⟩
    · rw [hq] at hpend
      exact h.pending hu hpend
    · rw [hq] at hpend; cases hpend
    · rw [hq] at hpend
      obtain ⟨q, hq', hid, -⟩ := hres.source (hres.saved (hpt.mem ht))
      have huid : t.uid = q.uid := congrArg Txn.Ident.uid hid
      rw [← Option.some.inj hpend, huid]
      exact h.pending hu hq'
  · intro t hm
    have hm' : .append (.txn t) ∈ trail fx' := mem_trail.mpr ⟨hm, rfl⟩
    obtain ⟨-, q, hq, huid⟩ := hres.recorded (hpt.mem hm')
    rw [huid]
    refine ⟨(hok.saved q hq).fresh, ?_⟩
    intro p hpend
    rw [Resumed.mended hres hpt hm'] at hpend
    cases hpend

theorem Buried.started {w : World} (hok : w.Ok) (h : w.Buried) {bootId : String} {now key : Nat} :
    World.Buried { w with
      up := true
      bootId := bootId
      st := (w.disk.start bootId now).1
      draining := false
      disk := w.disk.applyAll (w.disk.start bootId now).2
      tasks := startTasks (w.disk.start bootId now).1 key
      log := w.log ++ (w.disk.start bootId now).2.map .fx } := by
  -- the files are those of a death right after the start
  have hd := @Buried.dieStart w hok h bootId now 0 _ (List.prefix_refl _)
  have hres := (hok.resumed bootId now).2
  refine ⟨hd.issued, ?_, hd.pending, ?_, hd.lastDisk⟩
  · intro u t hu ht
    obtain ⟨q, hq, hid, -⟩ := hres.source ht
    have huid : t.uid = q.uid := congrArg Txn.Ident.uid hid
    rw [huid]
    rcases recorded_cases (fun e => @mem_die_fx w _ 0 e) (w.disk.start_files bootId now)
        (List.prefix_refl _) (fun hl => h.lastDisk hl) hu with hu | ⟨t', hm, rfl⟩
    · exact h.pending hu hq
    · have := (hres.recorded (mem_trail.mpr ⟨hm, rfl⟩)).1
      rw [ht] at this
      cases this
  · intro l hl
    rcases (w.disk.start_files bootId now).last hl with ⟨l₀, hl₀, heq⟩ | hm
    · rw [heq]
      exact recorded_mono (h.lastDisk hl₀)
    · rcases (w.disk.start_files bootId now).recorded (List.prefix_refl _) hm with
        ⟨l₀, hl₀, heq⟩ | hm
      · rw [heq]
        exact recorded_mono (h.lastDisk hl₀)
      · refine ⟨l.txn, rfl, (w.disk.start_files bootId now).final hm, .inl ?_⟩
        exact List.mem_append_right _ (List.mem_map_of_mem hm)

/-- A death that tears no end apart keeps what is recorded over. -/
theorem Buried.step {cfg : Config} {w w' : World} {a : Act} (hok : w.Ok) (hok' : w'.Ok)
    (h : w.Buried) (ha : torn (w.lastFx cfg a) = false) (hk : Kind cfg w a w') : w'.Buried := by
  cases hk with
  | turn hu g => exact h.turn hok hok' hu g
  | die hu hfx hs hf =>
    obtain ⟨who, may, hs⟩ := hs
    exact h.dieTurn hok hfx hs hf ha
  | start hact hu => exact h.started hok
  | dieStart hu hfx => exact h.dieStart hok hfx
  | takeover => exact ⟨h.issued, h.active, h.pending, h.last, h.lastDisk⟩

/-! ### What is not resumed is not driven -/

/-- Neither memory, nor the file, nor a task has anything to do with this transaction. -/
structure Gone (w : World) (u : Nat) : Prop where
  old : u < w.nextUid
  active : ∀ t, w.st.active = some t → t.uid ≠ u
  pending : ∀ p, w.disk.pending = some p → p.uid ≠ u
  tasks : ∀ k i, owesOf (w.tasks k) ≠ some (u, i)

/-- What is active or saved after a section is not a transaction that is gone. -/
theorem Gone.sect {w : World} {u : Nat} (h : w.Gone u) {who : Option String} {may : Bool}
    {turn : Turn} (hs : Shift who may (turn.fresh w.nextUid) w.st turn.st turn.fx) {t : Txn}
    (ht : turn.st.active = some t) : t.uid ≠ u := by
  rcases hs.sect.source ht with ⟨t₀, ht₀, hid⟩ | hfresh
  · have huid : t.uid = t₀.uid := congrArg Txn.Ident.uid hid
    rw [huid]
    exact h.active t₀ ht₀
  · have := (Turn.fresh_eq_some hfresh).1
    have := h.old
    omega

theorem Gone.turn {cfg : Config} {w : World} {u : Nat} (h : w.Gone u) {key : Nat} {T : Task}
    {turn : Turn} (hok' : (w.take key turn).Ok) (hup : w.up = true) (g : Turned cfg w key T turn) :
    (w.take key turn).Gone u ∧
      ∀ i, (w.take key turn).log.countP (Event.isWrite u i) =
        w.log.countP (Event.isWrite u i) := by
  obtain ⟨who, may, hs⟩ := g.shift
  refine ⟨⟨Nat.lt_add_right _ h.old, fun t ht => h.sect hs ht, ?_, ?_⟩, ?_⟩
  · intro p hp
    obtain ⟨t, hact, -, hid, -⟩ := (hok'.mirror hup).active hp
    have huid : p.uid = t.uid := congrArg Txn.Ident.uid hid
    rw [huid]
    exact h.sect hs hact
  · intro k i hk
    by_cases hkey : k = key
    · rw [hkey, Goes.at_key] at hk
      rcases g.owes_cases hk with ho | ho | ⟨t, ht, ho⟩
      · exact h.tasks key i ho
      · exact absurd h.old (by rw [ho]; exact Nat.lt_irrefl _)
      · exact h.active t ht ho
    · rw [Goes.at_other hkey] at hk
      exact h.tasks k i hk
  · intro i
    show (w.log ++ (turn.fx.map Event.fx ++ turn.events)).countP _ = _
    have hnone : turn.events.countP (Event.isWrite u i) = 0 := by
      rw [List.countP_eq_zero]
      intro e hm hw
      obtain ⟨v, rfl⟩ := Event.isWrite_iff.mp hw
      exact h.tasks key i (owesOf_of_ahead (g.write_owed hm).1)
    rw [← List.append_assoc, List.countP_append, countP_fx, hnone, Nat.add_zero]

theorem Gone.step {cfg : Config} {w w' : World} {a : Act} {u : Nat} (hok : w.Ok) (hok' : w'.Ok)
    (h : w.Gone u) (hk : Kind cfg w a w') :
    w'.Gone u ∧
      ∀ i, w'.log.countP (Event.isWrite u i) = w.log.countP (Event.isWrite u i) := by
  cases hk with
  | turn hu g => exact h.turn hok' hu g
  | @die turn hu hfx hs hf =>
    obtain ⟨who, may, hs⟩ := hs
    refine ⟨⟨Nat.lt_add_right _ h.old, fun _ ht => (nomatch ht), ?_, fun _ _ hk => (nomatch hk)⟩,
      fun i => countP_fx ..⟩
    intro p hp
    have hp : (w.disk.applyAll _).pending = some p := hp
    rw [Disk.applyAll_pending] at hp
    have hpt : trail (w.lastFx cfg a) <+: trail turn.fx := hfx.filter _
    rcases @Sect.crash _ _ _ _ _ w.disk.pending _ _ hs.sect hpt with hq | hq | hq
    · rw [hq] at hp; exact h.pending p hp
    · rw [hq] at hp; cases hp
    · rw [hq] at hp; exact h.sect hs hp
  | @start key bootId now hact hu =>
    have hsaved : ∀ t, (w.disk.start bootId now).1.active = some t → t.uid ≠ u := by
      intro t ht
      obtain ⟨q, hq, hid, -⟩ := (hok.resumed bootId now).2.source ht
      have huid : t.uid = q.uid := congrArg Txn.Ident.uid hid
      rw [huid]
      exact h.pending q hq
    refine ⟨⟨h.old, hsaved, ?_, ?_⟩, fun i => countP_fx ..⟩
    · intro p hp
      obtain ⟨t, hact, -, hid, -⟩ := (hok'.mirror rfl).active hp
      have huid : p.uid = t.uid := congrArg Txn.Ident.uid hid
      rw [huid]
      exact hsaved t hact
    · intro k i hk
      have hk : owesOf (startTasks (w.disk.start bootId now).1 key k) = some (u, i) := hk
      rw [(startTasks_free _ key k).1] at hk
      cases hk
  | @dieStart bootId now hu hfx =>
    refine ⟨⟨h.old, fun _ ht => (nomatch ht), ?_, fun _ _ hk => (nomatch hk)⟩,
      fun i => countP_fx ..⟩
    intro p hp
    have hp : (w.disk.applyAll _).pending = some p := hp
    rw [Disk.applyAll_pending] at hp
    rcases pendingAfter_cases (trail (w.lastFx cfg a)) w.disk.pending with
      hq | ⟨-, hq⟩ | ⟨t, ht, hq⟩
    · rw [hq] at hp; exact h.pending p hp
    · rw [hq] at hp; cases hp
    · rw [hq] at hp
      have hres := (hok.resumed bootId now).2
      have hpt : trail (w.lastFx cfg a) <+: trail (w.disk.start bootId now).2 := hfx.filter _
      obtain ⟨q, hq', hid, -⟩ := hres.source (hres.saved (hpt.mem ht))
      have huid : t.uid = q.uid := congrArg Txn.Ident.uid hid
      rw [← Option.some.inj hp, huid]
      exact h.pending q hq'
  | takeover => exact ⟨⟨h.old, h.active, h.pending, h.tasks⟩, fun _ => rfl⟩

/-- **A finished transaction is never resumed.**  In every run in which the process never
    dies between the record of an end and the removal or replacement of `pending.json`:
    once a transaction is recorded as ended, a start does not resume it, and in no state
    after that start is it active, is one of its writes under way or to come, or has one
    been started since. -/
theorem ended_never_resumed {cfg : Config} {w : World} {u : Nat}
    (h : Exec (next cfg) (fun w a => torn (w.lastFx cfg a) = false) {} w)
    (hu : Recorded w.log u) {key : Nat} {bootId : String} {now : Nat} {w₀ w' : World}
    (hstart : next cfg w (.start key bootId now) = some w₀)
    (h' : Exec (next cfg) (fun w a => torn (w.lastFx cfg a) = false) w₀ w') :
    (∀ t, w'.st.active = some t → t.uid ≠ u) ∧
    (∀ k i, owesOf (w'.tasks k) ≠ some (u, i)) ∧
    ∀ i, w'.log.countP (Event.isWrite u i) = w.log.countP (Event.isWrite u i) := by
  obtain ⟨hok, hburied⟩ := h.invariant (fun w => w.Ok ∧ w.Buried) (by
    rintro v v' a ⟨hv, hb⟩ ha hs
    have hv' := hv.step (next_step hs)
    exact ⟨hv', hb.step hv hv' ha ((next_step hs).kind hv)⟩) ⟨.empty, .empty⟩
  -- the process is down, so nothing but the file could bring the transaction back
  have hdown : w.up = false := by
    cases next_step hstart with
    | start hu => exact hu
  have hgone : w.Gone u := by
    refine ⟨hburied.issued hu, fun t ht => hburied.active hu ht,
      fun p hp => hburied.pending hu hp, ?_⟩
    intro k i hk
    rw [(hok.down hdown).2 k] at hk
    cases hk
  have hok₀ := hok.step (next_step hstart)
  obtain ⟨hgone₀, hcount₀⟩ := hgone.step hok hok₀ ((next_step hstart).kind hok)
  obtain ⟨-, hg, hcount⟩ := h'.invariant
    (fun v => v.Ok ∧ v.Gone u ∧
      ∀ i, v.log.countP (Event.isWrite u i) = w.log.countP (Event.isWrite u i)) (by
    rintro v v' a ⟨hv, hg, hc⟩ - hs
    have hv' := hv.step (next_step hs)
    obtain ⟨hg', hc'⟩ := hg.step hv hv' ((next_step hs).kind hv)
    exact ⟨hv', hg', fun i => (hc' i).trans (hc i)⟩) ⟨hok₀, hgone₀, hcount₀⟩
  exact ⟨hg.active, hg.tasks, hcount⟩

/-- The user keeps a change, and the process dies after the journal line.  The next start
    resumes the change. -/
theorem kept_change_resumed :
    ∃ w w₀ u, Exec (next sampleConfig) (fun _ _ => True) {} w ∧ Recorded w.log u ∧
      next sampleConfig w (.start 0 "boot" 9) = some w₀ ∧
      ∃ t, w₀.st.active = some t ∧ t.uid = u := by
  have hrun : (run (next sampleConfig) (fun _ _ => true) {}
      (.start 0 "boot" 5 :: submitted 1 "a" ++ applied 1 ++ [.crashCall (.keep "a") 1])).any
        (fun w => recordedEnd w.log 0 &&
          (next sampleConfig w (.start 0 "boot" 9)).any fun w₀ =>
            w₀.st.active.any fun t => decide (t.uid = 0)) = true := by decide +kernel
  obtain ⟨w, hw, hp⟩ := Exec.exists_of_run (fun _ _ _ => trivial) (.refl _) hrun
  rw [Bool.and_eq_true] at hp
  obtain ⟨hrec, hstart⟩ := hp
  rcases hw₀ : next sampleConfig w (.start 0 "boot" 9) with _ | w₀
  · rw [hw₀] at hstart; cases hstart
  · rw [hw₀] at hstart
    rcases ht : w₀.st.active with _ | t
    · simp [ht] at hstart
    · simp only [Option.any_some, ht, decide_eq_true_eq] at hstart
      exact ⟨w, w₀, 0, hw, .of_end hrec, hw₀, t, ht, hstart⟩

/-- The user keeps a change and the process dies later: the next start finds nothing. -/
theorem kept_change_stays_over :
    ∃ w w₀, Exec (next sampleConfig) (fun w a => torn (w.lastFx sampleConfig a) = false) {} w ∧
      Recorded w.log 0 ∧ next sampleConfig w (.start 0 "boot" 9) = some w₀ ∧
      ∀ t, w₀.st.active = some t → t.uid ≠ 0 := by
  have hrun : (run (next sampleConfig) (fun w a => !torn (w.lastFx sampleConfig a)) {}
      (.start 0 "boot" 5 :: submitted 1 "a" ++ applied 1 ++ [.crashCall (.keep "a") 3])).any
        (fun w => recordedEnd w.log 0 &&
          (next sampleConfig w (.start 0 "boot" 9)).isSome) = true := by decide +kernel
  obtain ⟨w, hw, hp⟩ := @Exec.exists_of_run _ _ _
    (fun w a => torn (w.lastFx sampleConfig a) = false) _
    (fun _ _ h => by rw [Bool.not_eq_true'] at h; exact h) _ _ _ _ (.refl _) hrun
  rw [Bool.and_eq_true] at hp
  obtain ⟨w₀, hw₀⟩ := Option.isSome_iff_exists.mp hp.2
  exact ⟨w, w₀, hw, .of_end hp.1, hw₀,
    (ended_never_resumed hw (.of_end hp.1) hw₀ (.refl _)).1⟩

end World

end Datad
