/-
  Datad/Ops/WriteAhead.lean
  =========================
  **The intent is on disk before the write starts.**

  When a task starts a device write of its transaction, either `pending.json` holds
  that very transaction with the matching intent, or somebody else has ended it
  since the intent was saved.  And while a `submit` overrides a transaction, a crash
  at any point finds the old or the new one in the file.
-/
import Datad.Ops.WriteOnce

namespace Datad

open Transition

/-- The phase in which a write of this intent is made. -/
def Intent.phase : Intent → Phase
  | .apply => .applying
  | .rollback => .rollingBack

/-- The value a write of this intent carries. -/
def Txn.writes (t : Txn) : Intent → String
  | .apply => t.target
  | .rollback => t.rollbackTo

/-- The intent was saved and, later in the log, the end of the transaction. -/
def EndedAfter (l : List Event) (uid : Nat) (i : Intent) : Prop :=
  ∃ (before after : List Event) (t t' : Txn), l = before ++ after ∧
    .fx (.save t) ∈ before ∧ t.uid = uid ∧ t.intent = some i ∧
    .fx (.append (.txn t')) ∈ after ∧ t'.uid = uid ∧ t'.phase.isFinal = true

theorem EndedAfter.append {l : List Event} {uid : Nat} {i : Intent} (h : EndedAfter l uid i)
    (l' : List Event) : EndedAfter (l ++ l') uid i := by
  obtain ⟨before, after, t, t', hl, hsave, hu, hi, hend, hu', hf⟩ := h
  refine ⟨before, after ++ l', t, t', ?_, hsave, hu, hi, List.mem_append_left _ hend, hu', hf⟩
  rw [hl, List.append_assoc]

theorem Txn.writes_of_ident {t t' : Txn} (h : t'.ident = t.ident) (i : Intent) :
    t'.writes i = t.writes i := by
  cases i with
  | apply => exact congrArg Txn.Ident.target h
  | rollback => exact congrArg Txn.Ident.rollbackTo h

namespace World

/-- Every write still ahead of a task is covered. -/
structure Covered (w : World) : Prop where
  saved : ∀ {p}, w.disk.pending = some p → .fx (.save p) ∈ w.log
  ahead : ∀ {k u i v}, aheadOf (w.tasks k) = some (u, i, v) →
    (∃ t, w.st.active = some t ∧ t.uid = u ∧ t.writes i = v) ∨ EndedAfter w.log u i

theorem Covered.empty : Covered {} :=
  ⟨fun h => (nomatch h), fun h => (nomatch h)⟩

/-- What stands in the file was saved, also after a crash inside a section. -/
theorem Covered.pending {w : World} (h : w.Covered) {fx : List Effect} {p : Txn}
    (hp : pendingAfter w.disk.pending (trail fx) = some p) :
    .fx (.save p) ∈ w.log ++ fx.map Event.fx := by
  rcases pendingAfter_cases (trail fx) w.disk.pending with hq | ⟨-, hq⟩ | ⟨t, ht, hq⟩
  · rw [hq] at hp
    exact List.mem_append_left _ (h.saved hp)
  · rw [hq] at hp; cases hp
  · rw [hq] at hp
    rw [← Option.some.inj hp]
    exact List.mem_append_right _ (List.mem_map_of_mem (mem_trail.mp ht).1)

/-- A transaction with an open intent stays active through a turn, or its end is
    recorded after its intent. -/
theorem Covered.turn {w : World} {key : Nat} {T : Task} {may : Bool} {turn : Turn} {t : Txn}
    {i : Intent} (hok : w.Ok) (hup : w.up = true) (h : w.Covered) (g : Goes w key T may turn)
    (ht : w.st.active = some t) (hi : t.intent = some i) :
    (∃ t', turn.st.active = some t' ∧ t'.uid = t.uid ∧ t'.writes i = t.writes i) ∨
      EndedAfter (w.take key turn).log t.uid i := by
  rcases g.shift.sect.accounted (.inl ht) with ⟨t', ht', hu⟩ | ⟨t', hm, hu, hf⟩
  · rcases Nat.eq_zero_or_pos turn.accepted with hacc | hacc
    · obtain ⟨t₀, ht₀, hid⟩ := g.same hacc ht'
      rw [ht] at ht₀
      cases ht₀
      exact .inl ⟨t', ht', hu, Txn.writes_of_ident hid i⟩
    · have hnew := (g.accepted hacc ht').2
      have hlt := (hok.active ht).fresh
      omega
  · -- the file held the transaction itself, so its intent had been saved
    have hsave : .fx (.save t) ∈ w.log := by
      obtain ⟨p, hp, -, -, he⟩ := (hok.mirror hup).file ht
      rw [he (by rw [hi]; exact nofun)] at hp
      exact h.saved hp
    refine .inr ⟨w.log, turn.fx.map Event.fx ++ turn.events, t, t', rfl, hsave, rfl, hi, ?_, hu, hf⟩
    exact List.mem_append_left _ (List.mem_map_of_mem (mem_trail.mp hm).1)

theorem Covered.take {w : World} {key : Nat} {T : Task} {may : Bool} {turn : Turn} (hok : w.Ok)
    (hup : w.up = true) (honce : w.Once) (h : w.Covered) (g : Goes w key T may turn) :
    (w.take key turn).Covered := by
  have hold : ∀ {k u i v}, aheadOf (w.tasks k) = some (u, i, v) →
      (∃ t, turn.st.active = some t ∧ t.uid = u ∧ t.writes i = v) ∨
        EndedAfter (w.take key turn).log u i := by
    intro k u i v hk
    have howes := owesOf_of_ahead hk
    rcases h.ahead hk with ⟨t, ht, hu, hv⟩ | hend
    · subst hu
      rcases h.turn hok hup g ht (honce.armed howes ht rfl) with ⟨t', ht', hu', hv'⟩ | hend
      · exact .inl ⟨t', ht', hu', hv'.trans hv⟩
      · exact .inr hend
    · exact .inr (hend.append _)
  constructor
  · intro p hp
    have hp : (w.disk.applyAll turn.fx).pending = some p := hp
    rw [Disk.applyAll_pending] at hp
    show _ ∈ w.log ++ (turn.fx.map Event.fx ++ turn.events)
    rw [← List.append_assoc]
    exact List.mem_append_left _ (h.pending hp)
  · intro k u i v hk
    by_cases hkey : k = key
    · rw [hkey, Goes.at_key] at hk
      cases g.passes with
      | on hacc hw ho ha hl hk' he => exact hold (g.ahead.trans (ha _ hk))
      | accept hacc hT hT' he ht' hu hx hi hv =>
        rw [hT'] at hk
        cases hk
        exact .inl ⟨_, ht', hu, hv⟩
      | decide hacc hst hT hT' he ht hi =>
        rw [hT'] at hk
        cases hk
        refine .inl ⟨_, ?_, rfl, rfl⟩
        show turn.st.active = _
        rw [hst]; exact ht
      | send hacc hst ha ha' ho hw hl hs he => rw [ha'] at hk; cases hk
    · rw [Goes.at_other hkey] at hk
      exact hold hk

theorem Covered.die {w : World} (h : w.Covered) (fx : List Effect) (n : Nat) :
    (w.die fx n).Covered := by
  refine ⟨?_, fun hk => (nomatch hk)⟩
  intro p hp
  have hp : (w.disk.applyAll fx).pending = some p := hp
  rw [Disk.applyAll_pending] at hp
  exact h.pending hp

theorem Covered.step {cfg : Config} {w w' : World} {a : Act} (hok : w.Ok) (honce : w.Once)
    (h : w.Covered) (hr : NoReuse cfg w a) (hs : Step cfg w a w') : w'.Covered := by
  cases hs with
  | submit hu hk =>
    rw [← take_idle]
    exact h.take hok hu honce (.submit hk _ _)
  | task ht => exact h.take hok (hok.up ht) honce (.task hok ht _ hr)
  | call hu hk => exact h.take hok hu honce (.call w hk _)
  | drop ht hd =>
    rw [← take_idle]
    exact h.take hok (hok.up ht) honce (.drop ht hd)
  | @start key bootId now hu =>
    constructor
    · intro p hp
      have hp : (w.disk.applyAll (w.disk.start bootId now).2).pending = some p := hp
      rw [Disk.applyAll_pending] at hp
      exact h.pending hp
    · intro k u i v hk
      have hk : aheadOf (startTasks (w.disk.start bootId now).1 key k) = some (u, i, v) := hk
      rw [(startTasks_free _ key k).2] at hk
      cases hk
  | takeover => exact ⟨h.saved, h.ahead⟩
  | crash hu => exact h.die [] 0
  | crashTask ht => exact h.die _ _
  | crashCall hu => exact h.die _ _
  | crashStart hu => exact h.die _ _

theorem Covered.exec {cfg : Config} {w : World} (h : Exec (next cfg) (NoReuse cfg) {} w) :
    w.Ok ∧ w.Once ∧ w.Covered := by
  refine h.invariant (fun w => w.Ok ∧ w.Once ∧ w.Covered) ?_ ⟨.empty, .empty, .empty⟩
  rintro v v' a ⟨hok, honce, hv⟩ hr hs
  have hs := next_step hs
  exact ⟨hok.step hs, honce.step hok hr hs, hv.step hok honce hr hs⟩

/-- What a `submit` that is accepted does. -/
theorem submitRead_accepted {cfg : Config} {w : World} {req : Request} {x : String} {i : Input}
    (h : (w.turnOf cfg (.submitRead req x) i).accepted = 1) :
    ∃ c, (w.turnOf cfg (.submitRead req x) i).st =
        (w.st.accept cfg req x w.nextUid c w.bootId i.now).1 ∧
      (w.turnOf cfg (.submitRead req x) i).fx =
        (w.st.accept cfg req x w.nextUid c w.bootId i.now).2 := by
  rw [turnOf] at h ⊢
  simp only [Task.turn] at h ⊢
  split at h
  · cases h
  · rename_i c hc
    split at h
    · cases h
    · exact ⟨c, rfl, rfl⟩

/-- The write a task starts is the one ahead of it. -/
theorem starts_ahead {w : World} {a : Act} {o : Nat × Intent × String}
    (h : w.starts a = some o) : ∃ key i, a = .task key i ∧ aheadOf (w.tasks key) = some o := by
  cases a with
  | task key i =>
    refine ⟨key, i, rfl, ?_⟩
    simp only [starts] at h
    split at h
    · rename_i hT; rw [hT]; exact h
    · rename_i hT; rw [hT]; exact h
    · cases h
  | _ => cases h

/-- **Write-ahead intent.**  In every run that reuses no `op_id` of a running task:
    when a device write starts, the file holds the transaction with the matching
    intent and value, or the transaction has been ended since its intent was saved;
    and a crash inside the section in which a `submit` overrides the active
    transaction leaves the old or the new one in the file. -/
theorem intent_saved_before_write {cfg : Config} {w : World}
    (h : Exec (next cfg) (NoReuse cfg) {} w) :
    (∀ a uid i v, w.starts a = some (uid, i, v) →
      (∃ p, w.disk.pending = some p ∧ p.uid = uid ∧ p.intent = some i ∧ p.phase = i.phase ∧
        p.writes i = v) ∨ EndedAfter w.log uid i) ∧
    ∀ key i req x t n w', w.tasks key = some (.submitRead req x) → w.st.active = some t →
      (w.turnOf cfg (.submitRead req x) i).accepted = 1 →
      next cfg w (.crashTask key i n) = some w' →
        ∃ p, w'.disk.pending = some p ∧
          (p.ident = t.ident ∨ (w.turnOf cfg (.submitRead req x) i).st.active = some p) := by
  obtain ⟨hok, honce, hcov⟩ := Covered.exec h
  constructor
  · intro a uid i v hst
    obtain ⟨key, inp, -, hk⟩ := starts_ahead hst
    have howes := owesOf_of_ahead hk
    rcases hcov.ahead hk with ⟨t, ht, hu, hv⟩ | hend
    · have hi := honce.armed howes ht hu
      obtain ⟨S, hS, -⟩ := Option.bind_eq_some_iff.mp hk
      obtain ⟨p, hp, -, -, he⟩ := (hok.mirror (hok.up hS)).file ht
      rw [hp, he (by rw [hi]; exact nofun)]
      refine .inl ⟨t, rfl, hu, hi, ?_, hv⟩
      cases i with
      | apply => exact (hok.st.inv t ht).applying.mp hi
      | rollback => exact (hok.st.inv t ht).rolling hi
    · exact .inr hend
  · intro key i req x t n w' hT ht hacc hs
    obtain ⟨c, hst, hfx⟩ := submitRead_accepted hacc
    have hpend : w'.disk.pending =
        pendingAfter w.disk.pending
          (trail ((w.turnOf cfg (.submitRead req x) i).fx.take n)) := by
      cases next_step hs with
      | crashTask hT' =>
        rw [hT] at hT'
        cases hT'
        exact Disk.applyAll_pending _ _
    have hprefix := trail_take (w.turnOf cfg (.submitRead req x) i).fx n
    rw [hfx, St.accept_trail] at hprefix
    rw [hpend, hst, St.accept_active, hfx]
    rcases pendingAfter_cases
      (trail ((w.st.accept cfg req x w.nextUid c w.bootId i.now).2.take n)) w.disk.pending
      with hq | ⟨hclear, -⟩ | ⟨t', hsave, hq⟩
    · obtain ⟨p, hp, -, hid, -⟩ := (hok.mirror (hok.up hT)).file ht
      exact ⟨p, hq.trans hp, .inl hid⟩
    · have := hprefix.mem hclear
      simp at this
    · have := hprefix.mem hsave
      simp at this
      rw [hq]
      exact ⟨t', rfl, .inr (by rw [this])⟩

/-- With an `op_id` taken again, the second driver starts its rollback write after the
    first one has reported back: the file holds the transaction without an intent. -/
theorem reused_opId_writes_without_intent :
    ∃ w a uid v, Exec (next sampleConfig) (fun _ _ => True) {} w ∧
      w.starts a = some (uid, .rollback, v) ∧
      (∀ p, w.disk.pending = some p → p.intent ≠ some .rollback) ∧
      ¬ EndedAfter w.log uid .rollback := by
  have hrun : (run (next sampleConfig) (fun _ _ => true) {}
      (reuseRun ++ [.task 1 sampleInput, .task 1 sampleInput])).any
        (fun w => decide (w.starts (.task 2 sampleInput) = some (17, .rollback, "WL_AND_5G")) &&
          w.disk.pending.all (fun p => decide (p.intent ≠ some .rollback)) &&
          w.log.all (fun e => e.ended.all fun t => decide (t.uid ≠ 17))) = true := by
    decide +kernel
  obtain ⟨w, hw, hp⟩ := Exec.exists_of_run (fun _ _ _ => trivial) (.refl _) hrun
  simp only [Bool.and_eq_true, decide_eq_true_eq] at hp
  obtain ⟨⟨hstarts, hpend⟩, hlog⟩ := hp
  refine ⟨w, .task 2 sampleInput, 17, "WL_AND_5G", hw, hstarts, ?_, ?_⟩
  · intro p hp
    rw [hp] at hpend
    exact of_decide_eq_true hpend
  · rintro ⟨before, after, t, t', hl, -, -, -, hend, hu, -⟩
    have hm : .fx (.append (.txn t')) ∈ w.log := by
      rw [hl]; exact List.mem_append_right _ hend
    have hne := List.all_eq_true.mp hlog _ hm
    rw [Event.ended_eq_some.mpr rfl] at hne
    exact of_decide_eq_true hne hu

theorem first_write_has_intent :
    firstAccepted.starts (.task 1 {}) = some (0, .apply, "Only_LTE") ∧
      ((∃ p, firstAccepted.disk.pending = some p ∧ p.uid = 0 ∧ p.intent = some .apply ∧
        p.phase = .applying ∧ p.writes .apply = "Only_LTE") ∨
        EndedAfter firstAccepted.log 0 .apply) := by
  have hstarts : firstAccepted.starts (.task 1 {}) = some (0, .apply, "Only_LTE") := by
    decide +kernel
  exact ⟨hstarts, (intent_saved_before_write (firstAccepted_exec.mono fun _ _ h => h.1)).1
    _ _ _ _ hstarts⟩

end World

end Datad
