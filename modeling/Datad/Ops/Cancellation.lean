/-
  Datad/Ops/Cancellation.lean
  ===========================
  **No rollback after the end.**  Once the end of a transaction is recorded, no write
  of its rollback value starts any more, provided no call cancels it in the one gap
  the code leaves: `send_rollback` checks the SIM under the lock, releases it, and
  only then starts the write.  A user's write that arrives in between is told that
  the rollback is off, and the rollback goes out after it.
-/
import Datad.Ops.WriteOnce

namespace Datad

open Transition

/-- Sections run to their end: the process only dies between two of them. -/
def Act.whole : Act → Bool
  | .crashTask .. | .crashCall .. | .crashStart .. => false
  | _ => true

/-- The end of a transaction before a write of its rollback value. -/
def Event.stray (e e' : Event) : Prop :=
  ∃ t v, e = .fx (.append (.txn t)) ∧ e' = .write t.uid .rollback v

namespace St

variable {st : St} {x : String} {reading : Except String Reading}

theorem rollbackCheck_send (h : (st.rollbackCheck x reading).2.2 = .send) :
    (∃ t, st.live x = some t) ∧ (st.rollbackCheck x reading).1 = st ∧
      (st.rollbackCheck x reading).2.1 = [] := by
  rw [rollbackCheck] at h ⊢
  rcases hl : st.live x with _ | t
  · rw [hl] at h; cases h
  · rw [hl] at h
    refine ⟨⟨t, rfl⟩, ?_⟩
    dsimp only at h ⊢
    split
    · exact ⟨rfl, rfl⟩
    · rename_i hc; rw [hc] at h; cases h
    · exact ⟨rfl, rfl⟩

theorem rollbackCheck_live (h : (st.rollbackCheck x reading).2.1 ≠ []) :
    ∃ t, st.live x = some t := by
  rw [rollbackCheck] at h
  rcases hl : st.live x with _ | t
  · rw [hl] at h; exact absurd rfl h
  · exact ⟨t, rfl⟩

end St

namespace Task

variable {cfg : Config} {bootId : String} {uid : Nat} {st : St} {draining : Bool} {i : Input}
  {T : Task} {u : Nat} {v : String}

/-- Only `send_rollback` starts rollback writes, and nothing else in that turn. -/
theorem turn_writes_rollback
    (h : .write u .rollback v ∈ (T.turn cfg bootId uid st draining i).events) :
    (∃ x, T = .rollbackWrite x u v) ∧ (T.turn cfg bootId uid st draining i).fx = [] := by
  cases T.turn_passes cfg bootId uid st draining i with
  | on hacc hw ho ha hl hk he => exact absurd h (he u .rollback v)
  | accept hacc hT hT' he => rw [he] at h; cases h
  | decide hacc hst hT hT' he => rw [he] at h; cases h
  | send hacc hst ha ha' ho hw hl hs he =>
    rw [he] at h
    cases List.mem_singleton.mp h
    cases T with
    | rollbackWrite x u v =>
      cases hs
      exact ⟨⟨x, rfl⟩, rfl⟩
    | _ => cases hs

/-- A task gets to its rollback write from the SIM check of a live transaction. -/
theorem turn_to_rollbackWrite {x : String}
    (h : (T.turn cfg bootId uid st draining i).task = some (.rollbackWrite x u v)) :
    (∃ g spec, T = .rollbackRead x u v g spec) ∧ (∃ t, st.live x = some t) ∧
      (T.turn cfg bootId uid st draining i).st = st ∧
      (T.turn cfg bootId uid st draining i).fx = [] := by
  cases T with
  | submit req opId =>
    simp only [Task.turn] at h
    split at h <;> cases h
  | submitRead req opId =>
    simp only [Task.turn] at h
    split at h
    · cases h
    · split at h <;> cases h
  | submitBack req opId u result =>
    simp only [Task.turn] at h
    split at h <;> cases h
  | drive opId =>
    simp only [Task.turn] at h
    split at h
    · cases h
    · split at h <;> cases h
  | rollback opId u value generation spec =>
    simp only [Task.turn] at h
    split at h
    · cases h
    · rcases spec with _ | spec <;> cases h
  | rollbackRead opId u' value generation spec =>
    rcases hc : (st.rollbackCheck opId i.reading).2.2 with _ | _ | _
    · simp only [Task.turn, hc] at h
      cases h
    · simp only [Task.turn, hc] at h ⊢
      obtain ⟨hlive, hst, hfx⟩ := St.rollbackCheck_send hc
      cases h
      exact ⟨⟨generation, spec, rfl⟩, hlive, hst, hfx⟩
    · simp only [Task.turn, hc] at h
      cases h
  | sleep opId generation spec =>
    simp only [Task.turn] at h
    split at h <;> cases h
  | read opId generation spec =>
    simp only [Task.turn] at h
    split at h
    · split at h
      · cases h
      · split at h <;> cases h
    · cases h
  | feed opId generation reading =>
    simp only [Task.turn] at h
    split at h <;> cases h
  | kick =>
    simp only [Task.turn] at h
    split at h <;> cases h
  | drain =>
    simp only [Task.turn] at h
    split at h <;> cases h
  | drainRun r =>
    simp only [Task.turn] at h
    split at h <;> cases h
  | drainMore =>
    simp only [Task.turn] at h
    split at h <;> cases h
  | drainRetry =>
    simp only [Task.turn] at h
    split at h <;> cases h
  | timer id =>
    have hne : ∀ b : Bool, (if b then Task.kick else Task.timer id) ≠ .rollbackWrite x u v := by
      intro b hb
      cases b <;> cases hb
    exact absurd (Option.some.inj h) (hne _)
  | _ => cases h

end Task

namespace World

/-- No call cancels the active transaction while its driver is about to write. -/
structure Undisturbed (cfg : Config) (w : World) (a : Act) : Prop where
  noReuse : NoReuse cfg w a
  whole : a.whole = true
  calm : ∀ key c t k x v, a = .call key c → c.cancels = true → w.st.active = some t →
    w.tasks k ≠ some (.rollbackWrite x t.uid v)

/-- What is over stays over. -/
structure Over (w : World) : Prop where
  old : ∀ {t}, .fx (.append (.txn t)) ∈ w.log → t.uid < w.nextUid
  active : ∀ {t a}, .fx (.append (.txn t)) ∈ w.log → w.st.active = some a → a.uid ≠ t.uid
  disk : ∀ {t p}, .fx (.append (.txn t)) ∈ w.log → w.disk.pending = some p → p.uid ≠ t.uid
  writer : ∀ {t k x v}, .fx (.append (.txn t)) ∈ w.log →
    w.tasks k ≠ some (.rollbackWrite x t.uid v)
  order : w.log.Pairwise fun e e' => ¬ e.stray e'

theorem Over.empty : Over {} :=
  ⟨fun h => (nomatch h), fun h => (nomatch h), fun h => (nomatch h), fun h => (nomatch h), .nil⟩

/-- The ends of transactions in the log after a turn. -/
theorem mem_end_take {w : World} {key : Nat} {turn : Turn} {t : Txn}
    (he : ∀ e, .fx e ∉ turn.events) (h : .fx (.append (.txn t)) ∈ (w.take key turn).log) :
    .fx (.append (.txn t)) ∈ w.log ∨ .append (.txn t) ∈ trail turn.fx := by
  have h : .fx (.append (.txn t)) ∈ w.log ++ (turn.fx.map .fx ++ turn.events) := h
  rcases List.mem_append.mp h with h | h
  · exact .inl h
  · rcases List.mem_append.mp h with h | h
    · obtain ⟨e, hm, heq⟩ := List.mem_map.mp h
      cases heq
      exact .inr (mem_trail.mpr ⟨hm, rfl⟩)
    · exact absurd h (he _)

theorem pairwise_of_no_write {l : List Event} (h : ∀ u v, .write u .rollback v ∉ l) :
    l.Pairwise fun e e' => ¬ e.stray e' := by
  apply List.pairwise_of_forall_mem_list
  rintro e - e' he' ⟨t, v, -, rfl⟩
  exact h _ _ he'

/-- A rollback write that starts alone, from a task that was about to start it, is not
    the write of a transaction that is over. -/
theorem Over.order_take {w : World} {key : Nat} {turn : Turn} (h : w.Over)
    (hsend : ∀ u v, .write u .rollback v ∈ turn.events →
      turn.fx = [] ∧ turn.events = [.write u .rollback v] ∧
        ∃ x, w.tasks key = some (.rollbackWrite x u v)) :
    (w.take key turn).log.Pairwise fun e e' => ¬ e.stray e' := by
  show (w.log ++ (turn.fx.map Event.fx ++ turn.events)).Pairwise _
  refine List.pairwise_append.mpr ⟨h.order, ?_, ?_⟩
  · by_cases hw : ∃ u v, .write u .rollback v ∈ turn.events
    · obtain ⟨u, v, hm⟩ := hw
      obtain ⟨hfx, hes, -⟩ := hsend u v hm
      rw [hfx, hes]
      exact List.pairwise_singleton _ _
    · apply pairwise_of_no_write
      intro u v hm
      rcases List.mem_append.mp hm with hm | hm
      · simp at hm
      · exact hw ⟨u, v, hm⟩
  · rintro e hm e' hm' ⟨t, v, rfl, rfl⟩
    rcases List.mem_append.mp hm' with hm' | hm'
    · simp at hm'
    · obtain ⟨-, -, x, hx⟩ := hsend t.uid v hm'
      exact h.writer hm hx

/-- A turn keeps what is over over.  `hsend`: a rollback write starts alone;
    `hto`: a task reaches its rollback write while its transaction is active;
    `hgap`: no transaction ends while another task is about to roll it back. -/
theorem Over.take {w : World} {key : Nat} {T : Task} {may : Bool} {turn : Turn} (hok : w.Ok)
    (hok' : (w.take key turn).Ok) (hup : w.up = true) (h : w.Over)
    (g : Goes w key T may turn) (he : ∀ e, .fx e ∉ turn.events)
    (hsend : ∀ u v, .write u .rollback v ∈ turn.events →
      turn.fx = [] ∧ turn.events = [.write u .rollback v] ∧
        ∃ x, w.tasks key = some (.rollbackWrite x u v))
    (hto : ∀ x u v, turn.task = some (.rollbackWrite x u v) →
      turn.fx = [] ∧ ∃ t, w.st.active = some t ∧ t.uid = u)
    (hgap : ∀ t t' k x v, w.st.active = some t → .append (.txn t') ∈ trail turn.fx → k ≠ key →
      w.tasks k ≠ some (.rollbackWrite x t.uid v)) : (w.take key turn).Over := by
  have hactive : ∀ {t a}, .fx (.append (.txn t)) ∈ (w.take key turn).log →
      turn.st.active = some a → a.uid ≠ t.uid := by
    intro t a hm ha
    rcases mem_end_take he hm with hm | hm
    · rcases g.shift.sect.source ha with ⟨a₀, ha₀, hid⟩ | hfresh
      · have hu : a.uid = a₀.uid := congrArg Txn.Ident.uid hid
        rw [hu]
        exact h.active hm ha₀
      · have hnew := (Turn.fresh_eq_some hfresh).1
        have hlt := h.old hm
        omega
    · obtain ⟨a₀, ha₀, hid, -, hfresh⟩ := g.shift.sect.ended hm
      have hu : t.uid = a₀.uid := congrArg Txn.Ident.uid hid
      have hnew := (Turn.fresh_eq_some (hfresh a ha)).1
      have hlt := (hok.active ha₀).fresh
      omega
  refine ⟨?_, hactive, ?_, ?_, ?_⟩
  · intro t hm
    show t.uid < w.nextUid + turn.accepted
    rcases mem_end_take he hm with hm | hm
    · have := h.old hm
      omega
    · obtain ⟨a₀, ha₀, hid, -⟩ := g.shift.sect.ended hm
      have hu : t.uid = a₀.uid := congrArg Txn.Ident.uid hid
      have := (hok.active ha₀).fresh
      omega
  · intro t p hm hp
    obtain ⟨a, hact, -, hid, -⟩ := (hok'.mirror hup).active hp
    have hu : p.uid = a.uid := congrArg Txn.Ident.uid hid
    rw [hu]
    exact hactive hm hact
  · intro t k x v hm hk
    by_cases hkey : k = key
    · rw [hkey, Goes.at_key] at hk
      obtain ⟨hfx, a₀, ha₀, hu⟩ := hto x t.uid v hk
      rcases mem_end_take he hm with hm | hm
      · exact h.active hm ha₀ hu
      · rw [hfx] at hm; cases hm
    · rw [Goes.at_other hkey] at hk
      rcases mem_end_take he hm with hm | hm
      · exact h.writer hm hk
      · obtain ⟨a₀, ha₀, hid, -⟩ := g.shift.sect.ended hm
        have hu : t.uid = a₀.uid := congrArg Txn.Ident.uid hid
        rw [hu] at hk
        exact hgap a₀ t k x v ha₀ hm hkey hk
  · exact h.order_take hsend

theorem Over.task {cfg : Config} {w : World} {key : Nat} {T : Task} {i : Input} (hok : w.Ok)
    (hok' : (w.take key (w.turnOf cfg T i)).Ok) (honce : w.Once) (h : w.Over)
    (hT : w.tasks key = some T) (hr : NoReuse cfg w (.task key i)) :
    (w.take key (w.turnOf cfg T i)).Over := by
  have g : Goes w key T T.cancels (w.turnOf cfg T i) := .task hok hT i hr
  refine h.take hok hok' (hok.up hT) g (T.turn_events cfg _ _ _ _ _) ?_ ?_ ?_
  · intro u v hm
    obtain ⟨⟨x, rfl⟩, hfx⟩ := Task.turn_writes_rollback hm
    exact ⟨hfx, rfl, x, hT⟩
  · intro x u v hto
    obtain ⟨⟨g', spec, rfl⟩, ⟨t, hlive⟩, -, hfx⟩ := Task.turn_to_rollbackWrite hto
    obtain ⟨ht, hx⟩ := St.live_eq_some.mp hlive
    refine ⟨hfx, t, ht, ?_⟩
    refine (honce.bound (k := key) (i := .rollback) (by rw [hT]; rfl) ht).mp ?_
    rw [hT, hx]; rfl
  · intro t t' k x v ht hm hk hwk
    have howes : owesOf (w.tasks k) = some (t.uid, .rollback) := by rw [hwk]; rfl
    have hi := honce.armed howes ht rfl
    obtain ⟨t₀, ht₀, -, hc, -⟩ := g.shift.sect.ended hm
    rw [ht] at ht₀
    rw [← Option.some.inj ht₀] at hc
    rcases hc with hc | hc
    · rw [hi] at hc; cases hc
    · cases T with
      | rollbackRead x' u' v' g' spec =>
        have hfx : (w.st.rollbackCheck x' i.reading).2.1 ≠ [] := by
          intro hnil
          have hturn : (w.turnOf cfg (.rollbackRead x' u' v' g' spec) i).fx = [] := by
            rw [turnOf]
            simp only [Task.turn]
            split <;> exact hnil
          rw [hturn] at hm
          cases hm
        obtain ⟨t₁, hlive⟩ := St.rollbackCheck_live hfx
        obtain ⟨ht₁, hx'⟩ := St.live_eq_some.mp hlive
        rw [ht] at ht₁
        rw [← Option.some.inj ht₁] at hx'
        refine hk (honce.uniq ((honce.bound howes ht).mpr rfl) ?_)
        rw [hT, hx']; rfl
      | _ => cases hc

theorem Over.call {cfg : Config} {w : World} {key : Nat} {c : Call} (hok : w.Ok)
    (hok' : (w.take key (c.turn w.st w.draining)).Ok) (hup : w.up = true) (honce : w.Once)
    (h : w.Over) (hk : w.tasks key = none) (hd : Undisturbed cfg w (.call key c)) :
    (w.take key (c.turn w.st w.draining)).Over := by
  have g := Goes.call w hk c
  have hev := c.turn_events w.st w.draining
  refine h.take hok hok' hup g (by rw [hev]; simp) ?_ ?_ ?_
  · intro u v hm
    rw [hev] at hm
    cases hm
  · intro x u v hto
    have hfree := (c.turn_free w.st w.draining).1
    rw [hto] at hfree
    cases hfree
  · intro t t' k x v ht hm hkey hwk
    obtain ⟨t₀, ht₀, -, hc, -⟩ := g.shift.sect.ended hm
    rw [ht] at ht₀
    rw [← Option.some.inj ht₀] at hc
    rcases hc with hc | hc
    · have hi := honce.armed (k := k) (i := .rollback) (by rw [hwk]; rfl) ht rfl
      rw [hi] at hc; cases hc
    · exact hd.calm key c t k x v rfl hc ht hwk

/-- A slot changes and nothing else happens. -/
theorem Over.idle {w : World} {key : Nat} {T' : Option Task} (h : w.Over)
    (hT' : ∀ x u v, T' ≠ some (.rollbackWrite x u v)) :
    ({ w with tasks := setTask w.tasks key T' } : World).Over := by
  refine ⟨h.old, h.active, h.disk, ?_, h.order⟩
  intro t k x v hm hk
  have hk : setTask w.tasks key T' k = some (.rollbackWrite x t.uid v) := hk
  rw [setTask] at hk
  split at hk
  · exact hT' _ _ _ hk
  · exact h.writer hm hk

theorem Over.start {cfg : Config} {w w' : World} {key : Nat} {bootId : String} {now : Nat}
    (hok : w.Ok) (hok' : w'.Ok) (h : w.Over) (hs : Step cfg w (.start key bootId now) w') :
    w'.Over := by
  cases hs with
  | start hu =>
    obtain ⟨hst, hres⟩ := hok.resumed bootId now
    -- `start` records an end only of the saved transaction, and then none is active
    have hend : ∀ {t}, .fx (.append (.txn t)) ∈
          w.log ++ (w.disk.start bootId now).2.map .fx →
        .fx (.append (.txn t)) ∈ w.log ∨
          (w.disk.start bootId now).1.active = none ∧
            ∃ p, w.disk.pending = some p ∧ t.uid = p.uid := by
      intro t hm
      rcases List.mem_append.mp hm with hm | hm
      · exact .inl hm
      · obtain ⟨e, hm, heq⟩ := List.mem_map.mp hm
        cases heq
        exact .inr (hres.recorded (mem_trail.mpr ⟨hm, rfl⟩))
    have hactive : ∀ {t a}, .fx (.append (.txn t)) ∈
          w.log ++ (w.disk.start bootId now).2.map .fx →
        (w.disk.start bootId now).1.active = some a → a.uid ≠ t.uid := by
      intro t a hm ha
      rcases hend hm with hm | ⟨hnone, -⟩
      · obtain ⟨p, hp, hid, -⟩ := hres.source ha
        have hu : a.uid = p.uid := congrArg Txn.Ident.uid hid
        rw [hu]
        exact h.disk hm hp
      · rw [hnone] at ha; cases ha
    refine ⟨?_, hactive, ?_, ?_, ?_⟩
    · intro t hm
      rcases hend hm with hm | ⟨-, p, hp, hu⟩
      · exact h.old hm
      · rw [hu]; exact (hok.saved p hp).fresh
    · intro t p hm hp
      obtain ⟨a, hact, -, hid, -⟩ := (hok'.mirror rfl).active hp
      have hu : p.uid = a.uid := congrArg Txn.Ident.uid hid
      rw [hu]
      exact hactive hm hact
    · intro t k x v hm hk
      have hfree := (startTasks_free (w.disk.start bootId now).1 key k).1
      have hk : startTasks (w.disk.start bootId now).1 key k = _ := hk
      rw [hk] at hfree
      cases hfree
    · refine List.pairwise_append.mpr ⟨h.order, pairwise_of_no_write (by simp), ?_⟩
      rintro e - e' hm' ⟨t, v, rfl, rfl⟩
      simp at hm'

theorem Over.step {cfg : Config} {w w' : World} {a : Act} (hok : w.Ok) (honce : w.Once)
    (h : w.Over) (hd : Undisturbed cfg w a) (hs : Step cfg w a w') : w'.Over := by
  have hok' : w'.Ok := hok.step hs
  have hstep := hs
  cases hs with
  | submit hu hk => exact h.idle nofun
  | task ht => exact h.task hok hok' honce ht hd.noReuse
  | call hu hk => exact h.call hok hok' hu honce hk hd
  | drop ht hdrop => exact h.idle nofun
  | start hu => exact h.start hok hok' hstep
  | takeover => exact ⟨h.old, h.active, h.disk, h.writer, h.order⟩
  | crash hu =>
    have hlog : (w.die [] 0).log = w.log := List.append_nil _
    refine ⟨?_, fun _ ha => (nomatch ha), ?_, fun _ hk => (nomatch hk), ?_⟩
    · intro t hm; rw [hlog] at hm; exact h.old hm
    · intro t p hm hp; rw [hlog] at hm; exact h.disk hm hp
    · rw [hlog]; exact h.order
  | crashTask ht => cases hd.whole
  | crashCall hu => cases hd.whole
  | crashStart hu => cases hd.whole

/-- **No rollback after the end.**  In every run in which no call cancels the active
    transaction between its driver's SIM check and its rollback write, no write of a
    transaction's rollback value starts after its end (`cancelled` or any other) was
    recorded. -/
theorem no_rollback_after_end {cfg : Config} {w : World}
    (h : Exec (next cfg) (Undisturbed cfg) {} w) :
    w.log.Pairwise fun e e' =>
      ∀ t v, e = .fx (.append (.txn t)) → e' ≠ .write t.uid .rollback v := by
  have hinv := h.invariant (fun w => w.Ok ∧ w.Once ∧ w.Over) (by
    rintro v v' a ⟨hok, honce, hv⟩ hd hs
    have hs := next_step hs
    exact ⟨hok.step hs, honce.step hok hd.noReuse hs, hv.step hok honce hd hs⟩)
    ⟨.empty, .empty, .empty⟩
  apply hinv.2.2.order.imp
  intro e e' hne t v he he'
  exact hne ⟨t, v, he, he'⟩

/-- A change is reverted; its driver checks the SIM; then a safety write arrives and
    cancels the change. -/
def gapRun : List Act :=
  .start 0 "boot" 5 :: submitted 1 "a" ++ applied 1 ++
    [.call 2 (.revert "a"), .task 1 sampleInput, .task 1 sampleInput, .task 1 sampleInput,
      .call 3 .preempt]

/-- The driver goes on to write. -/
theorem cancelled_change_rolls_back :
    ∃ w a t v, Exec (next sampleConfig) (fun _ _ => True) {} w ∧
      .fx (.append (.txn t)) ∈ w.log ∧ t.phase = .cancelled ∧ t.reason = some .preempted ∧
      w.starts a = some (t.uid, .rollback, v) := by
  have hrun : (run (next sampleConfig) (fun _ _ => true) {} gapRun).any
      (fun w => w.log.any fun e => e.ended.any fun t => decide (t.phase = .cancelled) &&
        decide (t.reason = some .preempted) &&
        decide (w.starts (.task 1 {}) = some (t.uid, .rollback, "WL_AND_5G"))) = true := by
    decide +kernel
  obtain ⟨w, hw, hp⟩ := Exec.exists_of_run (fun _ _ _ => trivial) (.refl _) hrun
  simp only [List.any_eq_true, Option.any_eq_true, Event.ended_eq_some, Bool.and_eq_true,
    decide_eq_true_eq] at hp
  obtain ⟨e, he, t, rfl, ⟨hphase, hreason⟩, hstarts⟩ := hp
  exact ⟨w, .task 1 {}, t, "WL_AND_5G", hw, he, hphase, hreason, hstarts⟩

/-- The value is changed behind the engine's back, so its driver gives the change up. -/
theorem given_up_change_stays_over :
    ∃ w, Exec (next sampleConfig) (Undisturbed sampleConfig) {} w ∧
      (∃ t, .fx (.append (.txn t)) ∈ w.log ∧ t.phase = .cancelled) ∧
      w.log.Pairwise fun e e' =>
        ∀ t v, e = .fx (.append (.txn t)) → e' ≠ .write t.uid .rollback v := by
  have hcalm : ∀ w a, NoReuse sampleConfig w a → opening a = true →
      Undisturbed sampleConfig w a := by
    intro w a hr ha
    refine ⟨hr, ?_, ?_⟩
    · cases a <;> first | rfl | cases ha
    · rintro key c t k x v rfl
      cases ha
  have hrun : (run (next sampleConfig) (fun w a => w.settled a && opening a) firstAccepted
      (applied 1 ++ [.task 1 {}, .task 1 {},
        .task 1 { reading := .ok (Txn.sampleReading "Only_5G" "89860000000000000001") },
        .task 1 {}])).any
      (fun w => w.log.any fun e => e.ended.any fun t => decide (t.phase = .cancelled)) = true := by
    decide +kernel
  obtain ⟨w, hw, hp⟩ := Exec.exists_of_run
    (fun w a h => hcalm w a (.of_settled (Bool.and_eq_true_iff.mp h).1)
      (Bool.and_eq_true_iff.mp h).2)
    (firstAccepted_exec.mono fun w a h => hcalm w a h.1 h.2) hrun
  simp only [List.any_eq_true, Option.any_eq_true, Event.ended_eq_some, decide_eq_true_eq] at hp
  obtain ⟨e, he, t, rfl, hphase⟩ := hp
  exact ⟨w, hw, ⟨t, he, hphase⟩, no_rollback_after_end hw⟩

end World

end Datad
