/-
  Datad/Ops/WriteOnce.lean
  ========================
  **Each transaction writes its target at most once and its rollback value at most
  once**, over every crash, restart and reboot, as long as no `op_id` is taken
  again while a task still works for it.  Without that condition two drivers can
  serve one transaction, and both send its rollback.
-/
import Datad.Ops.Writers

namespace Datad

open Transition

namespace World

/-! ### A write whose intent a restart found -/

/-- The write of this intent is never started again. -/
structure Closed (w : World) (u : Nat) (i : Intent) : Prop where
  old : u < w.nextUid
  free : ∀ k, owesOf (w.tasks k) ≠ some (u, i)
  active : i = .rollback → ∀ t, w.st.active = some t → t.uid = u → Ctl.Sent t.ctl
  disk : i = .rollback → ∀ p, w.disk.pending = some p → p.uid = u → Ctl.Sent p.ctl

theorem Closed.turn {w : World} {u : Nat} {i : Intent} (h : w.Closed u i)
    {who : Option String} {may : Bool} {turn : Turn}
    (hs : Shift who may (turn.fresh w.nextUid) w.st turn.st turn.fx) (hi : i = .rollback) {t' : Txn}
    (ht' : turn.st.active = some t') (hu : t'.uid = u) : Ctl.Sent t'.ctl := by
  have hlt := h.old
  have hsect := hs.sect
  rw [ht'] at hsect
  generalize hfresh : turn.fresh w.nextUid = fresh at hsect
  generalize hact : w.st.active = a at hsect
  generalize trail turn.fx = l at hsect
  cases hsect with
  | stay => exact h.active hi _ hact hu
  | resave => exact h.active hi _ hact hu
  | advance hn hms hid hf hl =>
    exact (h.active hi _ hact ((congrArg Txn.Ident.uid hid).symm.trans hu)).moves hms
  | landed hw hst hid hf =>
    exact (h.active hi _ hact ((congrArg Txn.Ident.uid hid).symm.trans hu)).step hst
  | accept hfr ho =>
    have hnew := (Turn.fresh_eq_some (hfresh.trans hfr)).1
    have hu : _ = u := hu
    exact absurd hlt (by rw [← hu, ← hnew]; exact Nat.lt_irrefl _)

/-- A turn leaves the write closed and does not start it. -/
theorem Closed.take {w : World} {key : Nat} {T : Task} {may : Bool} {turn : Turn} {u : Nat}
    {i : Intent} (hok : w.Ok) (hok' : (w.take key turn).Ok) (hup : w.up = true) (h : w.Closed u i)
    (g : Goes w key T may turn) :
    (w.take key turn).Closed u i ∧
      (w.take key turn).log.countP (Event.isWrite u i) = w.log.countP (Event.isWrite u i) := by
  have hlt := h.old
  refine ⟨⟨?_, ?_, fun hi t ht hu => h.turn g.shift hi ht hu, ?_⟩, ?_⟩
  · show u < w.nextUid + turn.accepted
    omega
  · intro k hk
    by_cases hkey : k = key
    · rw [hkey, Goes.at_key] at hk
      rcases g.owes_cases hk with ⟨ho, -⟩ | ⟨-, hu, -⟩ | ⟨-, -, -, t, ht, hu, -, -, hi, rfl⟩
      · exact h.free key ho
      · omega
      · exact (h.active rfl t ht hu).not_rollback (hok.st.inv t ht) hi
    · rw [Goes.at_other hkey] at hk
      exact h.free k hk
  · intro hi p hp hpu
    obtain ⟨t, hact, hc, hid, -⟩ := (hok'.mirror hup).active hp
    rw [hc]
    exact h.turn g.shift hi hact ((congrArg Txn.Ident.uid hid).symm.trans hpu)
  · show (w.log ++ (turn.fx.map Event.fx ++ turn.events)).countP _ = _
    rw [← List.append_assoc, List.countP_append, countP_fx]
    have hnone : turn.events.countP (Event.isWrite u i) = 0 := by
      rw [List.countP_eq_zero]
      intro e hm hw
      obtain ⟨v, rfl⟩ := Event.isWrite_iff.mp hw
      have ha := (g.passes.write_ahead hm).2.1
      exact h.free key (g.owes.trans (Task.owes_of_ahead ha))
    omega

theorem Closed.die {w : World} {u : Nat} {i : Intent} (h : w.Closed u i) {fx : List Effect}
    {n : Nat}
    (hq : i = .rollback → ∀ p, pendingAfter w.disk.pending (trail fx) = some p → p.uid = u →
      Ctl.Sent p.ctl) :
    (w.die fx n).Closed u i ∧
      (w.die fx n).log.countP (Event.isWrite u i) = w.log.countP (Event.isWrite u i) := by
  refine ⟨⟨Nat.lt_add_right n h.old, fun k hk => (nomatch hk), fun _ t ht => (nomatch ht), ?_⟩, ?_⟩
  · intro hi p hp hu
    have hp : (w.disk.applyAll fx).pending = some p := hp
    rw [Disk.applyAll_pending] at hp
    exact hq hi p hp hu
  · exact countP_fx w.log fx u i

theorem Closed.dieTurn {w : World} {u : Nat} {i : Intent} (h : w.Closed u i)
    {who : Option String} {may : Bool} {turn : Turn} (n : Nat)
    (hs : Shift who may (turn.fresh w.nextUid) w.st turn.st turn.fx) :
    (w.die (turn.fx.take n) turn.accepted).Closed u i ∧
      (w.die (turn.fx.take n) turn.accepted).log.countP (Event.isWrite u i) =
        w.log.countP (Event.isWrite u i) := by
  apply h.die
  intro hi p hp hu
  rcases @Sect.crash _ _ _ _ _ w.disk.pending _ _ hs.sect (trail_take turn.fx n) with hq | hq | hq
  · rw [hq] at hp
    exact h.disk hi p hp hu
  · rw [hq] at hp; cases hp
  · rw [hq] at hp
    exact h.turn hs hi hp hu

theorem Closed.start {cfg : Config} {w w' : World} {key : Nat} {bootId : String} {now : Nat}
    {u : Nat} {i : Intent} (hok : w.Ok) (hok' : w'.Ok) (hu : u < w.nextUid)
    (hp : i = .rollback → ∀ p, w.disk.pending = some p → p.uid = u →
      Ctl.Sent p.ctl ∨ p.intent = some .rollback)
    (hs : Step cfg w (.start key bootId now) w') :
    w'.Closed u i ∧
      w'.log.countP (Event.isWrite u i) = w.log.countP (Event.isWrite u i) := by
  cases hs with
  | start hd =>
    have hact : i = .rollback → ∀ t, (w.disk.start bootId now).1.active = some t →
        t.uid = u → Ctl.Sent t.ctl := by
      rintro hi t ht rfl
      exact sent_of_start hok ht (hp hi)
    refine ⟨⟨hu, ?_, hact, ?_⟩, countP_fx _ _ u i⟩
    · intro k hk
      have hk : owesOf (startTasks (w.disk.start bootId now).1 key k) = some (u, i) := hk
      rw [(startTasks_free _ key k).1] at hk
      cases hk
    · intro hi p hpend hpu
      obtain ⟨t, ha, hc, hid, -⟩ := (hok'.mirror rfl).active hpend
      rw [hc]
      exact hact hi _ ha ((congrArg Txn.Ident.uid hid).symm.trans hpu)

theorem Closed.step {cfg : Config} {w w' : World} {a : Act} {u : Nat} {i : Intent} (hok : w.Ok)
    (h : w.Closed u i) (hr : NoReuse cfg w a) (hs : Step cfg w a w') :
    w'.Closed u i ∧
      w'.log.countP (Event.isWrite u i) = w.log.countP (Event.isWrite u i) := by
  have hok' : w'.Ok := hok.step hs
  have hstep := hs
  cases hs with
  | submit hu hk =>
    rw [← take_idle] at hok' ⊢
    exact h.take hok hok' hu (.submit hk _ _)
  | task ht => exact h.take hok hok' (hok.up ht) (.task hok ht _ hr)
  | call hu hk => exact h.take hok hok' hu (.call w hk _)
  | drop ht hd =>
    rw [← take_idle] at hok' ⊢
    exact h.take hok hok' (hok.up ht) (.drop ht hd)
  | start hu =>
    exact Closed.start hok hok' h.old (fun hi p hp hpu => .inl (h.disk hi p hp hpu)) hstep
  | takeover => exact ⟨⟨h.old, h.free, h.active, h.disk⟩, rfl⟩
  | crash hu => exact h.die h.disk
  | crashTask ht => exact h.dieTurn _ (turnOf_shift cfg hok.st _ _)
  | @crashCall c n hu =>
    have := h.dieTurn n (call_shift c w)
    rw [(call_fresh c w.st w.draining w.nextUid).1] at this
    exact this
  | @crashStart bootId now n hu =>
    apply h.die
    intro hi p hp hpu
    rcases pendingAfter_cases (trail ((w.disk.start bootId now).2.take n)) w.disk.pending
      with hq | ⟨-, hq⟩ | ⟨t, ht, hq⟩
    · rw [hq] at hp
      exact h.disk hi p hp hpu
    · rw [hq] at hp; cases hp
    · have ht' := (hok.resumed bootId now).2.saved ((trail_take _ n).mem ht)
      rw [hq] at hp
      rw [← Option.some.inj hp] at hpu ⊢
      exact sent_of_start hok ht' fun q hq hqu => .inl (h.disk hi q hq (hqu.trans hpu))

/-- **Write at most once.**  In every run that reuses no `op_id` of a running task,
    crashes and restarts included, a transaction starts at most one write of its
    target and at most one of its rollback value; and a write whose intent a restart
    finds in `pending.json` is not started again. -/
theorem writes_at_most_once {cfg : Config} {w : World}
    (h : Exec (next cfg) (NoReuse cfg) {} w) :
    (∀ uid i, w.log.countP (Event.isWrite uid i) ≤ 1) ∧
    ∀ p i key bootId now w₀ w', w.disk.pending = some p → p.intent = some i →
      next cfg w (.start key bootId now) = some w₀ → Exec (next cfg) (NoReuse cfg) w₀ w' →
        w'.log.countP (Event.isWrite p.uid i) = w.log.countP (Event.isWrite p.uid i) := by
  obtain ⟨hok, honce⟩ := Once.exec h
  refine ⟨honce.once, ?_⟩
  intro p i key bootId now w₀ w' hp hi hstart hrun
  have hok₀ := hok.step (next_step hstart)
  have hclosed := @Closed.start cfg w w₀ key bootId now p.uid i hok hok₀ (hok.saved p hp).fresh (by
    rintro rfl q hq -
    rw [hp] at hq
    rw [← Option.some.inj hq]
    exact .inr hi) (next_step hstart)
  have hinv := hrun.invariant
    (fun v => v.Ok ∧ v.Closed p.uid i ∧
      v.log.countP (Event.isWrite p.uid i) = w.log.countP (Event.isWrite p.uid i)) (by
    rintro v v' a ⟨hv, hc, hcount⟩ hr hs
    obtain ⟨hc', hcount'⟩ := hc.step hv hr (next_step hs)
    exact ⟨hv.step (next_step hs), hc', hcount'.trans hcount⟩) ⟨hok₀, hclosed⟩
  exact hinv.2.2

/-! ### An `op_id` taken again -/

def sampleInput : Input :=
  { reading := .ok (Txn.sampleReading "WL_AND_5G" "89860000000000000001"), written := .ok .null }

/-- The rest of `submit` after its acceptance: the write starts, comes back, and the
    driver begins. -/
def applied (key : Nat) : List Act :=
  [.task key sampleInput, .task key sampleInput, .task key sampleInput]

/-- Enough changes, each preempted at once, for the engine to forget an older one. -/
def forgetting : List Act :=
  ["b", "c", "d", "e", "f", "g", "h", "i", "j", "k", "l", "m", "n", "o", "p", "q"].zipIdx.flatMap
    fun (opId, n) => submitted (n + 10) opId ++ [.call 3 .preempt]

/-- The change `a` is kept while its driver sleeps; `a` is submitted again after the
    engine forgot it, and reverted.  Both drivers find the rollback and check the SIM. -/
def reuseRun : List Act :=
  .start 0 "boot" 5 :: submitted 1 "a" ++ applied 1 ++
    [.task 1 sampleInput, .call 4 (.keep "a")] ++ forgetting ++ submitted 2 "a" ++ applied 2 ++
    [.call 5 (.revert "a"), .task 1 { wake := true },
      .task 1 sampleInput, .task 1 sampleInput, .task 1 sampleInput,
      .task 2 sampleInput, .task 2 sampleInput, .task 2 sampleInput]

/-- Then both write. -/
theorem reused_opId_rolls_back_twice :
    ∃ w uid, Exec (next sampleConfig) (fun _ _ => True) {} w ∧
      w.log.countP (Event.isWrite uid .rollback) = 2 := by
  have hrun : (run (next sampleConfig) (fun _ _ => true) {}
      (reuseRun ++ [.task 1 sampleInput, .task 2 sampleInput])).any
        (fun w => decide (w.log.countP (Event.isWrite 17 .rollback) = 2)) = true := by
    decide +kernel
  obtain ⟨w, hw, hp⟩ := Exec.exists_of_run (fun _ _ _ => trivial) (.refl _) hrun
  exact ⟨w, 17, hw, of_decide_eq_true hp⟩

/-- Steps other than the second half of a `submit` accept nothing. -/
def settled (w : World) : Act → Bool
  | .task key _ =>
      match w.tasks key with
      | some (.submitRead ..) => false
      | _ => true
  | _ => true

theorem NoReuse.of_settled {cfg : Config} {w : World} {a : Act} (h : w.settled a = true) :
    NoReuse cfg w a := by
  rintro key i req x rfl hT
  simp [settled, hT] at h

/-- The system after the acceptance of its first change. -/
def firstAccepted : World :=
  (run (next sampleConfig) (fun _ _ => true) {} (.start 0 "boot" 5 :: submitted 1 "a")).getD {}

/-- The steps that lead there. -/
def opening : Act → Bool
  | .start .. | .submit .. | .task .. => true
  | _ => false

theorem firstAccepted_exec :
    Exec (next sampleConfig) (fun w a => NoReuse sampleConfig w a ∧ opening a = true) {}
      firstAccepted := by
  have h₁ : Exec (next sampleConfig) (fun w a => NoReuse sampleConfig w a ∧ opening a = true)
      {} _ :=
    .tail (.refl _) (.start 0 "boot" 5) ⟨.of_settled rfl, rfl⟩ rfl
  have h₂ := Exec.tail h₁ (.submit 1 (sampleRequest "a") "a") ⟨.of_settled rfl, rfl⟩ rfl
  have h₃ := Exec.tail h₂ (.task 1 {}) ⟨.of_settled rfl, rfl⟩ rfl
  refine .tail h₃
    (.task 1 { reading := .ok (Txn.sampleReading "WL_AND_5G" "89860000000000000001") })
    ⟨?_, rfl⟩ rfl
  -- the submitting task is the only one there is
  rintro key i req x heq hT - k
  cases heq
  by_cases hk : k = 1
  · subst hk
    exact nofun
  · by_cases hk₀ : k = 0
    · subst hk₀
      exact nofun
    · simp [take, setTask, startTasks, hk, hk₀, worksOf]

theorem first_change_written_once :
    ∃ w, Exec (next sampleConfig) (NoReuse sampleConfig) {} w ∧
      w.log.any (Event.isWrite 0 .apply) = true ∧
      w.log.countP (Event.isWrite 0 .apply) ≤ 1 := by
  have hrun : (run (next sampleConfig) settled firstAccepted (applied 1)).any
      (fun w => w.log.any (Event.isWrite 0 .apply)) = true := by decide +kernel
  obtain ⟨w, hw, hp⟩ := Exec.exists_of_run (fun _ _ h => .of_settled h)
    (firstAccepted_exec.mono fun _ _ h => h.1) hrun
  exact ⟨w, hw, hp, (writes_at_most_once hw).1 0 .apply⟩

end World

end Datad
