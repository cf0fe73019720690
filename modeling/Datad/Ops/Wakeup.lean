/-
  Datad/Ops/Wakeup.lean
  =====================
  **The legacy queue is not forgotten.**

  A queued request waits until the lock is free, and somebody has to notice.  Not
  everyone who frees the lock wakes the queue: a change that is overridden leaves it
  to its driver, a session that is found expired to its timer, and the drain task
  looks once more after it lowered its flag.  `Stirs` says what one turn passes on,
  `World.Awake` that somebody is always left who wakes the queue.
-/
import Datad.Ops.LegacyAccounting

namespace Datad

open Transition KeyedQueue

/-! ### Who wakes the queue -/

/-- The change this task drives. -/
def Task.driver : Task → Option String
  | .drive x | .rollback x _ _ _ _ | .rollbackRead x _ _ _ _ | .rollbackWrite x _ _ => some x
  | .rollbackWait x _ | .rollbackSkip x _ => some x
  | .sleep x _ _ | .read x _ _ | .probe x _ _ | .feed x _ _ => some x
  | _ => none

/-- The tasks that still wake the queue once the lock is free: a driver, the timer of a
    session, a wake-up under way, and the drain task between lowering its flag and
    looking again. -/
def Task.wakes (T : Task) : Bool :=
  match T with
  | .kick | .timer _ | .drainLower | .drainMore | .drainRetry => true
  | _ => T.driver.isSome

def driverOf (T : Option Task) : Option String := T.bind Task.driver

def wakesOf (T : Option Task) : Bool := T.any Task.wakes

theorem wakesOf_of_driver {T : Option Task} {x : String} (h : driverOf T = some x) :
    wakesOf T = true := by
  rcases T with _ | T
  · cases h
  · have h : T.driver = some x := h
    cases T with
    | drive | rollback | rollbackRead | rollbackWrite | rollbackWait | rollbackSkip => rfl
    | sleep | read | probe | feed => rfl
    | _ => cases h

/-- A change that is no longer being applied was so before, or its write has just come
    back. -/
theorem Sect.intended {who : Option String} {may : Bool} {fresh : Option Nat} {a a' : Option Txn}
    {l : List Effect} (h : Sect who may fresh a a' l) {t' : Txn} (ht' : a' = some t')
    (hi : t'.intent ≠ some .apply) :
    (∃ t, a = some t ∧ t.opId = t'.opId ∧ t.intent ≠ some .apply) ∨ who = some t'.opId := by
  cases h with
  | stay => exact .inl ⟨t', ht', rfl, hi⟩
  | resave t => exact .inl ⟨t', ht', rfl, hi⟩
  | @advance t u l hn hm hid hf hl =>
    cases ht'
    refine .inl ⟨t, rfl, (congrArg Txn.Ident.opId hid).symm, ?_⟩
    rw [hn]
    exact nofun
  | @landed t u hw hs hid hf =>
    cases ht'
    refine .inr (hw.trans (congrArg some ?_))
    exact (congrArg Txn.Ident.opId hid).symm
  | close => cases ht'
  | accept hu ho =>
    cases ht'
    exact absurd rfl hi

/-! ### What a turn passes on -/

/-- What a turn does to those who wake the queue and to what they wait for. -/
structure Stirs (st st' : St) (d d' : Bool) (T T' : Option Task) : Prop where
  timed : ∀ s', st'.session = some s' →
    (∃ s, st.session = some s ∧ s.id = s'.id) ∨ T' = some (.timer s'.id)
  timer : ∀ id, T = some (.timer id) → T' = some (.timer id) ∨
    T' = some .kick ∧ ∀ s', st'.session = some s' → s'.id ≠ id
  driven : ∀ t', st'.active = some t' → t'.intent ≠ some .apply →
    (∃ t, st.active = some t ∧ t.opId = t'.opId ∧ t.intent ≠ some .apply) ∨
      driverOf T' = some t'.opId
  driver : ∀ x, driverOf T = some x → driverOf T' = some x ∨
    T' = some .kick ∧ ∀ t', st'.active = some t' → t'.opId ≠ x
  ends : ∀ t, st.active = some t → st'.active = none →
    wakesOf T' = true ∨ st'.legacy = [] ∨ t.intent ≠ some .apply
  fills : st'.legacy ≠ [] → d' = false → st.legacy ≠ [] ∨ wakesOf T' = true
  lowers : d = true → d' = false → wakesOf T' = true
  wakes : wakesOf T = true → st'.legacy ≠ [] → d' = false → st'.active = none →
    st'.session = none → wakesOf T' = true

namespace Stirs

variable {st : St} {d : Bool} {T T' : Option Task}

/-- A turn that only moves the task. -/
theorem quiet (htimer : ∀ id, T = some (.timer id) → T' = some (.timer id) ∨
      T' = some .kick ∧ ∀ s', st.session = some s' → s'.id ≠ id)
    (hdriver : ∀ x, driverOf T = some x → driverOf T' = some x ∨
      T' = some .kick ∧ ∀ t', st.active = some t' → t'.opId ≠ x)
    (hwakes : wakesOf T = true → st.legacy ≠ [] → d = false → st.active = none →
      st.session = none → wakesOf T' = true) : Stirs st st d d T T' := by
  refine ⟨?_, htimer, ?_, hdriver, ?_, fun h _ => .inl h, ?_, hwakes⟩
  · exact fun s' hs => .inl ⟨s', hs, rfl⟩
  · exact fun t' ht hi => .inl ⟨t', ht, rfl, hi⟩
  · intro t ht hn; rw [ht] at hn; cases hn
  · intro h h'; rw [h] at h'; cases h'

/-- The task has nothing to do with the queue. -/
theorem of_other (hT : wakesOf T = false) : Stirs st st d d T T' := by
  refine quiet ?_ ?_ ?_
  · rintro id rfl; cases hT
  · intro x hx; rw [wakesOf_of_driver hx] at hT; cases hT
  · intro h; rw [hT] at h; cases h

/-- A driver goes on. -/
theorem of_driver {x : String} (hT : driverOf T = some x) (hT' : driverOf T' = some x) :
    Stirs st st d d T T' := by
  refine quiet ?_ ?_ fun _ _ _ _ _ => wakesOf_of_driver hT'
  · rintro id rfl; cases hT
  · intro y hy; rw [hT] at hy; exact .inl (hT'.trans hy)

/-- A driver finds its change over. -/
theorem of_over {x : String} (hT : driverOf T = some x) (ho : st.live x = none) :
    Stirs st st d d T (some .kick) := by
  refine quiet ?_ ?_ fun _ _ _ _ _ => rfl
  · rintro id rfl; cases hT
  · intro y hy
    rw [hT] at hy
    cases hy
    refine .inr ⟨rfl, ?_⟩
    intro t' ht' hx
    rw [St.live, ht'] at ho
    dsimp only at ho
    rw [if_pos hx] at ho
    cases ho

/-- A driver goes on after a section on its change. -/
theorem of_driving {st' : St} {who : Option String} {may : Bool} {fresh : Option Nat}
    {fx : List Effect} {x : String} (hT : driverOf T = some x) (hT' : driverOf T' = some x)
    (hs : Shift who may fresh st st' fx) (hw : ∀ y, who = some y → y = x)
    (hses : st'.session = st.session) (hl : st'.legacy = st.legacy) : Stirs st st' d d T T' := by
  have hwakes := wakesOf_of_driver hT'
  constructor
  · exact fun s' hs' => .inl ⟨s', hses ▸ hs', rfl⟩
  · rintro id rfl; cases hT
  · intro t' ht' hi
    rcases hs.sect.intended ht' hi with ho | ho
    · exact .inl ho
    · rw [hw _ ho]
      exact .inr hT'
  · intro y hy
    rw [hT] at hy
    exact .inl (hT'.trans hy)
  · exact fun _ _ _ => .inl hwakes
  · intro hne _
    rw [hl] at hne
    exact .inl hne
  · intro h h'; rw [h] at h'; cases h'
  · exact fun _ _ _ _ _ => hwakes

/-- A task that was nobody's driver or timer becomes one that wakes the queue. -/
theorem of_waking {st' : St} {who : Option String} {may : Bool} {fresh : Option Nat}
    {fx : List Effect} {d' : Bool} (hT : ∀ id, T ≠ some (.timer id)) (hd : driverOf T = none)
    (hT' : wakesOf T' = true) (hs : Shift who may fresh st st' fx)
    (hw : ∀ t', st'.active = some t' → who = some t'.opId → driverOf T' = some t'.opId)
    (hses : ∀ s', st'.session = some s' →
      (∃ s, st.session = some s ∧ s.id = s'.id) ∨ T' = some (.timer s'.id)) :
    Stirs st st' d d' T T' := by
  constructor
  · exact hses
  · exact fun id h => absurd h (hT id)
  · intro t' ht' hi
    rcases hs.sect.intended ht' hi with ho | ho
    · exact .inl ho
    · exact .inr (hw t' ht' ho)
  · intro x hx; rw [hd] at hx; cases hx
  · exact fun _ _ _ => .inl hT'
  · exact fun _ _ => .inr hT'
  · exact fun _ _ => hT'
  · exact fun _ _ _ _ _ => hT'

/-- The flag is up after the turn: somebody drains the queue. -/
theorem of_flag {st' : St} (hT : ∀ id, T ≠ some (.timer id)) (hd : driverOf T = none)
    (ha : st'.active = st.active) (hs : st'.session = st.session) : Stirs st st' d true T T' := by
  constructor
  · exact fun s' hs' => .inl ⟨s', hs ▸ hs', rfl⟩
  · exact fun id h => absurd h (hT id)
  · exact fun t' ht hi => .inl ⟨t', ha ▸ ht, rfl, hi⟩
  · intro x hx; rw [hd] at hx; cases hx
  · intro t ht hn; rw [ha, ht] at hn; cases hn
  · exact fun _ h => (by cases h)
  · exact fun _ h => (by cases h)
  · exact fun _ _ h => (by cases h)

/-- A new change becomes the active one; its write is open. -/
theorem of_accepted {st' : St} {t : Txn} (hT : wakesOf T = false) (ha : st'.active = some t)
    (hi : t.intent = some .apply) (hs : st'.session = st.session) (hl : st'.legacy = st.legacy) :
    Stirs st st' d d T T' := by
  constructor
  · exact fun s' hs' => .inl ⟨s', hs ▸ hs', rfl⟩
  · rintro id rfl; cases hT
  · intro t' ht' hi'
    rw [← Option.some.inj (ha.symm.trans ht')] at hi'
    exact absurd hi hi'
  · intro x hx; rw [wakesOf_of_driver hx] at hT; cases hT
  · intro t' _ hn; rw [ha] at hn; cases hn
  · exact fun hne _ => .inl (hl ▸ hne)
  · intro h h'; rw [h] at h'; cases h'
  · intro h; rw [hT] at h; cases h

/-- A timer goes on, or its session has ended. -/
theorem of_timer {st' : St} {id : String} {ended : Bool} (ha : st'.active = st.active)
    (hs : st'.session = st.session ∨ st'.session = none)
    (hended : ended = true → ∀ s', st'.session = some s' → s'.id ≠ id) :
    Stirs st st' d d (some (.timer id)) (some (if ended then .kick else .timer id)) := by
  have hwakes : wakesOf (some (if ended then Task.kick else .timer id)) = true := by
    cases ended <;> rfl
  constructor
  · intro s' hs'
    rcases hs with h | h
    · exact .inl ⟨s', h ▸ hs', rfl⟩
    · rw [h] at hs'; cases hs'
  · intro id' hid
    cases hid
    cases ended with
    | false => exact .inl rfl
    | true => exact .inr ⟨rfl, hended rfl⟩
  · exact fun t' ht' hi => .inl ⟨t', ha ▸ ht', rfl, hi⟩
  · intro x hx; cases hx
  · exact fun _ _ _ => .inl hwakes
  · exact fun _ _ => .inr hwakes
  · exact fun _ _ => hwakes
  · exact fun _ _ _ _ _ => hwakes

end Stirs

/-! ### Tasks -/

namespace St

variable {opId : String}

theorem wrote_frame (st : St) (result : Except WriteError Value) (now : Nat) :
    ((st.wrote opId result now).2.2 = true → ∃ t, st.active = some t ∧ t.opId = opId) ∧
      ((st.wrote opId result now).2.2 = false →
        (st.wrote opId result now).1.active = st.active ∧ st.live opId = none) := by
  rw [wrote]
  split
  · rename_i t ht
    exact ⟨fun _ => ⟨t, live_eq_some.mp ht⟩, fun h => (by cases h)⟩
  · rename_i hnone
    exact ⟨fun h => (by cases h), fun _ => ⟨(st.persist_frame true).1, hnone⟩⟩

end St

/-- **What a turn of a task passes on.** -/
theorem Task.turn_stirs (cfg : Config) (bootId : String) (uid : Nat) {st : St} (hst : st.Ok)
    {draining : Bool} (i : Input) {T : Task} (hd : T.drains = true → draining = true) :
    Stirs st (T.turn cfg bootId uid st draining i).st draining
      (T.turn cfg bootId uid st draining i).draining (some T)
      (T.turn cfg bootId uid st draining i).task := by
  have hshift := T.turn_shift cfg bootId uid hst draining i
  have haside : T.drains = false → _ :=
    fun hT => (Task.turn_aside cfg bootId uid st draining i hT).1.1
  cases T with
  | submit req opId =>
    simp only [Task.turn]
    split <;> exact .of_other rfl
  | submitRead req opId =>
    simp only [Task.turn]
    split
    · exact .of_other rfl
    · rename_i c hc
      split
      · exact .of_other rfl
      · exact .of_accepted rfl (St.accept_active ..) rfl (St.accept_deed ..).session
          (St.accept_deed ..).aside.1
  | submitWrite req opId u => exact .of_other rfl
  | submitWait req opId u => exact .of_other rfl
  | submitBack req opId u result =>
    obtain ⟨-, hgone⟩ := @St.wrote_frame opId st result i.now
    refine .of_waking (fun id h => (by cases h)) rfl ?_ hshift ?_ ?_
    · simp only [Task.turn]
      split <;> rfl
    · intro t' ht' hw
      have hx : t'.opId = opId := (Option.some.inj hw).symm
      simp only [Task.turn] at ht' ⊢
      split
      · rw [hx]; rfl
      · -- the change is over, so it is not the active one
        rename_i hl
        obtain ⟨hact, hnone⟩ := hgone (Bool.eq_false_iff.mpr hl)
        rw [St.live, ← hact, ht'] at hnone
        dsimp only at hnone
        rw [if_pos hx] at hnone
        cases hnone
    · exact fun s' hs => .inl ⟨s', (St.wrote_deed ..).session ▸ hs, rfl⟩
  | drive opId =>
    simp only [Task.turn]
    split
    · rename_i hnone
      exact .of_over rfl hnone
    · split <;> exact .of_driver rfl rfl
  | rollback opId u value generation spec =>
    simp only [Task.turn] at hshift ⊢
    split at hshift
    · exact .of_driver rfl rfl
    · refine .of_driving (x := opId) rfl ?_ hshift (fun y hy => (by cases hy))
        (st.persist_frame true).2.1 (st.persist_aside true).1
      rcases spec with _ | spec <;> rfl
  | rollbackRead opId u value generation spec =>
    have hs := @St.rollbackCheck_shift st none opId none i.reading
    have hdeed := @St.rollbackCheck_deed opId st i.reading
    simp only [Task.turn]
    split <;> exact .of_driving rfl rfl hs (fun y hy => (by cases hy)) hdeed.session hdeed.aside.1
  | rollbackWrite opId u value => exact .of_driver rfl rfl
  | rollbackWait opId u =>
    exact .of_driving rfl rfl hshift (fun y hy => (Option.some.inj hy).symm)
      (st.rollbackSent_deed i.now).session (haside rfl)
  | rollbackSkip opId u =>
    exact .of_driving rfl rfl hshift (fun y hy => (Option.some.inj hy).symm)
      (st.rollbackSent_deed i.now).session (haside rfl)
  | sleep opId generation spec =>
    refine .of_driver (x := opId) rfl ?_
    simp only [Task.turn]
    split <;> rfl
  | read opId generation spec =>
    simp only [Task.turn]
    split
    · split
      · rename_i hnone
        exact .of_over rfl hnone
      · split <;> exact .of_driver rfl rfl
    · exact .of_driver rfl rfl
  | probe opId generation reading => exact .of_driver rfl rfl
  | feed opId generation reading =>
    simp only [Task.turn] at hshift ⊢
    split at hshift
    · rename_i hnone
      exact .of_over rfl hnone
    · exact .of_driving rfl rfl hshift (fun y hy => (by cases hy))
        (st.feed_deed _ _ _).session (st.feed_deed _ _ _).aside.1
  | kick => exact .of_flag (fun id h => (by cases h)) rfl rfl rfl
  | drain =>
    have hraised := hd rfl
    subst hraised
    obtain ⟨hact, hses⟩ := (st.popLegacy_queues cfg i.now).frame
    simp only [Task.turn]
    split <;> exact .of_flag (fun id h => (by cases h)) rfl hact hses
  | drainRun r =>
    simp only [Task.turn]
    split <;> exact .of_other rfl
  | drainBack r =>
    have hraised := hd rfl
    subst hraised
    obtain ⟨hact, hses⟩ := (st.putBackLegacy_queues r).frame
    exact .of_flag (fun id h => (by cases h)) rfl hact hses
  | drainLower =>
    exact .of_waking (fun id h => (by cases h)) rfl rfl hshift (fun t' _ h => (by cases h))
      fun s' hs => .inl ⟨s', hs, rfl⟩
  | drainMore =>
    refine .quiet (fun id h => (by cases h)) (fun x h => (by cases h)) ?_
    intro _ hne _ hact hses
    simp only [Task.turn]
    rcases hl : st.legacy with _ | ⟨r, l⟩
    · exact absurd hl hne
    · rw [hact, hses]
      rfl
  | drainRetry => exact .of_flag (fun id h => (by cases h)) rfl rfl rfl
  | timer id =>
    obtain ⟨hact, -, -, hses⟩ := st.reapSession_frame i.now
    simp only [Task.turn]
    refine .of_timer hact hses fun hended s' hs' => ?_
    rw [hs'] at hended
    exact of_decide_eq_true hended

/-! ### Calls -/

/-- A section that ends no change whose write is open, unless it is one of those that
    may. -/
theorem Sect.ends_settled {who : Option String} {may : Bool} {fresh : Option Nat}
    {a a' : Option Txn} {l : List Effect} (h : Sect who may fresh a a' l) {t : Txn}
    (ht : a = some t) (hn : a' = none) : t.intent = none ∨ may = true := by
  cases h with
  | stay => rw [ht] at hn; cases hn
  | close hm hid hf hc hl =>
    cases ht
    exact hc
  | _ => cases hn

theorem Stirs.of_call {st st' : St} {d : Bool} {may : Bool} {fx : List Effect} {T' : Option Task}
    (hs : Shift none may none st st' fx)
    (hses : ∀ s', st'.session = some s' →
      (∃ s, st.session = some s ∧ s.id = s'.id) ∨ T' = some (.timer s'.id))
    (hends : may = true → st.active.isSome = true → wakesOf T' = true ∨ st'.legacy = [])
    (hfills : st'.legacy ≠ [] → st.legacy ≠ [] ∨ wakesOf T' = true) :
    Stirs st st' d d none T' := by
  constructor
  · exact hses
  · exact fun id h => (by cases h)
  · intro t' ht' hi
    rcases hs.sect.intended ht' hi with ho | ho
    · exact .inl ho
    · cases ho
  · exact fun x h => (by cases h)
  · intro t ht hn
    rcases hs.sect.ends_settled ht hn with hnone | hmay
    · exact .inr (.inr (by rw [hnone]; exact nofun))
    · rcases hends hmay (by rw [ht]; rfl) with h | h
      · exact .inl h
      · exact .inr (.inl h)
  · exact fun hne _ => hfills hne
  · intro h h'; rw [h] at h'; cases h'
  · exact fun h => (by cases h)

namespace St

variable {opId : String}

theorem interrupt_kicks (st : St) (source : Source) (what : String) :
    (st.interrupt source what).2.2 = st.active.isSome := by
  rw [interrupt]
  split
  · rename_i ha
    rw [ha]
    rfl
  · rename_i t ha
    rw [ha]
    rfl

theorem legacyGate_frame (st : St) (item : Option String) (safety : Bool) :
    (st.legacyGate item safety).1.session = st.session ∧
      (safety = true → (st.legacyGate item safety).1.legacy = []) ∧
      (safety = false → (st.legacyGate item safety).1.legacy = st.legacy) := by
  cases safety with
  | true => exact ⟨(st.cancelActive_deed .preempted).session, fun _ => rfl, nofun⟩
  | false =>
    have h := st.legacyGate_deed item
    exact ⟨h.session, nofun, fun _ => h.aside.1⟩

/-- Reaping keeps the session or ends it. -/
theorem reapSession_timed (st : St) (now : Nat) {s' : Session}
    (h : (st.reapSession now).1.session = some s') : st.session = some s' := by
  rcases (st.reapSession_frame now).2.2.2 with hs | hs
  · exact hs.symm.trans h
  · rw [hs] at h; cases h

theorem sessionRenew_timed (st : St) (id : String) (now : Nat) {s' : Session}
    (h : (st.sessionRenew id now).1.session = some s') :
    ∃ s, st.session = some s ∧ s.id = s'.id := by
  rw [sessionRenew] at h
  dsimp only at h
  split at h
  · rename_i s hs
    split at h
    · cases h
      exact ⟨s, st.reapSession_timed now hs, rfl⟩
    · exact ⟨s', st.reapSession_timed now h, rfl⟩
  · exact ⟨s', st.reapSession_timed now h, rfl⟩

theorem sessionClose_timed (st : St) (id : String) (result : Option String) (now : Nat)
    {s' : Session} (h : (st.sessionClose id result now).1.session = some s') :
    ∃ s, st.session = some s ∧ s.id = s'.id := by
  rw [sessionClose] at h
  dsimp only at h
  split at h
  · split at h
    · cases h
    · exact ⟨s', st.reapSession_timed now h, rfl⟩
  · exact ⟨s', st.reapSession_timed now h, rfl⟩

theorem sessionGate_timed (st : St) (action : String) (session : Option String) (now : Nat)
    {s' : Session} (h : (st.sessionGate action session now).1.session = some s') :
    ∃ s, st.session = some s ∧ s.id = s'.id := by
  rw [sessionGate] at h
  dsimp only at h
  split at h
  · rename_i s hs
    split at h
    · cases h
      exact ⟨s, st.reapSession_timed now hs, rfl⟩
    · split at h <;> exact ⟨s', st.reapSession_timed now h, rfl⟩
  · split at h <;> exact ⟨s', st.reapSession_timed now h, rfl⟩

theorem sessionOpen_timed (st : St) (source : Source) (id : String) (now : Nat) {s' : Session}
    (h : (st.sessionOpen source id now).1.session = some s') :
    (∃ s, st.session = some s ∧ s.id = s'.id) ∨
      (st.sessionOpen source id now).2.2.toBool = true ∧ s'.id = id := by
  rw [sessionOpen] at h ⊢
  dsimp only at h ⊢
  split at h
  · exact .inl ⟨s', st.reapSession_timed now h, rfl⟩
  · split at h
    · exact .inl ⟨s', st.reapSession_timed now h, rfl⟩
    · cases h
      exact .inr ⟨rfl, rfl⟩

end St

/-- **What a call passes on.** -/
theorem Call.turn_stirs (st : St) (draining : Bool) (c : Call) :
    Stirs st (c.turn st draining).st draining (c.turn st draining).draining none
      (c.turn st draining).task := by
  have hshift := c.turn_shift st draining
  cases c with
  | revert opId =>
    exact .of_call hshift (fun s' hs => .inl ⟨s', st.revert_deed.session ▸ hs, rfl⟩)
      (fun h => (by cases h)) fun h => .inl (st.revert_deed.aside.1 ▸ h)
  | keep opId =>
    exact .of_call hshift (fun s' hs => .inl ⟨s', st.keep_deed.session ▸ hs, rfl⟩)
      (fun h => (by cases h)) fun h => .inl (st.keep_deed.aside.1 ▸ h)
  | preempt =>
    exact .of_call hshift
      (fun s' hs => .inl ⟨s', (st.cancelActive_deed .preempted).session ▸ hs, rfl⟩)
      (fun _ _ => .inr rfl) fun h => absurd rfl h
  | otherWrite source =>
    have hdeed := st.otherWrite_deed source
    refine .of_call hshift (fun s' hs => .inl ⟨s', hdeed.session ▸ hs, rfl⟩) ?_
      fun h => .inl (hdeed.aside.1 ▸ h)
    intro hmay hact
    have hmay : source.isUser = true := hmay
    simp only [Call.turn, hact, hmay]
    exact .inl rfl
  | interrupt source what =>
    have hdeed := st.interrupt_deed source what
    refine .of_call hshift (fun s' hs => .inl ⟨s', hdeed.session ▸ hs, rfl⟩) ?_
      fun h => .inl (hdeed.aside.1 ▸ h)
    intro _ hact
    simp only [Call.turn, St.interrupt_kicks, hact]
    exact .inl rfl
  | legacyGate item safety =>
    obtain ⟨hses, hempty, hsame⟩ := st.legacyGate_frame item safety
    refine .of_call hshift (fun s' hs => .inl ⟨s', hses ▸ hs, rfl⟩) ?_ ?_
    · exact fun hmay _ => .inr (hempty hmay)
    · intro hne
      rcases safety with _ | _
      · exact .inl (hsame rfl ▸ hne)
      · exact absurd (hempty rfl) hne
  | enqueueLegacy item action params now =>
    exact .of_call hshift (fun s' hs => .inl ⟨s', hs, rfl⟩) (fun h => (by cases h))
      fun _ => .inr rfl
  | clearLegacy why =>
    exact .of_call hshift (fun s' hs => .inl ⟨s', hs, rfl⟩) (fun h => (by cases h))
      fun h => absurd rfl h
  | sessionOpen source id now =>
    refine .of_call hshift ?_ (fun h => (by cases h))
      fun h => .inl ((st.sessionOpen_tends source id now).aside.1 ▸ h)
    intro s' hs'
    rcases st.sessionOpen_timed source id now hs' with h | ⟨hok, hid⟩
    · exact .inl h
    · right
      simp only [Call.turn, hok, hid]
      rfl
  | sessionRenew id now =>
    exact .of_call hshift (fun s' hs => .inl (st.sessionRenew_timed id now hs))
      (fun h => (by cases h)) fun h => .inl ((st.sessionRenew_tends id now).aside.1 ▸ h)
  | sessionClose id result now =>
    exact .of_call hshift (fun s' hs => .inl (st.sessionClose_timed id result now hs))
      (fun h => (by cases h)) fun h => .inl ((st.sessionClose_tends id result now).aside.1 ▸ h)
  | sessionGate action session now =>
    exact .of_call hshift (fun s' hs => .inl (st.sessionGate_timed action session now hs))
      (fun h => (by cases h)) fun h => .inl ((st.sessionGate_tends action session now).aside.1 ▸ h)
  | ack opId source =>
    exact .of_call hshift (fun s' hs => .inl ⟨s', (st.ack_deed source).session ▸ hs, rfl⟩)
      (fun h => (by cases h)) fun h => .inl ((st.ack_deed source).aside.1 ▸ h)
  | noticeAck source =>
    exact .of_call hshift (fun s' hs => .inl ⟨s', (st.noticeAck_deed source).session ▸ hs, rfl⟩)
      (fun h => (by cases h)) fun h => .inl ((st.noticeAck_deed source).aside.1 ▸ h)
  | publishNow => exact .of_other rfl

/-- A process starts without a session. -/
theorem Disk.start_session (d : Disk) (bootId : String) (now : Nat) :
    (d.start bootId now).1.session = none := by
  rw [start]
  split
  · rfl
  · exact (@Deed.beat d.boot _ true).session

/-! ### How soon -/

/-- How many turns a task is away from waking the queue, if nothing holds the lock. -/
def Task.distance : Task → Nat
  | .drainMore | .timer _ | .drive _ | .feed .. => 1
  | .drainLower | .read .. | .probe .. | .rollback .. => 2
  | .rollbackRead .. | .rollbackWait .. | .rollbackSkip .. => 2
  | .sleep .. | .rollbackWrite .. => 3
  | _ => 0

/-- **A task that wakes the queue gets there.**  While the lock is free and requests wait,
    each of its turns leaves the engine as it is, and raises the flag or brings the task
    nearer. -/
theorem Task.turn_nears (cfg : Config) (bootId : String) (uid : Nat) {st : St} (i : Input)
    {T : Task} (hT : T.wakes = true) (ha : st.active = none) (hs : st.session = none)
    (hl : st.legacy ≠ []) :
    (T.turn cfg bootId uid st false i).st = st ∧
      ((T.turn cfg bootId uid st false i).draining = true ∨
        ∃ T', (T.turn cfg bootId uid st false i).task = some T' ∧ T'.wakes = true ∧
          T'.distance < T.distance) := by
  have hlive : ∀ x, st.live x = none := by
    intro x
    rw [St.live, ha]
  cases T with
  | drive opId =>
    simp only [Task.turn, hlive]
    exact ⟨trivial, .inr ⟨_, rfl, rfl, by simp [distance]⟩⟩
  | rollback opId u value generation spec =>
    simp only [Task.turn, hlive]
    exact ⟨trivial, .inr ⟨_, rfl, rfl, by simp [distance]⟩⟩
  | rollbackRead opId u value generation spec =>
    simp only [Task.turn, St.rollbackCheck, hlive]
    exact ⟨trivial, .inr ⟨_, rfl, rfl, by simp [distance]⟩⟩
  | rollbackWrite opId u value => exact ⟨rfl, .inr ⟨_, rfl, rfl, by simp [distance]⟩⟩
  | rollbackWait opId u =>
    simp only [Task.turn, St.rollbackSent, hlive]
    exact ⟨trivial, .inr ⟨_, rfl, rfl, by simp [distance]⟩⟩
  | rollbackSkip opId u =>
    simp only [Task.turn, St.rollbackSent, hlive]
    exact ⟨trivial, .inr ⟨_, rfl, rfl, by simp [distance]⟩⟩
  | sleep opId generation spec =>
    refine ⟨rfl, .inr ⟨_, rfl, ?_, ?_⟩⟩ <;> split <;> simp [wakes, driver, distance]
  | read opId generation spec =>
    simp only [Task.turn, hlive]
    split <;> exact ⟨rfl, .inr ⟨_, rfl, rfl, by simp [distance]⟩⟩
  | probe opId generation reading => exact ⟨rfl, .inr ⟨_, rfl, rfl, by simp [distance]⟩⟩
  | feed opId generation reading =>
    simp only [Task.turn, hlive]
    exact ⟨trivial, .inr ⟨_, rfl, rfl, by simp [distance]⟩⟩
  | kick => exact ⟨rfl, .inl rfl⟩
  | drainLower => exact ⟨rfl, .inr ⟨_, rfl, rfl, by simp [distance]⟩⟩
  | drainMore =>
    refine ⟨rfl, .inr ⟨.drainRetry, ?_, rfl, by simp [distance]⟩⟩
    rcases hq : st.legacy with _ | ⟨r, l⟩
    · exact absurd hq hl
    · simp [Task.turn, ha, hs, hq]
  | drainRetry => exact ⟨rfl, .inl rfl⟩
  | timer id =>
    simp only [Task.turn, St.reapSession, hs]
    exact ⟨trivial, .inr ⟨_, rfl, rfl, by simp [distance]⟩⟩
  | _ => cases hT

/-! ### The system -/

namespace World

/-- Somebody is left to wake the queue. -/
structure Awake (w : World) : Prop where
  timed : ∀ s, w.st.session = some s → ∃ k, w.tasks k = some (.timer s.id)
  driven : ∀ t, w.st.active = some t → t.intent ≠ some .apply →
    ∃ k, driverOf (w.tasks k) = some t.opId
  woken : w.st.legacy ≠ [] → w.draining = false → w.st.active = none → w.st.session = none →
    ∃ k, wakesOf (w.tasks k) = true

theorem Awake.asleep {w : World} (hs : w.st.session = none) (ha : w.st.active = none)
    (hl : w.st.legacy = []) : w.Awake := by
  refine ⟨?_, ?_, fun h => absurd hl h⟩
  · intro s h; rw [hs] at h; cases h
  · intro t h; rw [ha] at h; cases h

/-- **One turn leaves somebody to wake the queue.** -/
theorem Awake.turn {w : World} (h : w.Awake) {key : Nat} {turn : Turn}
    (g : Stirs w.st turn.st w.draining turn.draining (w.tasks key) turn.task) :
    (w.take key turn).Awake := by
  constructor
  · intro s' hs'
    rcases g.timed s' hs' with ⟨s, hs, hid⟩ | ht
    · obtain ⟨k, hk⟩ := h.timed s hs
      rw [hid] at hk
      by_cases hkey : k = key
      · rw [hkey] at hk
        rcases g.timer _ hk with ht | ⟨-, hne⟩
        · exact ⟨key, by rw [Goes.at_key]; exact ht⟩
        · exact absurd rfl (hne s' hs')
      · exact ⟨k, by rw [Goes.at_other hkey]; exact hk⟩
    · exact ⟨key, by rw [Goes.at_key]; exact ht⟩
  · intro t' ht' hi
    rcases g.driven t' ht' hi with ⟨t, ht, hx, hi⟩ | hd
    · obtain ⟨k, hk⟩ := h.driven t ht hi
      rw [hx] at hk
      by_cases hkey : k = key
      · rw [hkey] at hk
        rcases g.driver _ hk with hd | ⟨-, hne⟩
        · exact ⟨key, by rw [Goes.at_key]; exact hd⟩
        · exact absurd rfl (hne t' ht')
      · exact ⟨k, by rw [Goes.at_other hkey]; exact hk⟩
    · exact ⟨key, by rw [Goes.at_key]; exact hd⟩
  · intro hne hdown hact hses
    -- whoever wakes the queue in this slot still does so in another
    have hhere : wakesOf turn.task = true → ∃ k, wakesOf ((w.take key turn).tasks k) = true :=
      fun hw => ⟨key, by rw [Goes.at_key]; exact hw⟩
    have hstays : ∀ k, wakesOf (w.tasks k) = true →
        ∃ k, wakesOf ((w.take key turn).tasks k) = true := by
      intro k hk
      by_cases hkey : k = key
      · rw [hkey] at hk
        exact hhere (g.wakes hk hne hdown hact hses)
      · exact ⟨k, by rw [Goes.at_other hkey]; exact hk⟩
    rcases hd : w.draining with _ | _
    · rcases g.fills hne hdown with hl | hw
      · rcases ha : w.st.active with _ | t
        · rcases hs : w.st.session with _ | s
          · obtain ⟨k, hk⟩ := h.woken hl hd ha hs
            exact hstays k hk
          · obtain ⟨k, hk⟩ := h.timed s hs
            exact hstays k (by rw [hk]; rfl)
        · rcases g.ends t ha hact with hw | hnil | hi
          · exact hhere hw
          · exact absurd hnil hne
          · obtain ⟨k, hk⟩ := h.driven t ha hi
            exact hstays k (wakesOf_of_driver hk)
      · exact hhere hw
    · exact hhere (g.lowers hd hdown)

theorem Awake.step {cfg : Config} {w w' : World} {a : Act} {q : Queue LegacyReq} (hok : w.Ok)
    (hq : w.Serving q) (h : w.Awake) (hs : Step cfg w a w') : w'.Awake := by
  cases hs with
  | @submit key req fresh hu hk =>
    rw [← take_idle]
    refine h.turn ?_
    rw [hk]
    exact .of_other rfl
  | @task key i T ht =>
    refine h.turn ?_
    rw [ht]
    refine Task.turn_stirs cfg w.bootId w.nextUid hok.st i ?_
    intro hd
    exact hq.flag.mpr ⟨key, by rw [ht]; exact hd⟩
  | @call key c hu hk =>
    refine h.turn ?_
    rw [hk]
    exact c.turn_stirs w.st w.draining
  | @drop key T ht hd =>
    rw [← take_idle]
    refine h.turn ?_
    rw [ht]
    refine .of_other ?_
    cases T with
    | submitRead | submitWait => rfl
    | _ => cases hd
  | @start key bootId now hu =>
    have hl := (w.disk.start_aside bootId now).1
    have hses := w.disk.start_session bootId now
    refine ⟨?_, ?_, fun hne => absurd hl hne⟩
    · intro s hs
      rw [show (w.disk.start bootId now).1.session = some s from hs] at hses
      cases hses
    · intro t ht _
      refine ⟨key, ?_⟩
      show driverOf (startTasks (w.disk.start bootId now).1 key key) = some t.opId
      have ht : (w.disk.start bootId now).1.active = some t := ht
      rw [startTasks, setTask, if_pos rfl, ht]
      rfl
  | takeover => exact ⟨h.timed, h.driven, h.woken⟩
  | crash hu => exact .asleep rfl rfl rfl
  | crashTask ht => exact .asleep rfl rfl rfl
  | crashCall hu => exact .asleep rfl rfl rfl
  | crashStart hu => exact .asleep rfl rfl rfl

/-- **No wake-up is lost.**  In every state of every run: while the drain flag is up, a
    drain task has it; and if nothing holds the lock, requests wait and the flag is down,
    then a task is left that wakes the queue, each of whose turns raises the flag or
    brings it nearer to doing so. -/
theorem legacy_queue_woken {cfg : Config} {w : World}
    (h : Exec (next cfg) (fun _ _ => True) {} w) :
    (w.draining = true → ∃ k, drainsOf (w.tasks k) = true) ∧
    (w.st.active = none → w.st.session = none → w.st.legacy ≠ [] → w.draining = false →
      ∃ k T, w.tasks k = some T ∧ T.wakes = true ∧
        ∀ i, (w.turnOf cfg T i).st = w.st ∧
          ((w.turnOf cfg T i).draining = true ∨
            ∃ T', (w.turnOf cfg T i).task = some T' ∧ T'.wakes = true ∧
              T'.distance < T.distance)) := by
  obtain ⟨-, ⟨q, hq⟩, hawake⟩ := h.invariant
    (fun w => w.Ok ∧ (∃ q, w.Serving q) ∧ w.Awake) (by
    rintro v v' a ⟨hv, ⟨q, hq⟩, haw⟩ - hs
    obtain ⟨-, q', hq', -⟩ := hq.step (Nat.zero_le _) (next_step hs)
    exact ⟨hv.step (next_step hs), ⟨q', hq'⟩, haw.step hv hq (next_step hs)⟩)
    ⟨.empty, ⟨_, .empty⟩, .asleep rfl rfl rfl⟩
  refine ⟨hq.flag.mp, ?_⟩
  intro ha hs hl hd
  obtain ⟨k, hk⟩ := hawake.woken hl hd ha hs
  rcases hT : w.tasks k with _ | T
  · rw [hT] at hk; cases hk
  · have hwakes : T.wakes = true := by rw [hT] at hk; exact hk
    refine ⟨k, T, hT, hwakes, ?_⟩
    intro i
    rw [turnOf, hd]
    exact Task.turn_nears cfg w.bootId w.nextUid i hwakes ha hs hl

/-- A request is queued while the lock is free, and its wake-up is on the way. -/
theorem queued_request_woken :
    ∃ w, Exec (next sampleConfig) (fun _ _ => True) {} w ∧ w.st.legacy ≠ [] ∧
      ∃ k T, w.tasks k = some T ∧ T.wakes = true := by
  have hrun : (run (next sampleConfig) (fun _ _ => true) {}
      [.start 0 "boot" 5, enqueue 1 (legacyRequest "Only_LTE" 10)]).any (fun w =>
        w.st.active.isNone && w.st.session.isNone && !w.st.legacy.isEmpty && !w.draining) =
          true := by decide +kernel
  obtain ⟨w, hw, hp⟩ := Exec.exists_of_run (fun _ _ _ => trivial) (.refl _) hrun
  simp only [Bool.and_eq_true, Option.isNone_iff_eq_none, Bool.not_eq_true',
    List.isEmpty_eq_false_iff] at hp
  obtain ⟨⟨⟨ha, hs⟩, hl⟩, hd⟩ := hp
  obtain ⟨k, T, hT, hwakes, -⟩ := (legacy_queue_woken hw).2 ha hs hl hd
  exact ⟨w, hw, hl, k, T, hT, hwakes⟩

end World

end Datad
