/-
  Datad/Ops/TaskPassage.lean
  ==========================
  **What a task owes to the transaction it works for.**

  Towards device writes a task is described by three facts: the `op_id` it looks
  its transaction up by, the write it has yet to report back, and whether that
  write is still ahead of it.  `Passes` says how these change in one turn: they
  stay or are dropped, a transaction is accepted, a driver decides to roll back,
  or the write starts.
-/
import Datad.Ops.WorldInvariant

namespace Datad

namespace Task

/-- The `op_id` of the accepted transaction a task works for. -/
def works : Task → Option String
  | .submitWrite _ x _ | .submitWait _ x _ | .submitBack _ x _ _ => some x
  | .drive x | .rollback x _ _ _ _ | .rollbackRead x _ _ _ _ | .rollbackWrite x _ _ => some x
  | .rollbackWait x _ | .rollbackSkip x _ => some x
  | .sleep x _ _ | .read x _ _ | .probe x _ _ | .feed x _ _ => some x
  | _ => none

/-- The write a task has yet to report back. -/
def owes : Task → Option (Nat × Intent)
  | .submitWrite _ _ u | .submitWait _ _ u | .submitBack _ _ u _ => some (u, .apply)
  | .rollback _ u _ _ _ | .rollbackRead _ u _ _ _ | .rollbackWrite _ u _ => some (u, .rollback)
  | .rollbackWait _ u | .rollbackSkip _ u => some (u, .rollback)
  | _ => none

/-- The write that is still ahead of a task. -/
def ahead : Task → Option (Nat × Intent × String)
  | .submitWrite req _ u => some (u, .apply, req.target)
  | .rollback _ u v _ _ | .rollbackRead _ u v _ _ | .rollbackWrite _ u v => some (u, .rollback, v)
  | _ => none

/-- The write the next turn of a task starts. -/
def sends : Task → Option (Nat × Intent × String)
  | .submitWrite req _ u => some (u, .apply, req.target)
  | .rollbackWrite _ u v => some (u, .rollback, v)
  | _ => none

theorem owes_of_ahead {T : Task} {u : Nat} {i : Intent} {v : String}
    (h : T.ahead = some (u, i, v)) : T.owes = some (u, i) := by
  cases T <;> simp_all [ahead, owes]

theorem works_of_lands {T : Task} {x : String} (h : T.lands = some x) : T.works = some x := by
  cases T <;> simp_all [works, lands]

end Task

def worksOf (T : Option Task) : Option String := T.bind Task.works
def owesOf (T : Option Task) : Option (Nat × Intent) := T.bind Task.owes
def aheadOf (T : Option Task) : Option (Nat × Intent × String) := T.bind Task.ahead

theorem owesOf_of_ahead {T : Option Task} {u : Nat} {i : Intent} {v : String}
    (h : aheadOf T = some (u, i, v)) : owesOf T = some (u, i) := by
  obtain ⟨S, rfl, hS⟩ := Option.bind_eq_some_iff.mp h
  exact Task.owes_of_ahead hS

/-- How one turn changes a task, and the writes it starts. -/
inductive Passes (uid : Nat) (st st' : St) (accepted : Nat) (T : Task) (T' : Option Task)
    (es : List Event) : Prop where
  /-- Nothing new is owed. -/
  | on (hacc : accepted = 0)
      (hw : ∀ x, worksOf T' = some x → T.works = some x)
      (ho : ∀ o, owesOf T' = some o → T.owes = some o ∧ worksOf T' = T.works)
      (ha : ∀ o, aheadOf T' = some o → T.ahead = some o)
      (hl : T.lands ≠ none → owesOf T' = none)
      (hk : ∀ u, T.owes = some (u, .rollback) → T.ahead = none → owesOf T' = T.owes ∨
        ∀ t t', st.active = some t → T.works = some t.opId → t.ctl.Inv →
          t.intent = some .rollback → st'.active = some t' → Ctl.Sent t'.ctl)
      (he : ∀ u i v, .write u i v ∉ es)
  | accept {req : Request} {x : String} {t' : Txn} (hacc : accepted = 1)
      (hT : T = .submitRead req x) (hT' : T' = some (.submitWrite req x uid)) (he : es = [])
      (ht' : st'.active = some t') (hu : t'.uid = uid) (hx : t'.opId = x)
      (hi : t'.intent = some .apply) (hv : t'.target = req.target)
  /-- The driver finds a rollback to send. -/
  | decide {t : Txn} {g : Nat} {spec : Option Spec} (hacc : accepted = 0) (hst : st' = st)
      (hT : T = .drive t.opId) (hT' : T' = some (.rollback t.opId t.uid t.rollbackTo g spec))
      (he : es = []) (ht : st.active = some t) (hi : t.intent = some .rollback)
  /-- The write starts. -/
  | send {u : Nat} {i : Intent} {v : String} (hacc : accepted = 0) (hst : st' = st)
      (ha : T.ahead = some (u, i, v)) (ha' : aheadOf T' = none) (ho : owesOf T' = T.owes)
      (hw : worksOf T' = T.works) (hl : T.lands = none) (hs : T.sends = some (u, i, v))
      (he : es = [.write u i v])

namespace Passes

variable {uid : Nat} {st st' : St} {T : Task} {T' : Option Task} {es : List Event}

/-- A turn of a task that owes nothing, before and after. -/
theorem of_free (hw : ∀ x, worksOf T' = some x → T.works = some x)
    (ho : T.owes = none) (ho' : owesOf T' = none) (ha' : aheadOf T' = none)
    (he : ∀ u i v, .write u i v ∉ es) : Passes uid st st' 0 T T' es := by
  refine .on rfl hw ?_ ?_ (fun _ => ho') ?_ he
  · intro o h; rw [ho'] at h; cases h
  · intro o h; rw [ha'] at h; cases h
  · intro u h; rw [ho] at h; cases h

/-- A turn that gives up what is owed, with the write still ahead. -/
theorem of_giveUp {u : Nat} {i : Intent} {v : String}
    (hw : ∀ x, worksOf T' = some x → T.works = some x) (ha : T.ahead = some (u, i, v))
    (ho' : owesOf T' = none) (ha' : aheadOf T' = none)
    (he : ∀ u i v, .write u i v ∉ es) : Passes uid st st' 0 T T' es := by
  refine .on rfl hw ?_ ?_ (fun _ => ho') ?_ he
  · intro o h; rw [ho'] at h; cases h
  · intro o h; rw [ha'] at h; cases h
  · intro u _ h; rw [ha] at h; cases h

/-- A turn that keeps what is owed. -/
theorem of_keep {T' : Task} (hw : T'.works = T.works) (ho : T'.owes = T.owes)
    (ha : T'.ahead = T.ahead) (hl : T.lands = none)
    (he : ∀ u i v, .write u i v ∉ es) : Passes uid st st' 0 T (some T') es := by
  refine .on rfl ?_ ?_ ?_ ?_ ?_ he
  · intro x h; rw [← hw]; exact h
  · intro o h; exact ⟨ho ▸ h, hw⟩
  · intro o h; rw [← ha]; exact h
  · intro h; exact absurd hl h
  · intro u _ _; exact .inl ho

/-- The only write a turn starts is the one that was ahead. -/
theorem write_ahead {n : Nat} (h : Passes uid st st' n T T' es) {u : Nat} {i : Intent} {v : String}
    (hm : .write u i v ∈ es) :
    n = 0 ∧ T.ahead = some (u, i, v) ∧ owesOf T' = T.owes ∧ es = [.write u i v] := by
  cases h with
  | on hacc hw ho ha hl hk he => exact absurd hm (he u i v)
  | accept hacc hT hT' he => rw [he] at hm; cases hm
  | decide hacc hst hT hT' he => rw [he] at hm; cases hm
  | send hacc hst ha ha' ho hw hl hs he =>
    rw [he] at hm
    cases List.mem_singleton.mp hm
    exact ⟨hacc, ha, ho, he⟩

/-- The end of `send_rollback`. -/
theorem of_sent {x : String} {u now : Nat} (hT : T.works = some x)
    (hw : T'.bind Task.works = some x) (ho : owesOf T' = none) (ha : aheadOf T' = none)
    (hst : st' = (st.rollbackSent x now).1) : Passes u st st' 0 T T' [] := by
  refine .on rfl ?_ ?_ ?_ (fun _ => ho) ?_ (by simp)
  · intro y h; rw [hT, ← hw]; exact h
  · intro o h; rw [ho] at h; cases h
  · intro o h; rw [ha] at h; cases h
  · refine fun u' _ _ => .inr ?_
    intro t t' ht hx hinv hi ht'
    have hx : t.opId = x := by rw [hT] at hx; exact (Option.some.inj hx).symm
    have hlive : st.live x = some t := St.live_eq_some.mpr ⟨ht, hx⟩
    have hp : t.phase = .rollingBack := hinv.rolling hi
    have hact : st'.active = some (t.rollbackSent now) := by
      rw [hst]
      rw [St.rollbackSent]
      rw [hlive]
      exact ((st.setActive _).persist_frame true).1
    rw [hact] at ht'
    rw [← Option.some.inj ht']
    rw [Txn.rollbackSent]
    rw [if_neg (not_not.mpr hp)]
    exact .inl ⟨hp, rfl⟩

end Passes

/-- **Every turn of a task is a passage.** -/
theorem Task.turn_passes (cfg : Config) (bootId : String) (uid : Nat) (st : St)
    (draining : Bool) (i : Input) (T : Task) :
    Passes uid st (T.turn cfg bootId uid st draining i).st
      (T.turn cfg bootId uid st draining i).accepted T
      (T.turn cfg bootId uid st draining i).task
      (T.turn cfg bootId uid st draining i).events := by
  cases T with
  | submit req opId =>
    simp only [Task.turn]
    split <;> exact .of_free (by simp [worksOf, works]) rfl rfl rfl (by simp)
  | submitRead req opId =>
    simp only [Task.turn]
    split
    · exact .of_free (by simp [worksOf]) rfl rfl rfl (by simp)
    · split
      · exact .of_free (by simp [worksOf]) rfl rfl rfl (by simp)
      · exact .accept rfl rfl rfl rfl (St.accept_active ..) rfl rfl rfl rfl
  | submitWrite req opId u => exact .send rfl rfl rfl rfl rfl rfl rfl rfl rfl
  | submitWait req opId u =>
    exact .of_keep rfl rfl rfl rfl (by simp [Task.turn])
  | submitBack req opId u result =>
    simp only [Task.turn]
    refine .on rfl ?_ ?_ ?_ ?_ ?_ (by simp)
    · intro x h
      split at h
      · exact h
      · cases h
    · intro o h; split at h <;> cases h
    · intro o h; split at h <;> cases h
    · intro _; split <;> rfl
    · intro u' h; cases h
  | drive opId =>
    simp only [Task.turn]
    split
    · exact .of_free (by simp [worksOf, works]) rfl rfl rfl (by simp)
    · rename_i t hl
      obtain ⟨ht, rfl⟩ := St.live_eq_some.mp hl
      split
      · rename_i hg
        exact .decide rfl rfl rfl rfl rfl ht hg.2
      · exact .of_free (by simp [worksOf, works]) rfl rfl rfl (by simp)
  | rollback opId u value generation spec =>
    simp only [Task.turn]
    split
    · exact .of_giveUp (by simp [worksOf, works]) rfl rfl rfl (by simp)
    · rcases spec with _ | spec
      · refine .on rfl (by simp [worksOf, works]) ?_ ?_ (fun h => absurd rfl h) ?_ (by simp)
        · intro o h; exact ⟨h, rfl⟩
        · intro o h; cases h
        · intro u' _ h; cases h
      · exact .of_keep rfl rfl rfl rfl (by simp)
  | rollbackRead opId u value generation spec =>
    simp only [Task.turn]
    split
    · exact .of_giveUp (by simp [worksOf, works]) rfl rfl rfl (by simp)
    · exact .of_keep rfl rfl rfl rfl (by simp)
    · exact .of_giveUp (by simp [worksOf, works]) rfl rfl rfl (by simp)
  | rollbackWrite opId u value => exact .send rfl rfl rfl rfl rfl rfl rfl rfl rfl
  | rollbackWait opId u => exact .of_sent rfl rfl rfl rfl rfl
  | rollbackSkip opId u => exact .of_sent rfl rfl rfl rfl rfl
  | sleep opId generation spec =>
    simp only [Task.turn]
    split <;> exact .of_free (by simp [worksOf, works]) rfl rfl rfl (by simp)
  | read opId generation spec =>
    simp only [Task.turn]
    split
    · split
      · exact .of_free (by simp [worksOf, works]) rfl rfl rfl (by simp)
      · split <;> exact .of_free (by simp [worksOf, works]) rfl rfl rfl (by simp)
    · exact .of_free (by simp [worksOf, works]) rfl rfl rfl (by simp)
  | probe opId generation reading =>
    exact .of_free (by simp [worksOf, works, Task.turn]) rfl rfl rfl (by simp [Task.turn])
  | feed opId generation reading =>
    simp only [Task.turn]
    split <;> exact .of_free (by simp [worksOf, works]) rfl rfl rfl (by simp)
  | kick =>
    simp only [Task.turn]
    split <;> exact .of_free (by simp [worksOf, works]) rfl rfl rfl (by simp)
  | drain =>
    simp only [Task.turn]
    split <;> exact .of_free (by simp [worksOf, works]) rfl rfl rfl (by simp)
  | drainRun r =>
    simp only [Task.turn]
    split <;> exact .of_free (by simp [worksOf, works]) rfl rfl rfl (by simp)
  | drainBack r =>
    exact .of_free (by simp [worksOf, works, Task.turn]) rfl rfl rfl (by simp [Task.turn])
  | drainLower =>
    exact .of_free (by simp [worksOf, works, Task.turn]) rfl rfl rfl (by simp [Task.turn])
  | drainMore =>
    simp only [Task.turn]
    split <;> exact .of_free (by simp [worksOf, works]) rfl rfl rfl (by simp)
  | drainRetry =>
    simp only [Task.turn]
    split <;> exact .of_free (by simp [worksOf, works]) rfl rfl rfl (by simp)
  | timer id =>
    have hfree : ∀ (ended : Bool) (st' : St), Passes uid st st' 0 (.timer id)
        (some (if ended then .kick else .timer id)) [] := by
      intro ended st'
      cases ended <;> exact .of_free (by simp [worksOf, works]) rfl rfl rfl (by simp)
    exact hfree _ _

/-- A call leaves behind a task that owes nothing. -/
theorem Call.turn_free (st : St) (draining : Bool) (c : Call) :
    worksOf (c.turn st draining).task = none ∧ owesOf (c.turn st draining).task = none ∧
      aheadOf (c.turn st draining).task = none := by
  have hkick : ∀ b : Bool, worksOf (if b then some .kick else none) = none ∧
      owesOf (if b then some .kick else none) = none ∧
      aheadOf (if b then some .kick else none) = none := by
    intro b; cases b <;> exact ⟨rfl, rfl, rfl⟩
  cases c with
  | keep opId => exact hkick _
  | otherWrite source => exact hkick _
  | interrupt source what => exact hkick _
  | sessionClose id result now => exact hkick _
  | sessionOpen source id now =>
    simp only [Call.turn]
    split <;> exact ⟨rfl, rfl, rfl⟩
  | _ => exact ⟨rfl, rfl, rfl⟩

end Datad
