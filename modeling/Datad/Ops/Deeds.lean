/-
  Datad/Ops/Deeds.lean
  ====================
  **What the locked sections do**, each in one of a few ways.

  A section on the transaction publishes it, saves it, ends it or accepts another; one on
  the session changes the session alone.  The queue, the books and the block see of a
  section no more than that, so each of them goes through these few ways and not through
  the sections.
-/
import Datad.Ops.Sections

namespace Datad

/-- What a section on the transactions does. -/
inductive Deed (st : St) : St → List Effect → Prop where
  | idle : Deed st st []
  | persist : Deed st (st.persist true).1 (st.persist true).2
  /-- The transaction goes on. -/
  | save (t : Txn)
      (hf : (∀ u, st.active = some u → u.phase.isFinal = false) → t.phase.isFinal = false) :
      Deed st ((st.setActive t).persist true).1 ((st.setActive t).persist true).2
  /-- The transaction ends. -/
  | close (t : Txn) (hf : t.phase.isFinal = true) :
      Deed st (st.setActive t).finish.1 (st.setActive t).finish.2
  | interrupt (t : Txn) (hf : t.phase.isFinal = true) (source : Source)
      (opId item what : String) :
      Deed st (st.setActive t).finish.1
        ((st.setActive t).finish.2 ++ [.append (.interrupt source opId item what)])
  /-- A beat, with which it may end. -/
  | beat (t : Txn) (force : Bool) :
      Deed st ((st.setActive t).persist force).1.finish.1
        (((st.setActive t).persist force).2 ++ ((st.setActive t).persist force).1.finish.2)
  | accept (t : Txn) (hf : t.phase.isFinal = false) :
      Deed st ((st.supersede.1.setActive t).persist true).1
        (st.supersede.2 ++ ((st.supersede.1.setActive t).persist true).2)
  | publish : Deed st st [.publish st]
  | ack {l : Last} (hl : st.last = some l) (source : Source) (opId : String) :
      Deed st { st with last := some { l with acked := true } }
        [.saveLast { l with acked := true }, .append (.ack source opId l.txn.item),
          .publish { st with last := some { l with acked := true } }]
  | noticeAck (source : Source) :
      Deed st { st with noticeAcked := true }
        [.saveNotice, .append (.noticeAck source), .publish { st with noticeAcked := true }]

/-- What a section on the session does. -/
def Tends (st st' : St) (fx : List Effect) : Prop :=
  ∃ (session : Option Session) (lines : List Line), st' = { st with session } ∧
    fx = lines.map .append ∧ ∀ line ∈ lines, ∃ s result reason age, line = .session s result reason age

/-- What a section on the queue does. -/
def Queues (st st' : St) (fx : List Effect) : Prop :=
  ∃ (legacy : List LegacyReq) (lines : List Line), st' = { st with legacy } ∧
    fx = lines.map .append ∧ ∀ line ∈ lines, ∃ r result reason, line = .legacy r result reason

/-- What any section does. -/
inductive Does (st : St) : St → List Effect → Prop where
  | deed {st' : St} {fx : List Effect} (h : Deed st st' fx) : Does st st' fx
  | tends {st' : St} {fx : List Effect} (h : Tends st st' fx) : Does st st' fx
  | queues {st₁ st' : St} {fx fx' : List Effect} (h : Deed st st₁ fx) (hq : Queues st₁ st' fx') :
      Does st st' (fx ++ fx')
  | owner (item : String) (source : Source) (undo : Bool) (value opId : String) :
      Does st st [.setOwner item source undo value opId]

theorem Does.idle (st : St) : Does st st [] := .deed .idle

theorem Queues.does {st st' : St} {fx : List Effect} (h : Queues st st' fx) : Does st st' fx :=
  .queues .idle h

theorem Deed.session {st st' : St} {fx : List Effect} (h : Deed st st' fx) :
    st'.session = st.session := by
  have hfinish : ∀ st : St, st.finish.1.session = st.session := by
    intro st
    rw [St.finish]
    split
    · rename_i t ha
      split
      · exact (St.retire_active ha).2.1
      · rfl
    · rfl
  cases h with
  | persist => exact (st.persist_frame true).2.1
  | save t hf => exact ((st.setActive t).persist_frame true).2.1
  | close t hf => exact hfinish _
  | interrupt t hf source opId item what => exact hfinish _
  | beat t force => exact (hfinish _).trans ((st.setActive t).persist_frame force).2.1
  | accept t hf =>
    exact ((st.supersede.1.setActive t).persist_frame true).2.1.trans st.supersede_frame.2.1
  | idle | publish | ack | noticeAck => rfl

theorem Queues.frame {st st' : St} {fx : List Effect} (h : Queues st st' fx) :
    st'.active = st.active ∧ st'.session = st.session := by
  obtain ⟨legacy, lines, rfl, -, -⟩ := h
  exact ⟨rfl, rfl⟩

/-! ### The transaction -/

namespace St

variable {opId : String}

theorem accept_deed (cfg : Config) (st : St) (req : Request) (uid : Nat) (c : Capture)
    (bootId : String) (now : Nat) :
    Deed st (st.accept cfg req opId uid c bootId now).1
      (st.accept cfg req opId uid c bootId now).2 :=
  .accept (st.acceptedTxn cfg req opId uid c bootId now) rfl

theorem wrote_deed (st : St) (result : Except WriteError Value) (now : Nat) :
    Deed st (st.wrote opId result now).1 (st.wrote opId result now).2.1 := by
  rw [wrote]
  split
  · rename_i t hl
    refine .save _ fun hopen => ?_
    rcases t.applied_step (outcome result) now with h | h
    · rw [h]
      exact hopen t (live_eq_some.mp hl).1
    · exact h.2
  · exact .persist

theorem rollbackCheck_deed (st : St) (reading : Except String Reading) :
    Deed st (st.rollbackCheck opId reading).1 (st.rollbackCheck opId reading).2.1 := by
  rw [rollbackCheck]
  split
  · exact .idle
  · rename_i t hl
    dsimp only
    split
    · exact .idle
    · exact .close _ (t.cancel_final .simChanged)
    · exact .idle

theorem rollbackSent_deed (st : St) (now : Nat) :
    Deed st (st.rollbackSent opId now).1 (st.rollbackSent opId now).2 := by
  rw [rollbackSent]
  split
  · rename_i t hl
    refine .save _ fun hopen => ?_
    rcases t.rollbackSent_step now with h | h
    · rw [h]
      exact hopen t (live_eq_some.mp hl).1
    · exact h.2
  · exact .idle

theorem feed_deed (st : St) (generation : Nat) (reading : Option Reading) (now : Nat) :
    Deed st (st.feed opId generation reading now).1 (st.feed opId generation reading now).2 := by
  rw [feed]
  split
  · exact .idle
  · split
    · exact .idle
    · exact .beat _ _

theorem revert_deed (st : St) : Deed st (st.revert opId).1 (st.revert opId).2.1 := by
  rw [revert]
  split
  · exact .idle
  · split
    · exact .idle
    · rename_i hr
      exact .save _ fun _ => (Txn.revert_open hr).2

theorem keep_deed (st : St) : Deed st (st.keep opId).1 (st.keep opId).2.1 := by
  rw [keep]
  split
  · exact .idle
  · split
    · exact .idle
    · rename_i hk
      exact .close _ (Txn.keep_final hk).2

theorem cancelActive_deed (st : St) (why : Reason) :
    Deed st (st.cancelActive why).1 (st.cancelActive why).2 := by
  rw [cancelActive]
  split
  · rename_i t ha
    exact .close _ (t.cancel_final why)
  · exact .idle

theorem otherWrite_deed (st : St) (source : Source) :
    Deed st (st.otherWrite source).1 (st.otherWrite source).2.1 := by
  rw [otherWrite]
  split
  · exact .idle
  · split
    · exact .idle
    · exact st.cancelActive_deed .otherChange

theorem interrupt_deed (st : St) (source : Source) (what : String) :
    Deed st (st.interrupt source what).1 (st.interrupt source what).2.1 := by
  rw [interrupt]
  split
  · exact .idle
  · rename_i t ha
    simp only [cancelActive, ha]
    exact .interrupt _ (t.cancel_final .otherChange) ..

theorem ack_deed (st : St) (source : Source) :
    Deed st (st.ack opId source).1 (st.ack opId source).2.1 := by
  rw [ack]
  split
  · exact .idle
  · rename_i l hl
    split
    · exact .idle
    · split
      · exact .publish
      · exact .ack hl source opId

theorem noticeAck_deed (st : St) (source : Source) :
    Deed st (st.noticeAck source).1 (st.noticeAck source).2 := by
  rw [noticeAck]
  split
  · exact .publish
  · exact .noticeAck source

end St

/-! ### The session -/

theorem Tends.idle (st : St) : Tends st st [] := ⟨st.session, [], rfl, rfl, by simp⟩

/-- The session changes, and a line says so. -/
theorem Tends.line (st : St) (session : Option Session) (s : Session) (result : String)
    (reason : Option String) (now : Nat) :
    Tends st { st with session } [St.sessionLine s result reason now] :=
  ⟨session, [_], rfl, rfl, by simp⟩

theorem Tends.trans {st st₁ st' : St} {fx fx' : List Effect} (h : Tends st st₁ fx)
    (h' : Tends st₁ st' fx') : Tends st st' (fx ++ fx') := by
  obtain ⟨session₁, lines, rfl, rfl, hlines⟩ := h
  obtain ⟨session, lines', rfl, rfl, hlines'⟩ := h'
  refine ⟨session, lines ++ lines', rfl, List.map_append.symm, ?_⟩
  intro line hmem
  rcases List.mem_append.mp hmem with hmem | hmem
  · exact hlines line hmem
  · exact hlines' line hmem

/-- More is done to the session without a line. -/
theorem Tends.then_quiet {st st₁ : St} {fx : List Effect} (h : Tends st st₁ fx)
    (session : Option Session) : Tends st { st₁ with session } fx := by
  obtain ⟨session₁, lines, rfl, rfl, hlines⟩ := h
  exact ⟨session, lines, rfl, rfl, hlines⟩

namespace St

theorem reapSession_tends (st : St) (now : Nat) :
    Tends st (st.reapSession now).1 (st.reapSession now).2 := by
  rw [reapSession]
  split
  · exact .idle st
  · split
    · exact .line ..
    · split
      · exact .line ..
      · exact .idle st

theorem sessionOpen_tends (st : St) (source : Source) (id : String) (now : Nat) :
    Tends st (st.sessionOpen source id now).1 (st.sessionOpen source id now).2.1 := by
  have h := st.reapSession_tends now
  rw [sessionOpen]
  dsimp only
  split
  · exact h
  · split
    · exact h
    · exact h.trans (.line ..)

theorem sessionRenew_tends (st : St) (id : String) (now : Nat) :
    Tends st (st.sessionRenew id now).1 (st.sessionRenew id now).2.1 := by
  have h := st.reapSession_tends now
  rw [sessionRenew]
  dsimp only
  split
  · split
    · exact h.then_quiet _
    · exact h
  · exact h

theorem sessionClose_tends (st : St) (id : String) (result : Option String) (now : Nat) :
    Tends st (st.sessionClose id result now).1 (st.sessionClose id result now).2.1 := by
  have h := st.reapSession_tends now
  rw [sessionClose]
  dsimp only
  split
  · split
    · exact h.trans (.line ..)
    · exact h
  · exact h

theorem sessionGate_tends (st : St) (action : String) (session : Option String) (now : Nat) :
    Tends st (st.sessionGate action session now).1 (st.sessionGate action session now).2.1 := by
  have h := st.reapSession_tends now
  rw [sessionGate]
  dsimp only
  split
  · split
    · exact h.then_quiet _
    · split
      · exact h
      · exact h
  · split
    · exact h
    · exact h

/-! ### The queue -/

theorem legacy_queues (st : St) (legacy : List LegacyReq) (l : List LegacyReq) (result : String)
    (reason : Option String) :
    Queues st { st with legacy } (l.map fun r => .append (.legacy r result reason)) := by
  refine ⟨legacy, l.map fun r => .legacy r result reason, rfl, by simp, ?_⟩
  intro line hmem
  obtain ⟨r, -, rfl⟩ := List.mem_map.mp hmem
  exact ⟨r, result, reason, rfl⟩

theorem dropLegacy_queues (st : St) (why : String) :
    Queues st (st.dropLegacy why).1 (st.dropLegacy why).2 := legacy_queues ..

theorem enqueueLegacy_queues (st : St) (item action : String) (params : Value) (now : Nat) :
    Queues st (st.enqueueLegacy item action params now).1
      (st.enqueueLegacy item action params now).2 := by
  rw [enqueueLegacy]
  refine ⟨_, (st.legacy.filter fun q => decide (q.item = item)).map (.legacy · "replaced" none) ++
    [.legacy { item, action, params, atMs := now } "queued" none], rfl, by simp, ?_⟩
  intro line hmem
  rcases List.mem_append.mp hmem with hmem | hmem
  · obtain ⟨r, -, rfl⟩ := List.mem_map.mp hmem
    exact ⟨r, _, _, rfl⟩
  · rw [List.mem_singleton.mp hmem]
    exact ⟨_, _, _, rfl⟩

theorem popLegacy_queues (cfg : Config) (st : St) (now : Nat) :
    Queues st (st.popLegacy cfg now).1 (st.popLegacy cfg now).2.1 := by
  rw [popLegacy]
  split
  · exact ⟨st.legacy, [], rfl, rfl, by simp⟩
  · dsimp only
    split
    · exact legacy_queues ..
    · exact legacy_queues ..

theorem putBackLegacy_queues (st : St) (r : LegacyReq) : Queues st (st.putBackLegacy r) [] := by
  rw [putBackLegacy]
  split
  · exact ⟨st.legacy, [], rfl, rfl, by simp⟩
  · exact ⟨r :: st.legacy, [], rfl, rfl, by simp⟩

theorem preempt_does (st : St) : Does st st.preempt.1 st.preempt.2 :=
  .queues (st.cancelActive_deed .preempted) (dropLegacy_queues ..)

/-- A write that is no safety write leaves the queue alone. -/
theorem legacyGate_deed (st : St) (item : Option String) :
    Deed st (st.legacyGate item false).1 (st.legacyGate item false).2.1 := by
  unfold legacyGate
  rw [if_neg Bool.false_ne_true]
  split
  · exact .idle
  · split
    · exact .idle
    · split
      · exact .idle
      · split
        · exact st.cancelActive_deed .superseded
        · exact .idle

theorem legacyGate_does (st : St) (item : Option String) (safety : Bool) :
    Does st (st.legacyGate item safety).1 (st.legacyGate item safety).2.1 := by
  cases safety with
  | true => exact st.preempt_does
  | false => exact .deed (st.legacyGate_deed item)

end St

/-! ### Turns -/

/-- **What a turn of a task does.** -/
theorem Task.turn_does (cfg : Config) (bootId : String) (uid : Nat) (st : St)
    (draining : Bool) (i : Input) (T : Task) :
    Does st (T.turn cfg bootId uid st draining i).st (T.turn cfg bootId uid st draining i).fx := by
  cases T with
  | submit req opId =>
    simp only [Task.turn]
    split
    · exact .idle st
    · exact .idle st
  | submitRead req opId =>
    simp only [Task.turn]
    split
    · exact .idle st
    · split
      · exact .idle st
      · exact .deed (St.accept_deed ..)
  | submitWait req opId u =>
    have howner : ∀ reached : Bool, Does st st (if reached then
        [Effect.setOwner req.spec.item req.source req.undo req.target opId] else []) := by
      intro reached
      cases reached with
      | true => exact .owner ..
      | false => exact .idle st
    exact howner _
  | submitBack req opId u result => exact .deed (St.wrote_deed ..)
  | drive opId =>
    simp only [Task.turn]
    split
    · exact .idle st
    · split
      · exact .idle st
      · exact .idle st
  | rollback opId u value generation spec =>
    simp only [Task.turn]
    split
    · exact .idle st
    · exact .deed .persist
  | rollbackRead opId u value generation spec =>
    have h := Does.deed (@St.rollbackCheck_deed opId st i.reading)
    simp only [Task.turn]
    split
    · exact h
    · exact h
    · exact h
  | rollbackWait opId u => exact .deed (St.rollbackSent_deed ..)
  | rollbackSkip opId u => exact .deed (St.rollbackSent_deed ..)
  | read opId generation spec =>
    simp only [Task.turn]
    split
    · split
      · exact .idle st
      · split
        · exact .idle st
        · exact .idle st
    · exact .idle st
  | feed opId generation reading =>
    simp only [Task.turn]
    split
    · exact .idle st
    · exact .deed (St.feed_deed ..)
  | drain =>
    have h := (st.popLegacy_queues cfg i.now).does
    simp only [Task.turn]
    split
    · exact h
    · exact h
  | drainRun r =>
    simp only [Task.turn]
    split
    · exact .idle st
    · exact .idle st
  | drainBack r => exact (st.putBackLegacy_queues r).does
  | timer id => exact .tends (st.reapSession_tends i.now)
  | submitWrite | rollbackWrite | sleep | probe | kick | drainLower | drainMore | drainRetry =>
    exact .idle st

/-- **What a call does.** -/
theorem Call.turn_does (st : St) (draining : Bool) (c : Call) :
    Does st (c.turn st draining).st (c.turn st draining).fx := by
  cases c with
  | revert opId => exact .deed st.revert_deed
  | keep opId => exact .deed st.keep_deed
  | preempt => exact st.preempt_does
  | otherWrite source => exact .deed (st.otherWrite_deed source)
  | interrupt source what => exact .deed (st.interrupt_deed source what)
  | legacyGate item safety => exact st.legacyGate_does item safety
  | enqueueLegacy item action params now =>
    exact (st.enqueueLegacy_queues item action params now).does
  | clearLegacy why => exact (st.dropLegacy_queues why).does
  | sessionOpen source id now => exact .tends (st.sessionOpen_tends source id now)
  | sessionRenew id now => exact .tends (st.sessionRenew_tends id now)
  | sessionClose id result now => exact .tends (st.sessionClose_tends id result now)
  | sessionGate action session now => exact .tends (st.sessionGate_tends action session now)
  | ack opId source => exact .deed (st.ack_deed source)
  | noticeAck source => exact .deed (st.noticeAck_deed source)
  | publishNow => exact .deed .publish

end Datad
