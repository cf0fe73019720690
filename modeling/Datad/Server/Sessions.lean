/-
  Datad/Server/Sessions.lean
  ==========================
  **Writes during a network search.**

  While a session is open the writes that would disturb it are refused, or wait in the
  legacy queue.  Who refuses depends on the request: `session_gate` sees the ones with a
  source, `legacy_gate` the described ones without.  A sourceless write that is not
  described is seen by neither.  All others that were received under a session reach
  the device only after it has ended.
-/
import Datad.Server.Cargo
import Datad.Ops.Wakeup

namespace Datad

open Transition

/-! ### A session opens only by `session_open` -/

theorem Task.turn_session (cfg : Config) (bootId : String) (uid : Nat) (st : St) (draining : Bool)
    (i : Input) (T : Task) (h : (T.turn cfg bootId uid st draining i).st.session.isSome = true) :
    st.session.isSome = true := by
  cases T with
  | submit req opId =>
      simp only [turn] at h
      split at h <;> exact h
  | submitRead req opId =>
      simp only [turn] at h
      split at h
      · exact h
      · rename_i c hc
        split at h
        · exact h
        · exact (St.accept_deed cfg st req uid c bootId i.now).session ▸ h
  | submitBack req opId uid' result => exact (St.wrote_deed st result i.now).session ▸ h
  | drive opId =>
      simp only [turn] at h
      split at h
      · exact h
      · split at h <;> exact h
  | rollback opId uid' value generation spec =>
      simp only [turn] at h
      split at h
      · exact h
      · exact (st.persist_frame true).2.1 ▸ h
  | rollbackRead opId uid' value generation spec =>
      rw [← (St.rollbackCheck_deed st i.reading).session]
      simp only [turn] at h
      split at h <;> exact h
  | rollbackWait opId uid' => exact (St.rollbackSent_deed st i.now).session ▸ h
  | rollbackSkip opId uid' => exact (St.rollbackSent_deed st i.now).session ▸ h
  | read opId generation spec =>
      simp only [turn] at h
      split at h
      · split at h
        · exact h
        · split at h <;> exact h
      · exact h
  | feed opId generation reading =>
      simp only [turn] at h
      split at h
      · exact h
      · exact (St.feed_deed st generation reading i.now).session ▸ h
  | drain =>
      obtain ⟨hst, -⟩ := Task.drain_turn cfg bootId uid st draining i
      rw [hst] at h
      exact (st.popLegacy_queues cfg i.now).frame.2 ▸ h
  | drainRun r =>
      simp only [turn] at h
      split at h <;> exact h
  | drainBack r => exact (st.putBackLegacy_queues r).frame.2 ▸ h
  | timer id =>
      have h : (st.reapSession i.now).1.session.isSome = true := h
      rcases (st.reapSession_frame i.now).2.2.2 with hs | hs
      · exact hs ▸ h
      · rw [hs] at h
        cases h
  | _ => exact h

theorem Call.turn_session {st : St} {draining : Bool} {c : Call} (hc : c.opens st = false)
    (h : (c.turn st draining).st.session.isSome = true) : st.session.isSome = true := by
  obtain ⟨s', hs'⟩ := Option.isSome_iff_exists.mp h
  rcases (c.turn_stirs st draining).timed s' hs' with ⟨s, hs, -⟩ | ht
  · rw [hs]
    rfl
  · -- only a session that was opened gets a timer
    cases c with
    | sessionOpen source id now =>
        have ht : (if (st.sessionOpen source id now).2.2.toBool then some (Task.timer id)
          else none) = some (.timer s'.id) := ht
        have hc : (st.sessionOpen source id now).2.2.toBool = false := hc
        rw [hc] at ht
        cases ht
    | keep opId =>
        simp only [turn] at ht
        split at ht <;> cases ht
    | otherWrite source =>
        simp only [turn] at ht
        split at ht <;> cases ht
    | interrupt source what =>
        simp only [turn] at ht
        split at ht <;> cases ht
    | sessionClose id result now =>
        simp only [turn] at ht
        split at ht <;> cases ht
    | _ => cases ht

namespace St

/-- What sessions block is no step of a session. -/
theorem blocks_no_step {action : String} (hb : SESSION_BLOCKS.contains action = true) :
    SESSION_STEPS.contains action = false ∧ SESSION_OPTIONAL.contains action = false := by
  have hall : ∀ b ∈ SESSION_BLOCKS, SESSION_STEPS.contains b = false ∧
      SESSION_OPTIONAL.contains b = false := by decide
  exact hall action (List.contains_iff_mem.mp hb)

/-- A write that sessions block passes `session_gate` only while none is open. -/
theorem sessionGate_ok {st : St} {action : String} {session : Option String} {now : Nat}
    (hb : SESSION_BLOCKS.contains action = true)
    (h : (st.sessionGate action session now).2.2 = .ok ()) :
    (st.sessionGate action session now).1.session = none := by
  obtain ⟨hstep, hopt⟩ := blocks_no_step hb
  rw [sessionGate] at h ⊢
  simp only [hstep, hopt, hb, Bool.or_self, Bool.false_eq_true, and_false, if_false,
    Bool.or_true, if_true] at h ⊢
  rcases hs : (st.reapSession now).1.session with _ | s
  · exact hs
  · rw [hs] at h
    cases h

/-- A described request passes `legacy_gate` only while no session is open. -/
theorem legacyGate_session {st : St} {item : String}
    (h : (st.legacyGate (some item) false).2.2 = .pass) :
    (st.legacyGate (some item) false).1.session = none := by
  simp only [legacyGate, Bool.false_eq_true, if_false] at h ⊢
  split at h
  · cases h
  · rename_i hs
    rw [if_neg hs]
    have hs : st.session = none := by simpa using hs
    rcases ha : st.active with _ | t
    · exact hs
    · rw [ha] at h
      dsimp only at h ⊢
      split at h
      · rename_i hc
        rw [if_pos hc]
        exact (st.cancelActive_deed .superseded).session.trans hs
      · cases h

end St

/-- The described actions are among those that sessions block. -/
theorem Spec.find_blocked {action : String} {spec : Spec} (h : Spec.find action = some spec) :
    SESSION_BLOCKS.contains action = true ∧ spec.action = action := by
  have hmem := List.mem_of_find?_eq_some h
  have haction : spec.action = action := by
    have := List.find?_some h
    exact of_decide_eq_true this
  rw [← haction]
  have hall : ∀ s ∈ SPECS, SESSION_BLOCKS.contains s.action = true := by decide
  exact ⟨hall spec hmem, rfl⟩

namespace Server

/-! ### Sessions that are over -/

/-- The session with this number has ended. -/
structure Over (s : Server) (e : Nat) : Prop where
  known : e ≤ s.sessions
  closed : s.current ≠ some e

section Over

variable {cfg : Config} {s s' : Server} {e : Nat}

theorem current_eq_some : s.current = some e ↔
    s.world.st.session.isSome = true ∧ s.sessions = e := by
  rw [current]
  split
  · rename_i h
    simp [h]
  · rename_i h
    simp [h]

theorem Over.of_none (he : e ≤ s.sessions) (h : s.world.st.session = none) : s.Over e := by
  refine ⟨he, fun hc => ?_⟩
  have := (current_eq_some.mp hc).1
  rw [h] at this
  cases this

theorem Over.of_kept (h : s.Over e) (hn : s'.sessions = s.sessions)
    (hs : s'.world.st.session.isSome = true → s.world.st.session.isSome = true) : s'.Over e := by
  refine ⟨by rw [hn]; exact h.known, fun hc => h.closed ?_⟩
  obtain ⟨h1, h2⟩ := current_eq_some.mp hc
  exact current_eq_some.mpr ⟨hs h1, hn ▸ h2⟩

/-- What is over stays over, in this process. -/
theorem Over.move (h : s.Over e) {a : Act} (hm : Move cfg s a s') :
    s'.Over e ∨ ∃ w, s' = s.reset w := by
  cases hm.moved with
  | still hst hn => exact .inl (h.of_kept hn (by rw [hst]; exact id))
  | called c hst hn =>
      left
      rcases ho : c.opens s.world.st with _ | _
      · rw [ho] at hn
        refine h.of_kept hn fun hs => ?_
        rw [hst] at hs
        exact Call.turn_session ho hs
      · -- a new session has a new number
        rw [ho, if_pos rfl] at hn
        have hk := h.known
        refine ⟨by omega, fun hcur => ?_⟩
        have := (current_eq_some.mp hcur).2
        omega
  | turned hT hst hn ha =>
      refine .inl (h.of_kept hn fun hs => ?_)
      rw [hst] at hs
      exact Task.turn_session _ _ _ _ _ _ _ hs
  | reset w hs => exact .inr ⟨w, hs⟩

theorem Move.sessions {a : Act} (hm : Move cfg s a s') : s.sessions ≤ s'.sessions := by
  cases hm.moved with
  | still hst hn => exact Nat.le_of_eq hn.symm
  | called c hst hn =>
      rw [hn]
      split <;> omega
  | turned hT hst hn ha => exact Nat.le_of_eq hn.symm
  | reset w hs =>
      rw [hs]
      exact Nat.le_refl _

end Over

/-! ### The invariant -/

/-- A write that sessions block, and that would reach the device. -/
def blocked (action : String) (params : Value) : Prop :=
  SESSION_BLOCKS.contains action = true ∧ isSafety action params = false ∧
    ∀ spec, Spec.find action = some spec → (spec.target params).toBool = true

/-- The request is past the session rules, as one with a source. -/
def Pending.admitted (p : Pending) : Prop :=
  p.body.source.isSome = true ∧ p.stage = .admission ∨ ∃ req, p.stage = .submit req

/-- Every write that was received under a session waits for its end at a gate, or is past
    it and the session is over. -/
structure Guarded (s : Server) : Prop where
  aligned : s.Aligned
  known : ∀ {id p e}, s.reqs id = some p → p.under = some e → e ≤ s.sessions
  tickets : Labelled (fun t => ∀ e, t.under = some e → e ≤ s.sessions) s
  named : ∀ {id p}, s.reqs id = some p → p.body.source = none → p.under.isSome = true →
    SESSION_BLOCKS.contains p.action = true → isSafety p.action p.body.params = false →
    (Spec.find p.action).isSome = true
  described : ∀ {id p req}, s.reqs id = some p → p.stage = .submit req →
    Spec.find p.action = some req.spec
  admitted : ∀ {id p e}, s.reqs id = some p → Pending.admitted p →
    SESSION_BLOCKS.contains p.action = true → isSafety p.action p.body.params = false →
    p.under = some e → s.Over e
  carried : ∀ {c e}, s.Carried c → blocked c.action c.body.params → c.under = some e → s.Over e
  submits : ∀ {key T e}, s.world.tasks key = some T → T.submitting = true →
    s.unders key = some e → s.Over e

theorem Guarded.of_fresh {s : Server} (hal : s.Aligned) (hr : s.reqs = fun _ => none)
    (hl : s.line = []) (hj : s.jobs = []) (hrun : s.running = none)
    (hruns : s.runs = fun _ => .idle) (hu : s.unders = fun _ => none) : s.Guarded := by
  have hno : ∀ {id p}, s.reqs id ≠ some p := by
    intro id p hp
    rw [hr] at hp
    cases hp
  refine ⟨hal, fun hp => absurd hp hno, ⟨?_, ?_⟩, fun hp => absurd hp hno, fun hp => absurd hp hno,
    fun hp => absurd hp hno, ?_, ?_⟩
  · rw [hl]
    nofun
  · rw [hruns]
    nofun
  · intro c e hc
    cases hc with
    | request hp => exact absurd hp hno
    | queued hj' =>
        rw [hj] at hj'
        cases hj'
    | running hr' =>
        rw [hrun] at hr'
        cases hr'
    | held ht hr' =>
        rw [hruns] at hr'
        cases hr'
  · intro key T e _ _ he
    rw [hu] at he
    cases he

/-- While a session is open, a write that it blocks, is no safety write and is not described
    comes with a source. -/
def Named (s : Server) (a : Act) : Prop :=
  ∀ id action body, a = .receive id action body → s.current.isSome = true →
    SESSION_BLOCKS.contains action = true → isSafety action body.params = false →
    (Spec.find action).isSome = true ∨ body.source.isSome = true

/-! ### Steps -/

section Step

variable {cfg : Config} {s s' : Server} {a : Act}

theorem Called.pending {st : St} {p p' : Pending} {c : Call} (h : Called st p c (some p')) :
    ∃ stage, p' = { p with stage } := by
  cases h with
  | gate => exact ⟨_, rfl⟩
  | preempt => exact ⟨_, rfl⟩
  | pass => exact ⟨_, rfl⟩
  | queue => exact ⟨_, rfl⟩
  | clear => exact ⟨_, rfl⟩

/-- A request keeps its label; a new one gets the session that is open. -/
theorem Stands.under {id : Nat} {p : Pending} (h : Stands cfg s s' id a p) :
    (∃ p₀, s.reqs id = some p₀ ∧ p₀.action = p.action ∧ p₀.body = p.body ∧
        p₀.under = p.under) ∨
      ∃ action body, a = .receive id action body ∧ p.action = action ∧ p.body = body ∧
        p.under = s.current := by
  cases h with
  | as hp => exact .inl ⟨_, hp, rfl, rfl, rfl⟩
  | received => exact .inr ⟨_, _, rfl, rfl, rfl, rfl⟩
  | gone hp hg => exact .inl ⟨_, hp, rfl, rfl, rfl⟩
  | called hp hq hst =>
      obtain ⟨stage, rfl⟩ := Called.pending hq
      exact .inl ⟨_, hp, rfl, rfl, rfl⟩

/-- The task of a `submit` was there before, or it is started for a request. -/
theorem Move.submitting (hm : Move cfg s a s') {key : Nat} {T' : Task}
    (hT' : s'.world.tasks key = some T') (hs : T'.submitting = true) :
    (∃ T, s.world.tasks key = some T ∧ T.submitting = true ∧ s'.unders key = s.unders key) ∨
      (∃ id p req, s.reqs id = some p ∧ p.stage = .submit req ∧ s'.unders key = p.under) ∨
      ∃ w, s' = s.reset w := by
  have hcall : ∀ {k c under s₁}, s.call cfg k c under = some s₁ →
      s₁.world.tasks key = some T' → s.world.tasks key = some T' ∧ s₁.unders = s.unders := by
    intro k c under s₁ hc ht
    obtain ⟨-, -, -, h4, -, -, -, -, h9, -⟩ := call_frame hc
    rw [h9] at ht
    rcases setAt_cases (f := s.world.tasks) ht with ⟨-, ht⟩ | ⟨-, ht⟩
    · rcases Call.turn_task ht with rfl | ⟨id, rfl⟩ <;> cases hs
    · exact ⟨ht, h4⟩
  have hturn : ∀ {k i s₁}, s.turn cfg k i = some s₁ → s₁.world.tasks key = some T' →
      ∃ T, s.world.tasks key = some T ∧ T.submitting = true ∧ s₁.unders = s.unders := by
    intro k i s₁ hs₁ ht
    obtain ⟨T, hT, hw⟩ := turn_take hs₁
    rw [hw] at ht
    rcases setAt_cases (f := s.world.tasks) ht with ⟨rfl, ht'⟩ | ⟨-, ht'⟩
    · exact ⟨T, hT, (Task.turn_follows ht').1 hs, (turn_frame hs₁).2.1⟩
    · exact ⟨T', ht', hs, (turn_frame hs₁).2.1⟩
  cases hm with
  | called hp hc hq =>
      obtain ⟨ht, hu⟩ := hcall hc hT'
      exact .inl ⟨T', ht, hs, congrFun hu key⟩
  | @submit id k now fresh p req w hp hst hw =>
      cases World.next_step hw with
      | submit hu hk =>
          rcases setAt_cases (f := s.world.tasks) hT' with ⟨rfl, -⟩ | ⟨hne, ht⟩
          · exact .inr (.inl ⟨id, p, req, hp, hst, if_pos rfl⟩)
          · exact .inl ⟨T', ht, hs, if_neg hne⟩
  | checkCall refused hr hc =>
      have hT' : _ = some T' := hT'
      obtain ⟨ht, hu⟩ := hcall hc (by cases refused <;> exact hT')
      refine .inl ⟨T', ht, hs, ?_⟩
      cases refused <;> exact congrFun hu key
  | handBusy ht hr hs₁ =>
      obtain ⟨T, hT, hsub, hu⟩ := hturn hs₁ hT'
      exact .inl ⟨T, hT, hsub, congrFun hu key⟩
  | ran ht hr hs₁ =>
      obtain ⟨T, hT, hsub, hu⟩ := hturn hs₁ hT'
      exact .inl ⟨T, hT, hsub, congrFun hu key⟩
  | turn ht hs₁ =>
      obtain ⟨T, hT, hsub, hu⟩ := hturn hs₁ hT'
      exact .inl ⟨T, hT, hsub, congrFun hu key⟩
  | drop hw =>
      cases World.next_step hw with
      | drop hT hd =>
          rcases setAt_cases (f := s.world.tasks) hT' with ⟨-, ht⟩ | ⟨-, ht⟩
          · cases ht
          · exact .inl ⟨T', ht, hs, rfl⟩
  | publish hc =>
      obtain ⟨ht, hu⟩ := hcall hc hT'
      exact .inl ⟨T', ht, hs, congrFun hu key⟩
  | takeover hw =>
      cases World.next_step hw with
      | takeover => exact .inl ⟨T', hT', hs, rfl⟩
  | reset hw hl ht => exact .inr (.inr ⟨_, rfl⟩)
  | _ => exact .inl ⟨T', hT', hs, rfl⟩

/-- The described actions include no safety write. -/
theorem isSafety_of_find {action : String} {params : Value} {spec : Spec}
    (h : Spec.find action = some spec) : isSafety action params = false := by
  rw [Bool.eq_false_iff]
  intro hs
  have ha : action = "cellular.set" := by
    simp only [isSafety, Bool.and_eq_true, decide_eq_true_eq] at hs
    exact hs.1
  rw [ha] at h
  cases h

/-- A request with a source that gets past the session rules has no session over it. -/
theorem Guarded.admits (h : s.Guarded) (hm : Move cfg s a s') {id e : Nat} {p : Pending}
    (hp : s'.reqs id = some p) (hadm : Pending.admitted p)
    (hb : SESSION_BLOCKS.contains p.action = true) (hsafe : isSafety p.action p.body.params = false)
    (he : p.under = some e) (hkeep : s.Over e → s'.Over e) : s'.Over e := by
  cases hm.stands hp with
  | as hp₀ => exact hkeep (h.admitted hp₀ hadm hb hsafe he)
  | received =>
      rcases hadm with ⟨-, hst⟩ | ⟨req, hst⟩ <;> cases hst
  | gone hp₀ hg =>
      rcases hadm with ⟨hsrc, hst⟩ | ⟨req, hst⟩
      · cases hst
        cases hg with
        | admission hroute hs =>
            rcases hs with hs | hs
            · rw [hs] at hsrc
              cases hsrc
            · rw [hs] at hsafe
              cases hsafe
      · cases hst
        cases hg
  | called hp₀ hq hst =>
      have hknown : e ≤ s'.sessions := by
        obtain ⟨stage, rfl⟩ := Called.pending hq
        exact Nat.le_trans (h.known hp₀ he) hm.sessions
      cases hq with
      | gate hr hs =>
          refine .of_none hknown ?_
          rw [hst]
          exact St.sessionGate_ok hb hr
      | preempt => rcases hadm with ⟨-, hst⟩ | ⟨req, hst⟩ <;> cases hst
      | pass => rcases hadm with ⟨-, hst⟩ | ⟨req, hst⟩ <;> cases hst
      | queue => rcases hadm with ⟨-, hst⟩ | ⟨req, hst⟩ <;> cases hst
      | clear => rcases hadm with ⟨-, hst⟩ | ⟨req, hst⟩ <;> cases hst

/-- A write that comes on board has no session over it. -/
theorem Guarded.boards (h : s.Guarded) (hm : Move cfg s a s') {c : Cargo} {e : Nat}
    (hb : Boards cfg s a s' c) (hc : blocked c.action c.body.params) (he : c.under = some e)
    (hkeep : s.Over e → s'.Over e) : s'.Over e := by
  obtain ⟨hblocks, hsafe, htarget⟩ := hc
  cases hb with
  | @passed id p hp hs hg hst =>
      rcases hspec : Spec.find p.action with _ | spec
      · -- not described: such a request is not received under a session without a source
        have hnamed := h.named hp hs (by rw [show p.under = some e from he]; rfl) hblocks hsafe
        rw [hspec] at hnamed
        cases hnamed
      · refine .of_none (Nat.le_trans (h.known hp he) hm.sessions) ?_
        have hitem : legacyItem p.action p.body = some spec.item :=
          legacyItem_eq_some (by rw [hs]; rfl) hspec (htarget spec hspec) rfl
        have hsafe : isSafety p.action p.body.params = false := hsafe
        rw [hitem, hsafe] at hg hst
        rw [hst]
        exact St.legacyGate_session hg
  | sourced hp hst hs => exact hkeep (h.admitted hp (.inl ⟨hs, hst⟩) hblocks hsafe he)
  | popped hp ha hs =>
      have hle := h.tickets.1 _ ((popLine_mem hp).1 _ rfl) e he
      exact .of_none (Nat.le_trans hle hm.sessions) hs
  | flushed hf hr hc => exact hkeep (h.carried hc ⟨hblocks, hsafe, htarget⟩ he)

theorem Guarded.step (h : s.Guarded) (hok : s.Named a) (hs : next cfg s a = some s') :
    s'.Guarded := by
  have hm := next_move hs
  have hal := h.aligned.move hm
  by_cases hreset : ∃ w, s' = s.reset w
  · obtain ⟨w, rfl⟩ := hreset
    exact .of_fresh hal rfl rfl rfl rfl rfl rfl
  have hkeep : ∀ {e}, s.Over e → s'.Over e := fun ho => (ho.move hm).resolve_right hreset
  have hmono := hm.sessions
  refine ⟨hal, ?_, ?_, ?_, ?_, ?_, ?_, ?_⟩
  · intro id p e hp he
    rcases (hm.stands hp).under with ⟨p₀, hp₀, -, -, hu⟩ | ⟨action, body, -, -, -, hu⟩
    · exact Nat.le_trans (h.known hp₀ (hu.trans he)) hmono
    · rw [hu] at he
      exact Nat.le_trans (Nat.le_of_eq (current_eq_some.mp he).2.symm) hmono
  · have hle : Labelled (fun t => ∀ e, t.under = some e → e ≤ s'.sessions) s :=
      ⟨fun t ht e he => Nat.le_trans (h.tickets.1 t ht e he) hmono,
        fun k t hk e he => Nat.le_trans (h.tickets.2 k t hk e he) hmono⟩
    refine hle.move hm (fun id p r hp e he => ?_) fun _ k t hk e he => hle.2 k t hk e he
    exact Nat.le_trans (h.known hp he) hmono
  · intro id p hp hsrc hu hb hsafe
    rcases (hm.stands hp).under with ⟨p₀, hp₀, ha, hbody, hu₀⟩ | ⟨action, body, rfl, ha, hbody, hu₀⟩
    · have := h.named hp₀ (hbody ▸ hsrc) (hu₀ ▸ hu) (ha ▸ hb) (ha ▸ hbody ▸ hsafe)
      exact ha ▸ this
    · rcases hok _ _ _ rfl (hu₀ ▸ hu) (ha ▸ hb) (ha ▸ hbody ▸ hsafe) with hd | hsome
      · exact ha ▸ hd
      · rw [← hbody, hsrc] at hsome
        cases hsome
  · intro id p req hp hst
    cases hm.stands hp with
    | as hp₀ => exact h.described hp₀ hst
    | received => cases hst
    | gone hp₀ hg =>
        cases hst
        cases hg
    | called hp₀ hq hst' =>
        cases hq with
        | gate hr hs =>
            rcases hs with rfl | ⟨req', rfl, hreq⟩
            · cases hst
            · cases hst
              exact hreq
        | preempt => cases hst
        | pass => cases hst
        | queue => cases hst
        | clear => cases hst
  · intro id p e hp hadm hb hsafe he
    exact h.admits hm hp hadm hb hsafe he hkeep
  · intro c e hc hb he
    rcases hc.move h.aligned hm with hc | hboards
    · exact hkeep (h.carried hc hb he)
    · exact h.boards hm hboards hb he hkeep
  · intro key T e hT hsub he
    rcases hm.submitting hT hsub with ⟨T₀, hT₀, hsub₀, hu⟩ | ⟨id, p, req, hp, hst, hu⟩ | hr
    · exact hkeep (h.submits hT₀ hsub₀ (hu ▸ he))
    · have hreq := h.described hp hst
      exact hkeep (h.admitted hp (.inr ⟨req, hst⟩) (Spec.find_blocked hreq).1
        (isSafety_of_find hreq) (hu ▸ he))
    · exact absurd hr hreset

end Step

/-! ### What a session keeps out -/

/-- Where a request is that a session holds back: on its way to a gate that refuses it
    (409) or sends it to the queue, or on its way to the queue.  The session rules refuse
    unless the session's time is up. -/
def Pending.heldBack (st : St) (p : Pending) : Prop :=
  match p.stage with
  | .route => True
  | .gate _ => ∀ now,
      (∃ x, (st.sessionGate p.action p.body.sessionOf now).2.2 = .error (.busy (.session x))) ∨
        (st.sessionGate p.action p.body.sessionOf now).1.session = none
  | .admission =>
      (st.legacyGate (legacyItem p.action p.body) (isSafety p.action p.body.params)).2.2 = .queue
  | .enqueue _ => True
  | _ => False

theorem sessionGate_refuses {st : St} {action : String} {session : Option String} {now : Nat}
    (hb : SESSION_BLOCKS.contains action = true) :
    (∃ x, (st.sessionGate action session now).2.2 = .error (.busy (.session x))) ∨
      (st.sessionGate action session now).1.session = none := by
  obtain ⟨hstep, hopt⟩ := St.blocks_no_step hb
  rw [St.sessionGate]
  simp only [hstep, hopt, hb, Bool.or_self, Bool.false_eq_true, and_false, if_false,
    Bool.or_true, if_true]
  rcases hs : (st.reapSession now).1.session with _ | x
  · exact .inr hs
  · exact .inl ⟨x, rfl⟩

theorem legacyGate_queues {st : St} {item : String} (h : st.session.isSome = true) :
    (st.legacyGate (some item) false).2.2 = .queue := by
  simp only [St.legacyGate, Bool.false_eq_true, if_false, h, if_true]

/-- A request that was received under the open session has not got past the gates. -/
theorem Guarded.heldBack {s : Server} (h : s.Guarded) {id e : Nat} {p : Pending}
    (hp : s.reqs id = some p) (hb : blocked p.action p.body.params) (he : p.under = some e)
    (hcur : s.current = some e) : Pending.heldBack s.world.st p := by
  have hopen : ¬ s.Over e := fun ho => ho.closed hcur
  obtain ⟨hblocks, hsafe, htarget⟩ := hb
  rw [Pending.heldBack]
  rcases hst : p.stage with _ | source | req | _ | item | _ | _ | _
  · trivial
  · exact fun now => sessionGate_refuses hblocks
  · exact hopen (h.admitted hp (.inr ⟨req, hst⟩) hblocks hsafe he)
  · dsimp only
    rcases hs : p.body.source with _ | v
    · obtain ⟨spec, hspec⟩ := Option.isSome_iff_exists.mp
        (h.named hp hs (by rw [he]; rfl) hblocks hsafe)
      rw [hsafe, legacyItem_eq_some (by rw [hs]; rfl) hspec (htarget spec hspec) rfl]
      exact legacyGate_queues (current_eq_some.mp hcur).1
    · exact absurd (h.admitted hp (.inl ⟨by rw [hs]; rfl, hst⟩) hblocks hsafe he) hopen
  · trivial
  · exact hopen (h.carried (.request hp (.inl hst)) ⟨hblocks, hsafe, htarget⟩ he)
  · exact hopen (h.carried (.request hp (.inr (.inl hst))) ⟨hblocks, hsafe, htarget⟩ he)
  · exact hopen (h.carried (.request hp (.inr (.inr hst))) ⟨hblocks, hsafe, htarget⟩ he)

/-- A write that was received under a session and is made now finds the session over. -/
theorem Guarded.deed {s : Server} (h : s.Guarded) {a : Act} {d : Deed} {e : Nat}
    (hd : s.deed a = some d) (hb : SESSION_BLOCKS.contains d.action = true)
    (hsafe : isSafety d.action d.params = false) (he : d.under = some e) :
    s.current ≠ some e := by
  cases a with
  | execute =>
      obtain ⟨c, hc, haction, hparams, -, hunder, -, htarget⟩ := carried_of_execute hd
      rw [← haction] at hb
      rw [← haction, ← hparams] at hsafe
      exact (h.carried hc ⟨hb, hsafe, htarget⟩ (hunder.trans he)).closed
  | world b =>
      cases b with
      | task key i =>
          simp only [Server.deed] at hd
          split at hd
          · rename_i hT
            cases hd
            exact (h.submits hT rfl he).closed
          · cases hd
      | _ => cases hd
  | _ => cases hd

/-- **A session keeps other writes out.**  In every run in which the writes that a session
    blocks, if they are not described, name their source while one is open: no such write
    that was received under a session is made on the device while that session is open.
    Until it ends, the request is refused or queued. -/
theorem session_excludes {cfg : Config} {s : Server} (h : Exec (next cfg) Named {} s) :
    (∀ a d e, s.deed a = some d → SESSION_BLOCKS.contains d.action = true →
      isSafety d.action d.params = false → d.under = some e → s.current ≠ some e) ∧
    ∀ id p e, s.reqs id = some p → blocked p.action p.body.params → p.under = some e →
      s.current = some e → Pending.heldBack s.world.st p := by
  have hinv := h.invariant Guarded (fun hinv hok hstep => hinv.step hok hstep)
    (.of_fresh Aligned.empty rfl rfl rfl rfl rfl rfl)
  refine ⟨fun a d e hd hb hsafe he => hinv.deed hd hb hsafe he, ?_⟩
  intro id p e hp hb he hcur
  exact hinv.heldBack hp hb he hcur

/-- A session is open; an old client locks the LTE bands. -/
def bandRun : List Act :=
  [.world (.start 0 "boot" 5),
    .receive 0 "netselect.session.open" { source := some (.str "web") }, .handle 0 1 "s" 10,
    .receive 1 "band.set_lte" { params := .obj [("bands", .str "1,3")] },
    .handle 1 2 "" 20, .handle 1 2 "" 20, .handle 1 2 "" 20, .handle 1 2 "" 20, .pop, .check 3]

/-- The bands are locked under the session. -/
theorem band_locked_under_session :
    ∃ s d, Exec (next World.sampleConfig) (fun _ _ => True) {} s ∧ s.deed .execute = some d ∧
      SESSION_BLOCKS.contains d.action = true ∧ isSafety d.action d.params = false ∧
      d.under = some 1 ∧ s.current = some 1 := by
  have hrun : (run (next World.sampleConfig) (fun _ _ => true) {} bandRun).any (fun s =>
      ((s.deed .execute).any fun d => SESSION_BLOCKS.contains d.action &&
        !isSafety d.action d.params && decide (d.under = some 1)) &&
        decide (s.current = some 1)) = true := by
    decide +kernel
  obtain ⟨s, hs, hp⟩ := Exec.exists_of_run (fun _ _ _ => trivial) (.refl _) hrun
  simp only [Bool.and_eq_true, Option.any_eq_true, decide_eq_true_eq, Bool.not_eq_true'] at hp
  obtain ⟨⟨d, hd, ⟨hb, hsafe⟩, hu⟩, hcur⟩ := hp
  exact ⟨s, d, hs, hd, hb, hsafe, hu, hcur⟩

/-- Does the request name its source or a described action, or is no session open? -/
def named (s : Server) : Act → Bool
  | .receive _ action body =>
      s.current.isNone || (Spec.find action).isSome || body.source.isSome
  | _ => true

theorem Named.of_test {s : Server} {a : Act} (h : named s a = true) : s.Named a := by
  rintro id action body rfl hcur - -
  simp only [named, Bool.or_eq_true, Option.isNone_iff_eq_none] at h
  rcases h with (h | h) | h
  · rw [h] at hcur
    cases hcur
  · exact .inl h
  · exact .inr h

/-- An old request for a network mode comes under a session, waits for its end and is
    executed. -/
theorem mode_set_after_session :
    ∃ s d, Exec (next World.sampleConfig) Named {} s ∧ s.deed .execute = some d ∧
      SESSION_BLOCKS.contains d.action = true ∧ isSafety d.action d.params = false ∧
      d.under = some 1 ∧ s.current ≠ some 1 := by
  have hrun : (run (next World.sampleConfig) named {}
      [.world (.start 0 "boot" 5),
        .receive 0 "netselect.session.open" { source := some (.str "web") }, .handle 0 1 "s" 10,
        .receive 1 "network.set_mode" { params := .obj [("mode", .str "Only_LTE")] },
        .handle 1 2 "" 20, .handle 1 2 "" 20, .handle 1 2 "" 20,
        .receive 2 "netselect.session.close"
          { params := .obj [("session", .str "s")], source := some (.str "web") },
        .handle 2 3 "" 30, .world (.task 3 {}), .world (.task 3 { now := 40 }), .hand 3, .pop,
        .check 5]).any (fun s =>
          (s.deed .execute).any fun d => SESSION_BLOCKS.contains d.action &&
            !isSafety d.action d.params && decide (d.under = some 1)) = true := by
    decide +kernel
  obtain ⟨s, hs, hp⟩ := @Exec.exists_of_run _ _ _ Named _ (fun _ _ h => .of_test h) _ _ _ _
    (.refl _) hrun
  simp only [Bool.and_eq_true, Option.any_eq_true, decide_eq_true_eq, Bool.not_eq_true'] at hp
  obtain ⟨d, hd, ⟨hb, hsafe⟩, hu⟩ := hp
  exact ⟨s, d, hs, hd, hb, hsafe, hu, (session_excludes hs).1 _ d 1 hd hb hsafe hu⟩

end Server

end Datad
