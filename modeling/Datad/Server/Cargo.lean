/-
  Datad/Server/Cargo.lean
  =======================
  **The writes on their way to the device.**

  Between the last gate and the device a write is in one of four places: with a request
  that is about to be handed to the executor, in the executor's queue, with the job that
  is being done, or in the hands of a drain task.  `Carried` collects them; a step moves
  a write from one place to the next or brings a new one on board in one of three ways
  (`Boards`).
-/
import Datad.Server.Line

namespace Datad

/-! ### The gate -/

namespace St

theorem preempt_active (st : St) : st.preempt.1.active = none :=
  st.cancelActive_active .preempted

/-- What passes the gate leaves no transaction. -/
theorem legacyGate_pass {st : St} {item : String} {safety : Bool}
    (h : (st.legacyGate (some item) safety).2.2 = .pass) :
    (st.legacyGate (some item) safety).1.active = none := by
  rw [legacyGate] at h ⊢
  cases safety with
  | true => exact st.preempt_active
  | false =>
      simp only [Bool.false_eq_true, if_false] at h ⊢
      split at h
      · cases h
      · rename_i hs
        rw [if_neg hs]
        rcases ha : st.active with _ | t
        · exact ha
        · rw [ha] at h
          dsimp only at h ⊢
          split at h
          · rename_i hc
            rw [if_pos hc]
            exact st.cancelActive_active .superseded
          · cases h

end St

namespace Server

theorem legacyItem_eq_some {action : String} {b : Body} {spec : Spec} {item : String}
    (hs : b.source.isNone = true) (hspec : Spec.find action = some spec)
    (ht : (spec.target b.params).toBool = true) (hi : spec.item = item) :
    legacyItem action b = some item := by
  rw [legacyItem, if_pos hs, hspec]
  dsimp only
  rcases hv : spec.target b.params with e | v
  · rw [hv] at ht
    cases ht
  · exact congrArg some hi

/-! ### On board -/

/-- What a write is, wherever it is. -/
structure Cargo where
  action : String
  body : Body
  under : Option Nat
  flushed : Bool

def Cargo.item (c : Cargo) : Option String := legacyItem c.action c.body

def Pending.cargo (p : Pending) : Cargo :=
  { action := p.action, body := p.body, under := p.under, flushed := false }

def Job.cargo (j : Job) : Cargo :=
  { action := j.action, body := j.body, under := j.under, flushed := j.flushed }

def Ticket.cargo (t : Ticket) : Cargo :=
  { action := t.req.action, body := t.body, under := t.under, flushed := t.flushed }

/-- A request past the last gate. -/
def Pending.past (p : Pending) : Prop :=
  p.stage = .clear ∨ p.stage = .push ∨ p.stage = .pushTask

/-- A write that will reach the device without being looked at again by the engine's gate
    for old requests or by the session rules. -/
inductive Carried (s : Server) : Cargo → Prop where
  | request {id : Nat} {p : Pending} (hp : s.reqs id = some p) (hst : Pending.past p) :
      Carried s (Pending.cargo p)
  | queued {j : Job} (hj : j ∈ s.jobs) : Carried s (Job.cargo j)
  | running {j : Job} {phase : JobPhase} (hr : s.running = some (j, phase))
      (hph : phase ≠ .acted ∨ Spec.find j.action = none) : Carried s (Job.cargo j)
  | held {key : Nat} {r : LegacyReq} {t : Ticket} (ht : s.world.tasks key = some (.drainRun r))
      (hr : s.runs key = .held t) : Carried s (Ticket.cargo t)

/-- How a write comes on board. -/
inductive Boards (cfg : Config) (s : Server) (a : Act) (s' : Server) : Cargo → Prop where
  /-- Past the gate for old requests. -/
  | passed {id : Nat} {p : Pending} (hp : s.reqs id = some p) (hs : p.body.source = none)
      (hg : (s.world.st.legacyGate (legacyItem p.action p.body)
        (isSafety p.action p.body.params)).2.2 = .pass)
      (hst : s'.world.st = (s.world.st.legacyGate (legacyItem p.action p.body)
        (isSafety p.action p.body.params)).1) : Boards cfg s a s' (Pending.cargo p)
  /-- A request with a source that the session rules have let through. -/
  | sourced {id : Nat} {p : Pending} (hp : s.reqs id = some p) (hst : p.stage = .admission)
      (hs : p.body.source.isSome = true) : Boards cfg s a s' (Pending.cargo p)
  | popped {t : Ticket} {line : List Ticket} {now : Nat}
      (hp : popLine cfg s.world.st s.line now = (some t, line))
      (ha : s'.world.st.active = none) (hs : s'.world.st.session = none) :
      Boards cfg s a s' (Ticket.cargo t)
  /-- The queue is flushed over a request the drain task holds. -/
  | flushed {key : Nat} {t : Ticket} (hf : s.flushing a = true) (hr : s.runs key = .held t)
      (hc : s.Carried (Ticket.cargo t)) :
      Boards cfg s a s' (Ticket.cargo { t with flushed := true })

section Carried

variable {cfg : Config} {s s' : Server} {c : Cargo}

/-- A request is answered or takes another stage. -/
theorem Carried.of_setReq {id : Nat} {q : Option Pending} (h : (s.setReq id q).Carried c) :
    s.Carried c ∨ ∃ p, q = some p ∧ Pending.past p ∧ c = Pending.cargo p := by
  cases h with
  | request hp hst =>
      rcases setAt_cases hp with ⟨-, hp⟩ | ⟨-, hp⟩
      · exact .inr ⟨_, hp, hst, rfl⟩
      · exact .inl (.request hp hst)
  | queued hj => exact .inl (.queued hj)
  | running hr hph => exact .inl (.running hr hph)
  | held ht hr => exact .inl (.held ht hr)

theorem Carried.of_call {key : Nat} {call : Call} {under : Option Nat}
    (hc : s.call cfg key call under = some s') (h : s'.Carried c) :
    s.Carried c ∨ call.flushes = true ∧ ∃ key t, s.runs key = .held t ∧
      s.Carried (Ticket.cargo t) ∧ c = Ticket.cargo { t with flushed := true } := by
  obtain ⟨h1, h2, h3, -, -, -, -, h8, h9, -⟩ := call_frame hc
  cases h with
  | request hp hst =>
      rw [h1] at hp
      exact .inl (.request hp hst)
  | queued hj =>
      rw [h2] at hj
      exact .inl (.queued hj)
  | running hr hph =>
      rw [h3] at hr
      exact .inl (.running hr hph)
  | @held k r t ht hr =>
      rw [h9] at ht
      rcases setAt_cases (f := s.world.tasks) ht with ⟨-, ht⟩ | ⟨-, ht⟩
      · exact absurd rfl (Call.turn_hand ht)
      · rw [h8] at hr
        split at hr
        · rename_i hf
          obtain ⟨t₀, ht₀, rfl⟩ := Run.flush_held hr
          exact .inr ⟨hf, k, t₀, ht₀, .held ht ht₀, rfl⟩
        · exact .inl (.held ht hr)

theorem Carried.of_turn (hal : s.Aligned) {key : Nat} {i : Input}
    (hs : s.turn cfg key i = some s') (h : s'.Carried c) (a : Act) :
    s.Carried c ∨ Boards cfg s a s' c := by
  obtain ⟨T, hT, hb⟩ := turn_beside hs
  obtain ⟨_, hT', hw⟩ := turn_take hs
  rw [hT] at hT'
  cases hT'
  cases h with
  | @request id p hp hst =>
      refine .inl (.request (?_ : s.reqs id = some p) hst)
      cases hb <;> exact hp
  | @queued j hj =>
      refine .inl (.queued ?_)
      cases hb <;> exact hj
  | @running j phase hr hph =>
      refine .inl (.running (?_ : s.running = some (j, phase)) hph)
      cases hb <;> exact hr
  | @held k r t ht hr =>
      rw [hw] at ht
      rcases setAt_cases (f := s.world.tasks) ht with ⟨rfl, ht'⟩ | ⟨hk, ht'⟩
      · -- the slot that moved holds a request to be run only if it has just popped it
        rcases (Task.turn_follows ht').2 r rfl with ⟨rfl, -, ha, hses⟩ | ⟨-, hne, -⟩
        · cases hb with
          | popped hp =>
              rcases setAt_cases hr with ⟨-, hr⟩ | ⟨hne, -⟩
              · cases hr
                exact .inr (.popped hp ha hses)
              · exact absurd rfl hne
          | empty hp => exact absurd hr (hal.empty_slot (by rw [hT]; rfl) t)
          | nothing hne => exact absurd rfl hne
        · cases hne
      · refine .inl (.held ht' (?_ : s.runs k = .held t))
        cases hb with
        | popped hp => exact (setAt_cases hr).resolve_left (hk ·.1) |>.2
        | empty hp => exact hr
        | back hrun => exact (setAt_cases hr).resolve_left (hk ·.1) |>.2
        | nothing hd => exact hr

/-- Only the requests differ, or only by what is no longer on its way. -/
theorem Carried.of_less (h : s'.Carried c)
    (hreq : ∀ id p, s'.reqs id = some p → Pending.past p → s.Carried (Pending.cargo p))
    (hjob : ∀ j ∈ s'.jobs, s.Carried (Job.cargo j))
    (hrun : ∀ j phase, s'.running = some (j, phase) → phase ≠ .acted ∨ Spec.find j.action = none →
      s.Carried (Job.cargo j))
    (hheld : ∀ k r t, s'.world.tasks k = some (.drainRun r) → s'.runs k = .held t →
      s.Carried (Ticket.cargo t)) : s.Carried c := by
  cases h with
  | request hp hst => exact hreq _ _ hp hst
  | queued hj => exact hjob _ hj
  | running hr hph => exact hrun _ _ hr hph
  | held ht hr => exact hheld _ _ _ ht hr

/-- Only what runs differs. -/
theorem Carried.of_running (h : s'.Carried c) (hreqs : s'.reqs = s.reqs) (hjobs : s'.jobs = s.jobs)
    (hworld : s'.world = s.world) (hruns : s'.runs = s.runs)
    (hrun : ∀ j phase, s'.running = some (j, phase) → phase ≠ .acted ∨ Spec.find j.action = none →
      s.Carried (Job.cargo j)) : s.Carried c := by
  refine h.of_less (fun _ _ hp hst => ?_) (fun _ hj => ?_) hrun fun _ _ _ ht hr => ?_
  · rw [hreqs] at hp
    exact .request hp hst
  · rw [hjobs] at hj
    exact .queued hj
  · rw [hworld] at ht
    rw [hruns] at hr
    exact .held ht hr

theorem Carried.of_finish {j : Job} (h : (s.finish j).Carried c) : s.Carried c := by
  refine h.of_less (fun _ _ hp hst => .request hp hst) (fun _ hj => .queued hj)
    (fun _ _ hr => by cases hr) (fun k r t ht hr => .held ht ?_)
  dsimp only [Server.finish] at hr
  split at hr
  · split at hr <;> cases hr
  · exact hr

/-- A call that is made for a request, and where the request goes. -/
theorem Carried.of_called {id key now : Nat} {fresh : String} {p : Pending} {call : Call}
    {q : Option Pending} (hp : s.reqs id = some p) (hc : s.call cfg key call p.under = some s')
    (hq : Called s.world.st p call q) (h : (s'.setReq id q).Carried c) :
    s.Carried c ∨ Boards cfg s (.handle id key fresh now) (s'.setReq id q) c := by
  rcases h.of_setReq with h | ⟨p', hp', hpast, rfl⟩
  · rcases h.of_call hc with h | ⟨hf, key, t, hr, ht, rfl⟩
    · exact .inl h
    · exact .inr (.flushed (hq.flushing hp hf) hr ht)
  · obtain ⟨-, -, -, -, hst, -⟩ := call_frame hc
    cases hq with
    | answered => cases hp'
    | gate hr hs =>
        cases hp'
        rcases hs with rfl | ⟨req, rfl, -⟩ <;> rcases hpast with h | h | h <;> cases h
    | preempt hadm hs hsafe =>
        cases hp'
        exact .inr (@Boards.sourced cfg s _ _ id p hp hadm hs)
    | pass hadm hs hg =>
        cases hp'
        exact .inr (@Boards.passed cfg s _ _ id p hp hs hg hst)
    | queue hs hi hsafe =>
        cases hp'
        rcases hpast with h | h | h <;> cases h
    | clear hcl ha =>
        cases hp'
        exact .inl (@Carried.request s id p hp (.inl hcl))

/-- **Where the writes on their way come from.**  In every step each was on its way before,
    or comes on board. -/
theorem Carried.move (hal : s.Aligned) {a : Act} (hm : Move cfg s a s') (h : s'.Carried c) :
    s.Carried c ∨ Boards cfg s a s' c := by
  cases hm with
  | receive =>
      rcases h.of_setReq with h | ⟨p, hp, hpast, -⟩
      · exact .inl h
      · cases hp
        rcases hpast with h | h | h <;> cases h
  | answered =>
      rcases h.of_setReq with h | ⟨p, hp, -⟩
      · exact .inl h
      · cases hp
  | @goes id key now fresh p stage hp hg =>
      rcases h.of_setReq with h | ⟨p', hp', hpast, rfl⟩
      · exact .inl h
      · cases hp'
        cases hg with
        | clear hst hs => exact .inr (@Boards.sourced cfg s _ _ id p hp hst hs)
        | push hst => exact .inl (@Carried.request s id p hp (.inl hst))
        | pushTask hst => exact .inl (@Carried.request s id p hp (.inr (.inl hst)))
        | _ => rcases hpast with h | h | h <;> cases h
  | called hp hc hq => exact h.of_called hp hc hq
  | submit hp hst hw =>
      cases World.next_step hw with
      | submit hu hk =>
          refine .inl (h.of_less (fun k p hp hst => ?_) (fun _ hj => .queued hj)
            (fun _ _ hr hph => .running hr hph) fun k r t ht hr => ?_)
          · rcases setAt_cases hp with ⟨-, hp⟩ | ⟨-, hp⟩
            · cases hp
            · exact .request hp hst
          · rcases setAt_cases (f := s.world.tasks) ht with ⟨-, ht⟩ | ⟨-, ht⟩
            · cases ht
            · exact .held ht hr
  | push control hp hst =>
      refine .inl (h.of_less (fun k p hp hst => ?_) (fun j hj => ?_)
        (fun _ _ hr hph => .running hr hph) fun _ _ _ ht hr => .held ht hr)
      · rcases setAt_cases hp with ⟨-, hp⟩ | ⟨-, hp⟩
        · cases hp
        · exact .request hp hst
      · rcases List.mem_append.mp hj with hj | hj
        · exact .queued hj
        · cases List.mem_singleton.mp hj
          exact .request hp (.inr hst)
  | pop hr hj =>
      refine .inl (h.of_less (fun _ _ hp hst => .request hp hst) (fun j hj' => ?_)
        (fun j phase hr' hph => ?_) fun _ _ _ ht hr => .held ht hr)
      · exact .queued (by rw [hj]; exact List.mem_cons_of_mem _ hj')
      · cases hr'
        exact .queued (by rw [hj]; exact List.mem_cons_self)
  | check hr hg =>
      refine .inl (h.of_running rfl rfl rfl rfl fun j phase hr' hph => ?_)
      cases hr'
      exact .running hr (.inl nofun)
  | @checkCall key j source s₁ refused hr hc =>
      have h₁ : s₁.Carried c := by
        cases refused with
        | true => exact h.of_finish
        | false =>
            refine h.of_running rfl rfl rfl rfl fun j phase hr' hph => ?_
            cases hr'
            exact .running ((call_frame hc).2.2.1.trans hr) (.inl nofun)
      rcases h₁.of_call hc with h | ⟨hf, -⟩
      · exact .inl h
      · cases hf
  | execute hr hm =>
      refine .inl (h.of_running rfl rfl rfl rfl fun j phase hr' hph => ?_)
      cases hr'
      exact .running hr (.inr (hph.resolve_left (absurd rfl)))
  | finish hr => exact .inl h.of_finish
  | hand ht hr =>
      refine .inl (h.of_less (fun _ _ hp hst => .request hp hst) (fun j hj => ?_)
        (fun _ _ hr hph => .running hr hph) fun k r' t' ht' hr' => ?_)
      · rcases List.mem_append.mp hj with hj | hj
        · exact .queued hj
        · cases List.mem_singleton.mp hj
          exact .held ht hr
      · rcases setAt_cases hr' with ⟨-, hr'⟩ | ⟨-, hr'⟩
        · cases hr'
        · exact .held ht' hr'
  | handBusy ht hr hs => exact h.of_turn hal hs _
  | @ran key r s₁ ht hr hs =>
      have h₁ : s₁.Carried c := by
        refine h.of_less (fun _ _ hp hst => .request hp hst) (fun _ hj => .queued hj)
          (fun _ _ hr hph => .running hr hph) fun k r' t' ht' hr' => ?_
        rcases setAt_cases hr' with ⟨-, hr'⟩ | ⟨-, hr'⟩
        · cases hr'
        · exact .held ht' hr'
      rcases h₁.of_turn hal hs (.ran key) with h | hb
      · exact .inl h
      · right
        cases hb with
        | passed hp hs hg hst => exact .passed hp hs hg hst
        | sourced hp hst hs => exact .sourced hp hst hs
        | popped hp ha hs => exact .popped hp ha hs
        | flushed hf hr hc => exact .flushed hf hr hc
  | turn ht hs => exact h.of_turn hal hs _
  | drop hw =>
      cases World.next_step hw with
      | drop hT hd =>
          refine .inl (h.of_less (fun _ _ hp hst => .request hp hst) (fun _ hj => .queued hj)
            (fun _ _ hr hph => .running hr hph) fun k r t ht hr => ?_)
          rcases setAt_cases (f := s.world.tasks) ht with ⟨-, ht⟩ | ⟨-, ht⟩
          · cases ht
          · exact .held ht hr
  | publish hc =>
      rcases h.of_call hc with h | ⟨hf, -⟩
      · exact .inl h
      · cases hf
  | takeover hw =>
      cases World.next_step hw with
      | takeover =>
          exact .inl (h.of_less (fun _ _ hp hst => .request hp hst) (fun _ hj => .queued hj)
            (fun _ _ hr hph => .running hr hph) fun _ _ _ ht hr => .held ht hr)
  | reset hw hl ht =>
      cases h with
      | request hp => cases hp
      | queued hj => cases hj
      | running hr => cases hr
      | held ht hr => cases hr

end Carried

/-- What is executed for a request was on its way; a described action has a valid target. -/
theorem carried_of_execute {s : Server} {d : Deed} (hd : s.deed .execute = some d) :
    ∃ c, s.Carried c ∧ c.action = d.action ∧ c.body.params = d.params ∧
      c.body.source.isNone = d.sourceless ∧ c.under = d.under ∧ c.flushed = d.flushed ∧
      ∀ spec, Spec.find c.action = some spec → (spec.target c.body.params).toBool = true := by
  simp only [deed] at hd
  split at hd
  · rename_i j phase hr
    split at hd
    · rename_i hm
      cases hd
      rw [Job.mayAct, Bool.and_eq_true] at hm
      rcases hspec : Spec.find j.action with _ | spec
      · refine ⟨_, .running hr (.inr hspec), rfl, rfl, rfl, rfl, rfl, fun spec hs => ?_⟩
        have hs : Spec.find j.action = some spec := hs
        rw [hspec] at hs
        cases hs
      · rw [hspec] at hm
        simp only [Bool.and_eq_true, decide_eq_true_eq] at hm
        refine ⟨_, .running hr (.inl (by rw [hm.2.1]; nofun)), rfl, rfl, rfl, rfl, rfl,
          fun spec' hs => ?_⟩
        have hs : Spec.find j.action = some spec' := hs
        rw [hspec] at hs
        cases hs
        exact hm.2.2
    · cases hd
  · cases hd

end Server

end Datad
