/-
  Datad/Server/Steps.lean
  =======================
  **What one step of the server can be.**

  `Move` lists the steps with what is known of each: whether a section of the engine is
  involved, where the request goes that is handled, and what the executor has
  afterwards.  Every invariant of the server is a case analysis over it.
-/
import Datad.Server.Machine
import Datad.Ops.LegacyQueue

namespace Datad

namespace Server

/-- A request goes on without a call of the engine. -/
inductive Goes (p : Pending) : Stage → Prop where
  | gate (source : Source) (hp : p.stage = .route) (hs : p.body.source.isSome = true) :
      Goes p (.gate source)
  | admission (hp : p.stage = .route)
      (hs : p.body.source = none ∨ isSafety p.action p.body.params = true) : Goes p .admission
  | clear (hp : p.stage = .admission) (hs : p.body.source.isSome = true) : Goes p .clear
  | push (hp : p.stage = .clear) : Goes p .push
  | pushTask (hp : p.stage = .push) : Goes p .pushTask
  | enqueue {item : String} (hi : legacyItem p.action p.body = some item) : Goes p (.enqueue item)

/-- A call of the engine that is made for a request, and where the request goes. -/
inductive Called (st : St) (p : Pending) : Call → Option Pending → Prop where
  | answered {c : Call} (hf : c.flushes = false) : Called st p c none
  | gate {now : Nat} {stage : Stage}
      (hr : (st.sessionGate p.action p.body.sessionOf now).2.2 = .ok ())
      (hs : stage = .admission ∨ ∃ req, stage = .submit req ∧ Spec.find p.action = some req.spec) :
      Called st p (.sessionGate p.action p.body.sessionOf now) (some { p with stage })
  | preempt (hp : p.stage = .admission) (hs : p.body.source.isSome = true)
      (hsafe : isSafety p.action p.body.params = true) :
      Called st p .preempt (some { p with stage := .clear })
  | pass (hp : p.stage = .admission) (hs : p.body.source = none)
      (hg : (st.legacyGate (legacyItem p.action p.body) (isSafety p.action p.body.params)).2.2 =
        .pass) :
      Called st p (.legacyGate (legacyItem p.action p.body) (isSafety p.action p.body.params))
        (some { p with stage := .clear })
  | queue {item : String} (hs : p.body.source = none)
      (hi : legacyItem p.action p.body = some item)
      (hsafe : isSafety p.action p.body.params = false) :
      Called st p (.legacyGate (legacyItem p.action p.body) (isSafety p.action p.body.params))
        (some { p with stage := .enqueue item })
  | clear (hp : p.stage = .clear)
      (ha : p.action = "device.reboot" ∨ p.action = "device.poweroff") :
      Called st p (.clearLegacy p.action) (some { p with stage := .push })

/-- The step flushes the legacy queue: a safety write, or a restart of the device. -/
def flushing (s : Server) : Act → Bool
  | .handle id .. =>
      match s.reqs id with
      | some { action, body, stage := .admission, .. } => isSafety action body.params
      | some { action, stage := .clear, .. } =>
          decide (action = "device.reboot") || decide (action = "device.poweroff")
      | _ => false
  | _ => false

/-- The steps. -/
inductive Move (cfg : Config) (s : Server) : Act → Server → Prop where
  | receive {id : Nat} {action : String} {body : Body} :
      Move cfg s (.receive id action body)
        (s.setReq id (some { action, body, stage := .route, under := s.current }))
  | answered {id key now : Nat} {fresh : String} :
      Move cfg s (.handle id key fresh now) (s.setReq id none)
  | goes {id key now : Nat} {fresh : String} {p : Pending} {stage : Stage}
      (hp : s.reqs id = some p) (hg : Goes p stage) :
      Move cfg s (.handle id key fresh now) (s.setReq id (some { p with stage }))
  | called {id key now : Nat} {fresh : String} {p : Pending} {c : Call} {q : Option Pending}
      {s' : Server} (hp : s.reqs id = some p) (hc : s.call cfg key c p.under = some s')
      (hq : Called s.world.st p c q) :
      Move cfg s (.handle id key fresh now) (s'.setReq id q)
  | submit {id key now : Nat} {fresh : String} {p : Pending} {req : Request} {w : World}
      (hp : s.reqs id = some p) (hst : p.stage = .submit req)
      (hw : s.world.next cfg (.submit key req fresh) = some w) :
      Move cfg s (.handle id key fresh now)
        ({ s with world := w, unders := setAt s.unders key p.under }.setReq id none)
  | push {id key now : Nat} {fresh : String} {p : Pending} (control : Bool)
      (hp : s.reqs id = some p) (hst : p.stage = .push ∨ p.stage = .pushTask) :
      Move cfg s (.handle id key fresh now) ((s.addJob (p.job control)).setReq id none)
  | pop {j : Job} {rest : List Job} (hr : s.running = none) (hj : s.jobs = j :: rest) :
      Move cfg s .pop { s with running := some (j, .start), jobs := rest }
  | check {key : Nat} {j : Job} (hr : s.running = some (j, .start)) (hg : j.gated = false) :
      Move cfg s (.check key) { s with running := some (j, .ready) }
  | checkCall {key : Nat} {j : Job} {source : Source} {s' : Server} (refused : Bool)
      (hr : s.running = some (j, .start))
      (hc : s.call cfg key (.otherWrite source) none = some s') :
      Move cfg s (.check key)
        (if refused then s'.finish j else { s' with running := some (j, .ready) })
  | execute {j : Job} {phase : JobPhase} (hr : s.running = some (j, phase))
      (hm : j.mayAct phase = true) :
      Move cfg s .execute { s with running := some (j, .acted) }
  | finish {j : Job} {phase : JobPhase} (hr : s.running = some (j, phase)) :
      Move cfg s .finish (s.finish j)
  | hand {key : Nat} {r : LegacyReq} {t : Ticket} (ht : s.world.tasks key = some (.drainRun r))
      (hr : s.runs key = .held t) :
      Move cfg s (.hand key)
        { s.addJob
            { control := true, action := t.req.action, body := t.body, origin := some key
              under := t.under, flushed := t.flushed } with
          runs := setAt s.runs key .queued }
  | handBusy {key : Nat} {r : LegacyReq} {t : Ticket} {s' : Server}
      (ht : s.world.tasks key = some (.drainRun r)) (hr : s.runs key = .held t)
      (hs : s.turn cfg key { ran := false } = some s') : Move cfg s (.hand key) s'
  | ran {key : Nat} {r : LegacyReq} {s' : Server}
      (ht : s.world.tasks key = some (.drainRun r)) (hr : s.runs key = .done)
      (hs : s.turn cfg key { ran := true } = some s') :
      Move cfg s (.ran key) { s' with runs := setAt s'.runs key .idle }
  | turn {key : Nat} {i : Input} {s' : Server}
      (ht : ∀ r, s.world.tasks key ≠ some (.drainRun r)) (hs : s.turn cfg key i = some s') :
      Move cfg s (.world (.task key i)) s'
  | drop {key : Nat} {w : World} (hw : s.world.next cfg (.drop key) = some w) :
      Move cfg s (.world (.drop key)) { s with world := w }
  | publish {key : Nat} {s' : Server} (hc : s.call cfg key .publishNow none = some s') :
      Move cfg s (.world (.call key .publishNow)) s'
  | takeover {w : World} (hw : s.world.next cfg .takeover = some w) :
      Move cfg s (.world .takeover) { s with world := w }
  | reset {a : Datad.Act} {w : World} (hw : s.world.next cfg a = some w)
      (hl : w.st.legacy = []) (ht : ∀ k, World.handOf (w.tasks k) = none) :
      Move cfg s (.world a) (s.reset w)

/-- A call that empties the queue is made in a step that flushes it. -/
theorem Called.flushing {s : Server} {id key now : Nat} {fresh : String} {p : Pending} {c : Call}
    {q : Option Pending} (hp : s.reqs id = some p) (h : Called s.world.st p c q)
    (hc : c.flushes = true) : s.flushing (.handle id key fresh now) = true := by
  obtain ⟨action, body, stage, under⟩ := p
  rw [Server.flushing, hp]
  cases h with
  | answered hf =>
      rw [hf] at hc
      cases hc
  | gate => cases hc
  | preempt hst hs hsafe =>
      cases hst
      exact hsafe
  | pass hst hs hg =>
      cases hst
      rcases hsafe : isSafety action body.params with _ | _
      · dsimp only at hc
        rw [hsafe] at hc
        cases hc
      · exact hsafe
  | queue hs hi hsafe =>
      rw [hsafe] at hc
      cases hc
  | clear hst ha =>
      cases hst
      simpa using ha

theorem describedRoute_cases (action : String) (b : Body) (source : Source) :
    describedRoute action b source = .answer ∨ describedRoute action b source = .pass ∨
      ∃ req, describedRoute action b source = .submit req ∧ Spec.find action = some req.spec := by
  rw [describedRoute]
  rcases hs : Spec.find action with _ | spec
  · exact .inr (.inl rfl)
  · dsimp only
    split
    · exact .inl rfl
    · split
      · exact .inr (.inr ⟨_, rfl, rfl⟩)
      · split
        · exact .inr (.inr ⟨_, rfl, rfl⟩)
        · exact .inl rfl
      · exact .inl rfl

/-- A safety write is not described. -/
theorem describedRoute_safety {action : String} {b : Body} (h : isSafety action b.params = true)
    (source : Source) : describedRoute action b source = .pass := by
  have ha : action = "cellular.set" := by
    simp only [isSafety, Bool.and_eq_true, decide_eq_true_eq] at h
    exact h.1
  rw [describedRoute, ha]
  rfl

/-- The session calls, and what the session rules decide. -/
theorem sourcedRoute_cases (action : String) (b : Body) (source : Source) (fresh : String)
    (now : Nat) :
    let r : Route :=
      if action = "netselect.session.open" then .call (.sessionOpen source fresh now)
      else if action = "netselect.session.renew" then
        match b.paramStr "session" with
        | some id => .call (.sessionRenew id now)
        | none => .answer
      else if action = "netselect.session.close" then
        match b.paramStr "session" with
        | some id => .call (.sessionClose id (b.paramStr "result") now)
        | none => .answer
      else if isSafety action b.params then describedRoute action b source
      else .gate source
    r = .answer ∨ (∃ c, r = .call c ∧ c.flushes = false) ∨ (∃ source, r = .gate source) ∨
      r = .pass ∧ isSafety action b.params = true := by
  by_cases h1 : action = "netselect.session.open"
  · exact .inr (.inl ⟨_, if_pos h1, rfl⟩)
  rw [if_neg h1]
  by_cases h2 : action = "netselect.session.renew"
  · rw [if_pos h2]
    rcases b.paramStr "session" with _ | id
    · exact .inl rfl
    · exact .inr (.inl ⟨_, rfl, rfl⟩)
  rw [if_neg h2]
  by_cases h3 : action = "netselect.session.close"
  · rw [if_pos h3]
    rcases b.paramStr "session" with _ | id
    · exact .inl rfl
    · exact .inr (.inl ⟨_, rfl, rfl⟩)
  rw [if_neg h3]
  by_cases h4 : isSafety action b.params = true
  · rw [if_pos h4]
    exact .inr (.inr (.inr ⟨describedRoute_safety h4 source, h4⟩))
  · exact .inr (.inr (.inl ⟨source, if_neg h4⟩))

theorem opsRoute_cases (action : String) (b : Body) (fresh : String) (now : Nat) :
    opsRoute action b fresh now = .answer ∨
      (∃ c, opsRoute action b fresh now = .call c ∧ c.flushes = false) ∨
      (∃ source, opsRoute action b fresh now = .gate source ∧ b.source.isSome = true) ∨
      opsRoute action b fresh now = .pass ∧
        (b.source = none ∨ isSafety action b.params = true) := by
  rw [opsRoute]
  by_cases h0 : action = "op.status" ∨ action = "journal.append" ∨ action = "journal.list"
  · rw [if_pos h0]
    exact .inl rfl
  rw [if_neg h0]
  by_cases h1 : action = "op.ack"
  · rw [if_pos h1]
    rcases b.paramStr "op_id" with _ | x
    · exact .inl rfl
    · rcases b.userSource with _ | source
      · exact .inl rfl
      · exact .inr (.inl ⟨_, rfl, rfl⟩)
  rw [if_neg h1]
  by_cases h2 : action = "op.interrupt"
  · rw [if_pos h2]
    rcases b.paramStr "what" with _ | what
    · exact .inl rfl
    · rcases b.userSource with _ | source
      · exact .inl rfl
      · by_cases hw : what.isEmpty = true
        · exact .inl (if_pos hw)
        · exact .inr (.inl ⟨_, if_neg hw, rfl⟩)
  rw [if_neg h2]
  by_cases h3 : action = "op.notice_ack"
  · rw [if_pos h3]
    rcases b.userSource with _ | source
    · exact .inl rfl
    · exact .inr (.inl ⟨_, rfl, rfl⟩)
  rw [if_neg h3]
  by_cases h4 : action = "op.revert"
  · rw [if_pos h4]
    rcases b.paramStr "op_id" with _ | x
    · exact .inl rfl
    · exact .inr (.inl ⟨_, rfl, rfl⟩)
  rw [if_neg h4]
  by_cases h5 : action = "op.keep"
  · rw [if_pos h5]
    rcases b.paramStr "op_id" with _ | x
    · exact .inl rfl
    · exact .inr (.inl ⟨_, rfl, rfl⟩)
  rw [if_neg h5]
  rcases hs : b.source with _ | v
  · by_cases hn : ("netselect.".isPrefixOf action || SESSION_OPTIONAL.contains action) = true
    · exact .inl (if_pos hn)
    · exact .inr (.inr (.inr ⟨if_neg hn, .inl rfl⟩))
  · rcases b.sourceOf with _ | source
    · exact .inl rfl
    · rcases sourcedRoute_cases action b source fresh now with h | h | ⟨source', h⟩ | h
      · exact .inl h
      · exact .inr (.inl h)
      · exact .inr (.inr (.inl ⟨source', h, rfl⟩))
      · exact .inr (.inr (.inr ⟨h.1, .inr h.2⟩))

/-- Only described actions are queued. -/
theorem legacyGate_none (st : St) (safety : Bool) : (st.legacyGate none safety).2.2 = .pass := by
  cases safety with
  | true => rfl
  | false => rfl

theorem handle_move {cfg : Config} {s s' : Server} {id key now : Nat} {fresh : String}
    {p : Pending} (hp : s.reqs id = some p)
    (h : s.handle cfg id key fresh now p = some s') :
    Move cfg s (.handle id key fresh now) s' := by
  rcases hst : p.stage with _ | source | req | _ | item | _ | _ | _
  · -- route
    simp only [handle, hst] at h
    rcases opsRoute_cases p.action p.body fresh now with
      hr | ⟨c, hr, hf⟩ | ⟨source, hr, hs⟩ | ⟨hr, hs⟩
    · rw [hr] at h
      cases h
      exact .answered
    · rw [hr] at h
      obtain ⟨s₁, hs₁, rfl⟩ := Option.map_eq_some_iff.mp h
      exact .called hp hs₁ (.answered hf)
    · rw [hr] at h
      cases h
      exact .goes hp (.gate source hst hs)
    · rw [hr] at h
      cases h
      exact .goes hp (.admission hst hs)
  · -- gate
    simp only [handle, hst] at h
    obtain ⟨s₁, hs₁, rfl⟩ := Option.map_eq_some_iff.mp h
    split
    · rename_i hr
      rcases describedRoute_cases p.action p.body source with hd | hd | ⟨req, hd, hreq⟩
      · rw [hd]
        exact .called hp hs₁ (.answered rfl)
      · rw [hd]
        exact .called hp hs₁ (.gate hr (.inl rfl))
      · rw [hd]
        exact .called hp hs₁ (.gate hr (.inr ⟨req, rfl, hreq⟩))
    · exact .called hp hs₁ (.answered rfl)
  · -- submit
    simp only [handle, hst] at h
    obtain ⟨w, hw, rfl⟩ := Option.map_eq_some_iff.mp h
    exact .submit hp hst hw
  · -- admission
    simp only [handle, hst] at h
    split at h
    · rename_i hs
      split at h
      · rename_i hsafe
        obtain ⟨s₁, hs₁, rfl⟩ := Option.map_eq_some_iff.mp h
        exact .called hp hs₁ (.preempt hst hs hsafe)
      · cases h
        exact .goes hp (.clear hst hs)
    · rename_i hs
      have hs : p.body.source = none := by simpa using hs
      obtain ⟨s₁, hs₁, rfl⟩ := Option.map_eq_some_iff.mp h
      rcases hg : (s.world.st.legacyGate (legacyItem p.action p.body)
          (isSafety p.action p.body.params)).2.2 with _ | _
      · exact .called hp hs₁ (.pass hst hs hg)
      · rcases hi : legacyItem p.action p.body with _ | item
        · rw [hi, legacyGate_none] at hg
          cases hg
        · have hsafe : isSafety p.action p.body.params = false := by
            rcases hsafe : isSafety p.action p.body.params with _ | _
            · rfl
            · rw [hsafe] at hg
              cases hg
          rw [hi] at hs₁
          have := @Called.queue s.world.st p item hs hi hsafe
          rw [hi] at this
          exact .called hp hs₁ this
  · -- enqueue
    simp only [handle, hst] at h
    obtain ⟨s₁, hs₁, rfl⟩ := Option.map_eq_some_iff.mp h
    exact .called hp hs₁ (.answered rfl)
  · -- clear
    simp only [handle, hst] at h
    split at h
    · obtain ⟨s₁, hs₁, rfl⟩ := Option.map_eq_some_iff.mp h
      exact .called hp hs₁ (.clear hst ‹_›)
    · cases h
      exact .goes hp (.push hst)
  · -- push
    simp only [handle, hst] at h
    split at h
    · cases h
      exact .push true hp (.inl hst)
    split at h
    · cases h
      exact .goes hp (.pushTask hst)
    · split at h
      · rename_i hi
        cases h
        exact .goes hp (.enqueue hi)
      · cases h
        exact .answered
  · -- pushTask
    simp only [handle, hst] at h
    cases h
    exact .push false hp (.inr hst)

theorem startTasks_hand (st : St) (key k : Nat) :
    World.handOf (World.startTasks st key k) = none := by
  rw [World.startTasks, setTask]
  split
  · cases st.active <;> rfl
  · rfl

/-- Every step is one of these. -/
theorem next_move {cfg : Config} {s s' : Server} {a : Act} (h : next cfg s a = some s') :
    Move cfg s a s' := by
  cases a with
  | receive id action body =>
      simp only [next] at h
      split at h
      · cases h
        exact .receive
      · cases h
  | handle id key fresh now =>
      simp only [next] at h
      split at h
      · rename_i p hp
        exact handle_move hp h
      · cases h
  | pop =>
      simp only [next] at h
      split at h
      · rename_i j rest hr hj
        cases h
        exact .pop hr hj
      · cases h
  | check key =>
      simp only [next] at h
      split at h
      · rename_i j hr
        split at h
        · obtain ⟨s₁, hs₁, rfl⟩ := Option.map_eq_some_iff.mp h
          split
          · exact .checkCall false hr hs₁
          · exact .checkCall true hr hs₁
        · rename_i hg
          cases h
          exact .check hr (Bool.eq_false_iff.mpr hg)
      · cases h
  | execute =>
      simp only [next] at h
      split at h
      · rename_i j phase hr
        split at h
        · rename_i hm
          cases h
          exact .execute hr hm
        · cases h
      · cases h
  | finish =>
      simp only [next] at h
      split at h
      · rename_i j phase hr
        split at h
        · cases h
        · cases h
          exact .finish hr
      · cases h
  | hand key =>
      simp only [next] at h
      split at h
      · rename_i r t ht hr
        split at h
        · exact .handBusy ht hr h
        · cases h
          exact .hand ht hr
      · cases h
  | ran key =>
      simp only [next] at h
      split at h
      · rename_i r ht hr
        obtain ⟨s₁, hs₁, rfl⟩ := Option.map_eq_some_iff.mp h
        exact .ran ht hr hs₁
      · cases h
  | world a =>
      simp only [next] at h
      cases a with
      | submit key req fresh => cases h
      | task key i =>
          simp only [engine] at h
          split at h
          · cases h
          · rename_i ht
            exact .turn ht h
      | call key c =>
          cases c with
          | publishNow => exact .publish h
          | _ => cases h
      | drop key =>
          obtain ⟨w, hw, rfl⟩ := Option.map_eq_some_iff.mp h
          exact .drop hw
      | takeover =>
          rw [engine] at h
          obtain ⟨w, hw, rfl⟩ := Option.map_eq_some_iff.mp h
          exact .takeover hw
      | start key bootId now =>
          obtain ⟨w, hw, rfl⟩ := Option.map_eq_some_iff.mp h
          cases World.next_step hw with
          | start hu =>
              refine .reset hw (s.world.disk.start_aside bootId now).1 (startTasks_hand _ key)
      | crash =>
          obtain ⟨w, hw, rfl⟩ := Option.map_eq_some_iff.mp h
          cases World.next_step hw
          exact .reset hw rfl fun _ => rfl
      | crashTask key i n =>
          obtain ⟨w, hw, rfl⟩ := Option.map_eq_some_iff.mp h
          cases World.next_step hw
          exact .reset hw rfl fun _ => rfl
      | crashCall c n =>
          obtain ⟨w, hw, rfl⟩ := Option.map_eq_some_iff.mp h
          cases World.next_step hw
          exact .reset hw rfl fun _ => rfl
      | crashStart bootId now n =>
          obtain ⟨w, hw, rfl⟩ := Option.map_eq_some_iff.mp h
          cases World.next_step hw
          exact .reset hw rfl fun _ => rfl

end Server

end Datad
