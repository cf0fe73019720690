/-
  Datad/Server/Effects.lean
  =========================
  **What a step of the server does to the engine.**

  Every step is at most one step of the engine.  Which transaction is active and which
  session is open changes in few ways, whatever the step: an item gets a transaction
  only by an acceptance, and a session opens only by `session_open`.
-/
import Datad.Server.Steps
import Datad.Ops.Turns

namespace Datad

open Transition

/-! ### Where the drain task takes a request -/

/-- A request is popped only while nothing is active. -/
theorem St.popLegacy_some {cfg : Config} {st : St} {now : Nat} {r : LegacyReq}
    (h : (st.popLegacy cfg now).2.2 = some r) :
    (st.popLegacy cfg now).1.active = none ∧ (st.popLegacy cfg now).1.session = none := by
  rw [popLegacy] at h ⊢
  by_cases hb : (st.active.isSome || st.session.isSome) = true
  · rw [if_pos hb] at h
    cases h
  · rw [if_neg hb]
    have hb' : st.active = none ∧ st.session = none := by simpa using hb
    dsimp only
    split
    · exact hb'
    · exact hb'

/-- The task of a `submit` before its write. -/
def Task.submitting : Task → Bool
  | .submit .. | .submitRead .. | .submitWrite .. => true
  | _ => false

/-- What a task has come from: a `submit` was one before, and a request comes into the hands
    of a task when it is popped and stays there when it is to be put back. -/
def Task.Follows (ran : Bool) (st' : St) (T T' : Task) : Prop :=
  (T'.submitting = true → T.submitting = true) ∧
    ∀ r, T'.hand = some r →
      T = .drain ∧ T' = .drainRun r ∧ st'.active = none ∧ st'.session = none ∨
        T = .drainRun r ∧ T' = .drainBack r ∧ ran = false

/-- The drain task takes what the queue gives. -/
theorem Task.drain_turn (cfg : Config) (bootId : String) (uid : Nat) (st : St) (draining : Bool)
    (i : Input) :
    (Task.drain.turn cfg bootId uid st draining i).st = (st.popLegacy cfg i.now).1 ∧
      (Task.drain.turn cfg bootId uid st draining i).task =
        some (((st.popLegacy cfg i.now).2.2.map .drainRun).getD .drainLower) := by
  rcases hp : st.popLegacy cfg i.now with ⟨st', fx, _ | r⟩
  · refine ⟨?_, ?_⟩ <;> simp [turn, hp]
  · refine ⟨?_, ?_⟩ <;> simp [turn, hp]

theorem Task.Follows.quiet {ran : Bool} {st' : St} {T T' : Task} (hs : T'.submitting = false)
    (hh : T'.hand = none) : Follows ran st' T T' := by
  refine ⟨fun h => ?_, fun r hr => ?_⟩
  · rw [hs] at h
    cases h
  · rw [hh] at hr
    cases hr

theorem Task.turn_follows {cfg : Config} {bootId : String} {uid : Nat} {st : St} {draining : Bool}
    {i : Input} {T T' : Task} (h : (T.turn cfg bootId uid st draining i).task = some T') :
    Follows i.ran (T.turn cfg bootId uid st draining i).st T T' := by
  cases T with
  | drain =>
      obtain ⟨hst, htask⟩ := Task.drain_turn cfg bootId uid st draining i
      rw [htask] at h
      rw [hst]
      rcases hp : (st.popLegacy cfg i.now).2.2 with _ | r
      · rw [hp] at h
        cases h
        exact .quiet rfl rfl
      · rw [hp] at h
        cases h
        refine ⟨fun hs => (by cases hs), fun r' hr' => .inl ?_⟩
        cases hr'
        exact ⟨rfl, rfl, St.popLegacy_some hp⟩
  | drainRun r =>
      simp only [turn] at h
      split at h
      · cases h
        exact .quiet rfl rfl
      · rename_i hran
        cases h
        refine ⟨fun hs => (by cases hs), fun r' hr' => .inr ?_⟩
        cases hr'
        exact ⟨rfl, rfl, Bool.eq_false_iff.mpr hran⟩
  | submit req opId =>
      refine ⟨fun _ => rfl, fun r hr => ?_⟩
      simp only [turn] at h
      split at h <;> cases h
      cases hr
  | submitRead req opId =>
      refine ⟨fun _ => rfl, fun r hr => ?_⟩
      simp only [turn] at h
      split at h
      · cases h
      · split at h <;> cases h
        cases hr
  | submitBack req opId uid' result =>
      simp only [turn] at h
      split at h <;> cases h <;> exact .quiet rfl rfl
  | drive opId =>
      simp only [turn] at h
      split at h
      · cases h
        exact .quiet rfl rfl
      · split at h <;> cases h <;> exact .quiet rfl rfl
  | rollback opId uid' value generation spec =>
      simp only [turn] at h
      split at h
      · cases h
        exact .quiet rfl rfl
      · cases spec <;> cases h <;> exact .quiet rfl rfl
  | rollbackRead opId uid' value generation spec =>
      simp only [turn] at h
      split at h <;> cases h <;> exact .quiet rfl rfl
  | sleep opId generation spec =>
      simp only [turn] at h
      split at h <;> cases h <;> exact .quiet rfl rfl
  | read opId generation spec =>
      simp only [turn] at h
      split at h
      · split at h
        · cases h
          exact .quiet rfl rfl
        · split at h <;> cases h <;> exact .quiet rfl rfl
      · cases h
        exact .quiet rfl rfl
  | feed opId generation reading =>
      simp only [turn] at h
      split at h <;> cases h <;> exact .quiet rfl rfl
  | kick =>
      simp only [turn] at h
      split at h <;> cases h
      exact .quiet rfl rfl
  | drainMore =>
      simp only [turn] at h
      split at h <;> cases h
      exact .quiet rfl rfl
  | drainRetry =>
      simp only [turn] at h
      split at h <;> cases h
      exact .quiet rfl rfl
  | timer id =>
      have hT' : T' = .kick ∨ T' = .timer id := by
        rw [← Option.some.inj h]
        exact ite_eq_or_eq ..
      rcases hT' with rfl | rfl <;> exact .quiet rfl rfl
  | submitWrite | submitWait | rollbackWrite | rollbackWait | rollbackSkip | probe | drainBack
  | drainLower =>
      cases h
      exact .quiet rfl rfl

/-- What a call leaves behind is a wake-up or a timer. -/
theorem Call.turn_task {st : St} {draining : Bool} {c : Call} {T' : Task}
    (h : (c.turn st draining).task = some T') : T' = .kick ∨ ∃ id, T' = .timer id := by
  cases c with
  | keep opId =>
      simp only [turn] at h
      split at h <;> cases h
      exact .inl rfl
  | otherWrite source =>
      simp only [turn] at h
      split at h <;> cases h
      exact .inl rfl
  | interrupt source what =>
      simp only [turn] at h
      split at h <;> cases h
      exact .inl rfl
  | sessionOpen source id now =>
      simp only [turn] at h
      split at h <;> cases h
      exact .inr ⟨id, rfl⟩
  | sessionClose id result now =>
      simp only [turn] at h
      split at h <;> cases h
      exact .inl rfl
  | enqueueLegacy item action params now =>
      cases h
      exact .inl rfl
  | _ => cases h

theorem Call.turn_hand {st : St} {draining : Bool} {c : Call} {T' : Task} {r : LegacyReq}
    (h : (c.turn st draining).task = some T') : T'.hand ≠ some r := by
  rcases Call.turn_task h with rfl | ⟨id, rfl⟩ <;> nofun

/-- A step of the engine that is made for a request or by the executor. -/
def World.Errand (w : World) : Act → Prop
  | .call .. | .submit .. => True
  | .task key _ => ∃ r, w.tasks key = some (.drainRun r)
  | _ => False

namespace Server

/-! ### Steps of the server are steps of the engine -/

theorem call_world {cfg : Config} {s s' : Server} {key : Nat} {c : Call} {under : Option Nat}
    (h : s.call cfg key c under = some s') :
    s.world.next cfg (.call key c) = some s'.world := by
  obtain ⟨w, hw, rfl⟩ := Option.map_eq_some_iff.mp h
  exact hw

theorem turn_world {cfg : Config} {s s' : Server} {key : Nat} {i : Input}
    (h : s.turn cfg key i = some s') : s.world.next cfg (.task key i) = some s'.world := by
  obtain ⟨w, hw, rfl⟩ := Option.map_eq_some_iff.mp h
  rw [hw]
  repeat' split
  all_goals rfl

/-- What a call leaves alone. -/
theorem call_frame {cfg : Config} {s s' : Server} {key : Nat} {c : Call} {under : Option Nat}
    (h : s.call cfg key c under = some s') :
    s'.reqs = s.reqs ∧ s'.jobs = s.jobs ∧ s'.running = s.running ∧ s'.unders = s.unders ∧
      s'.world.st = (c.turn s.world.st s.world.draining).st ∧
      s'.sessions = (if c.opens s.world.st then s.sessions + 1 else s.sessions) ∧
      s'.line = c.lineAfter under s.line ∧
      s'.runs = (if c.flushes then fun k => (s.runs k).flush else s.runs) ∧
      s'.world.tasks = setTask s.world.tasks key (c.turn s.world.st s.world.draining).task ∧
      s.world.tasks key = none := by
  obtain ⟨w, hw, rfl⟩ := Option.map_eq_some_iff.mp h
  cases World.next_step hw with
  | call hu hk => exact ⟨rfl, rfl, rfl, rfl, rfl, rfl, rfl, rfl, rfl, hk⟩

/-- What a turn does beside the engine: the drain task pops a request or puts it back. -/
inductive Beside (cfg : Config) (s : Server) (key now : Nat) (w : World) :
    Task → Server → Prop where
  | popped {t : Ticket} {line : List Ticket}
      (hp : popLine cfg s.world.st s.line now = (some t, line)) :
      Beside cfg s key now w .drain { s with world := w, line, runs := setAt s.runs key (.held t) }
  | empty {line : List Ticket} (hp : popLine cfg s.world.st s.line now = (none, line)) :
      Beside cfg s key now w .drain { s with world := w, line }
  | back {r : LegacyReq} {t : Ticket} (hr : s.runs key = .held t) :
      Beside cfg s key now w (.drainBack r)
        { s with world := w, line := putBackLine s.line t, runs := setAt s.runs key .idle }
  | nothing {T : Task} (hd : T ≠ .drain) (hb : ∀ r t, T = .drainBack r → s.runs key ≠ .held t) :
      Beside cfg s key now w T { s with world := w }

theorem turn_beside {cfg : Config} {s s' : Server} {key : Nat} {i : Input}
    (h : s.turn cfg key i = some s') :
    ∃ T, s.world.tasks key = some T ∧
      Beside cfg s key i.now (s.world.take key (s.world.turnOf cfg T i)) T s' := by
  obtain ⟨w, hw, rfl⟩ := Option.map_eq_some_iff.mp h
  cases World.next_step hw with
  | @task _ _ T hT =>
      refine ⟨T, hT, ?_⟩
      rw [hT]
      cases T with
      | drain =>
          dsimp only
          rcases hp : popLine cfg s.world.st s.line i.now with ⟨_ | t, line⟩
          · exact .empty hp
          · exact .popped hp
      | drainBack r =>
          dsimp only
          rcases hr : s.runs key with _ | t | _ | _
          · exact .nothing nofun fun _ _ _ h => (nomatch hr ▸ h)
          · exact .back hr
          · exact .nothing nofun fun _ _ _ h => (nomatch hr ▸ h)
          · exact .nothing nofun fun _ _ _ h => (nomatch hr ▸ h)
      | _ => exact .nothing nofun nofun

theorem turn_take {cfg : Config} {s s' : Server} {key : Nat} {i : Input}
    (h : s.turn cfg key i = some s') :
    ∃ T, s.world.tasks key = some T ∧
      s'.world = s.world.take key (s.world.turnOf cfg T i) := by
  obtain ⟨T, hT, hb⟩ := turn_beside h
  refine ⟨T, hT, ?_⟩
  cases hb <;> rfl

theorem turn_frame {cfg : Config} {s s' : Server} {key : Nat} {i : Input}
    (h : s.turn cfg key i = some s') :
    s'.reqs = s.reqs ∧ s'.unders = s.unders ∧ s'.sessions = s.sessions := by
  obtain ⟨T, -, hb⟩ := turn_beside h
  cases hb <;> exact ⟨rfl, rfl, rfl⟩

theorem setAt_cases {α : Type} {f : Nat → α} {key k : Nat} {v x : α}
    (h : setAt f key v k = x) : k = key ∧ v = x ∨ k ≠ key ∧ f k = x := by
  rw [setAt] at h
  split at h
  · exact .inl ⟨‹_›, h⟩
  · exact .inr ⟨‹_›, h⟩

/-- A step of the server is a step of the engine, runs an errand or leaves it alone. -/
theorem Move.engine {cfg : Config} {s s' : Server} {a : Act} (h : Move cfg s a s') :
    (∃ b, a = .world b ∧ s.world.next cfg b = some s'.world) ∨
      (∀ b, a ≠ .world b) ∧ (s'.world = s.world ∨
        ∃ b, s.world.Errand b ∧ s.world.next cfg b = some s'.world) := by
  cases h with
  | called hp hc hq =>
      have hw := call_world hc
      exact .inr ⟨(fun _ hb => nomatch hb), .inr ⟨.call _ _, trivial, hw⟩⟩
  | submit hp hst hw => exact .inr ⟨(fun _ hb => nomatch hb), .inr ⟨.submit _ _ _, trivial, hw⟩⟩
  | checkCall refused hr hc =>
      refine .inr ⟨(fun _ hb => nomatch hb), .inr ⟨.call _ _, trivial, (call_world hc).trans ?_⟩⟩
      cases refused with
      | true => rfl
      | false => rfl
  | handBusy ht hr hs =>
      have hw := turn_world hs
      exact .inr ⟨(fun _ hb => nomatch hb), .inr ⟨.task _ _, ⟨_, ht⟩, hw⟩⟩
  | ran ht hr hs =>
      have hw := turn_world hs
      exact .inr ⟨(fun _ hb => nomatch hb), .inr ⟨.task _ _, ⟨_, ht⟩, hw⟩⟩
  | turn ht hs => exact .inl ⟨_, rfl, turn_world hs⟩
  | drop hw => exact .inl ⟨_, rfl, hw⟩
  | publish hc => exact .inl ⟨_, rfl, call_world hc⟩
  | takeover hw => exact .inl ⟨_, rfl, hw⟩
  | reset hw hl ht => exact .inl ⟨_, rfl, hw⟩
  | _ => exact .inr ⟨(fun _ hb => nomatch hb), .inl rfl⟩

/-- A step leaves the engine alone or is one of its steps. -/
theorem Move.world {cfg : Config} {s s' : Server} {a : Act} (h : Move cfg s a s') :
    s'.world = s.world ∨ ∃ b, s.world.next cfg b = some s'.world := by
  rcases h.engine with ⟨b, -, hw⟩ | ⟨-, hw | ⟨b, -, hw⟩⟩
  · exact .inr ⟨b, hw⟩
  · exact .inl hw
  · exact .inr ⟨b, hw⟩

/-- What a step does to the state of the engine and to the count of the sessions. -/
inductive Moved (cfg : Config) (s s' : Server) (a : Act) : Prop where
  | still (hst : s'.world.st = s.world.st) (hn : s'.sessions = s.sessions)
  | called (c : Call) (hst : s'.world.st = (c.turn s.world.st s.world.draining).st)
      (hn : s'.sessions = if c.opens s.world.st then s.sessions + 1 else s.sessions)
  | turned {key : Nat} {T : Task} {i : Input} (hT : s.world.tasks key = some T)
      (hst : s'.world.st = (s.world.turnOf cfg T i).st) (hn : s'.sessions = s.sessions)
      (ha : a = .world (.task key i) ∨ ∃ r, T = .drainRun r)
  | reset (w : World) (hs : s' = s.reset w)

theorem Moved.of_turn {cfg : Config} {s s' : Server} {key : Nat} {i : Input} {a : Act}
    (hs : s.turn cfg key i = some s')
    (ha : a = .world (.task key i) ∨ ∃ r, s.world.tasks key = some (.drainRun r)) :
    Moved cfg s s' a := by
  obtain ⟨T, hT, hw⟩ := turn_take hs
  refine .turned hT (congrArg World.st hw) (turn_frame hs).2.2 (ha.imp_right ?_)
  rintro ⟨r, hr⟩
  exact ⟨r, Option.some.inj (hT.symm.trans hr)⟩

theorem Move.moved {cfg : Config} {s s' : Server} {a : Act} (h : Move cfg s a s') :
    Moved cfg s s' a := by
  cases h with
  | called hp hc hq =>
      obtain ⟨-, -, -, -, hst, hn, -⟩ := call_frame hc
      exact .called _ hst hn
  | submit hp hst hw =>
      cases World.next_step hw with
      | submit hu hk => exact .still rfl rfl
  | checkCall refused hr hc =>
      obtain ⟨-, -, -, -, hst, hn, -⟩ := call_frame hc
      cases refused with
      | true => exact .called _ hst hn
      | false => exact .called _ hst hn
  | handBusy ht hr hs => exact .of_turn hs (.inr ⟨_, ht⟩)
  | ran ht hr hs =>
      obtain ⟨T, hT, hw⟩ := turn_take hs
      have hn := (turn_frame hs).2.2
      have hr := Option.some.inj (hT.symm.trans ht)
      exact .turned hT (congrArg World.st hw) hn (.inr ⟨_, hr⟩)
  | turn ht hs => exact .of_turn hs (.inl rfl)
  | drop hw =>
      cases World.next_step hw with
      | drop hT hd => exact .still rfl rfl
  | publish hc =>
      obtain ⟨-, -, -, -, hst, hn, -⟩ := call_frame hc
      exact .called _ hst hn
  | takeover hw =>
      cases World.next_step hw with
      | takeover => exact .still rfl rfl
  | reset hw hl ht => exact .reset _ rfl
  | _ => exact .still rfl rfl

/-- Where a request stands after a step: where it stood, at the start, or where the step
    has brought it. -/
inductive Stands (cfg : Config) (s : Server) (s' : Server) (id : Nat) : Act → Pending → Prop where
  | as {a : Act} {p : Pending} (hp : s.reqs id = some p) : Stands cfg s s' id a p
  | received {action : String} {body : Body} :
      Stands cfg s s' id (.receive id action body)
        { action, body, stage := .route, under := s.current }
  | gone {key now : Nat} {fresh : String} {p : Pending} {stage : Stage} (hp : s.reqs id = some p)
      (hg : Goes p stage) : Stands cfg s s' id (.handle id key fresh now) { p with stage }
  | called {key now : Nat} {fresh : String} {p p' : Pending} {c : Call} (hp : s.reqs id = some p)
      (hq : Called s.world.st p c (some p'))
      (hst : s'.world.st = (c.turn s.world.st s.world.draining).st) :
      Stands cfg s s' id (.handle id key fresh now) p'

theorem Move.stands {cfg : Config} {s s' : Server} {a : Act} (h : Move cfg s a s') {id : Nat}
    {p : Pending} (hp : s'.reqs id = some p) : Stands cfg s s' id a p := by
  have hset : ∀ {k q}, setAt s.reqs k q id = some p → q = none → s.reqs id = some p := by
    intro k q hk hq
    rcases setAt_cases hk with ⟨-, hk⟩ | ⟨-, hk⟩
    · rw [hq] at hk
      cases hk
    · exact hk
  cases h with
  | receive =>
      rcases setAt_cases hp with ⟨rfl, hq⟩ | ⟨-, hq⟩
      · cases hq
        exact .received
      · exact .as hq
  | answered => exact .as (hset hp rfl)
  | goes hp' hg =>
      rcases setAt_cases hp with ⟨rfl, hq⟩ | ⟨-, hq⟩
      · cases hq
        exact .gone hp' hg
      · exact .as hq
  | called hp' hc hcalled =>
      obtain ⟨h1, -, -, -, h5, -⟩ := call_frame hc
      rcases setAt_cases hp with ⟨rfl, hq⟩ | ⟨-, hq⟩
      · rw [hq] at hcalled
        exact .called hp' hcalled h5
      · rw [h1] at hq
        exact .as hq
  | submit => exact .as (hset hp rfl)
  | push => exact .as (hset hp rfl)
  | checkCall refused hr hc =>
      have h1 := (call_frame hc).1
      cases refused with
      | true => exact .as (h1 ▸ hp)
      | false => exact .as (h1 ▸ hp)
  | handBusy ht hr hs => exact .as ((turn_frame hs).1 ▸ hp)
  | ran ht hr hs =>
      have h1 := (turn_frame hs).1
      exact .as (h1 ▸ hp)
  | turn ht hs => exact .as ((turn_frame hs).1 ▸ hp)
  | publish hc => exact .as ((call_frame hc).1 ▸ hp)
  | reset => cases hp
  | _ => exact .as hp

theorem Move.ok {cfg : Config} {s s' : Server} {a : Act} (h : Move cfg s a s')
    (hok : s.world.Ok) : s'.world.Ok := by
  rcases h.world with hw | ⟨b, hw⟩
  · rw [hw]
    exact hok
  · exact hok.step (World.next_step hw)

end Server

/-! ### Which item has a transaction -/

/-- No transaction on this item is live. -/
def St.Free (st : St) (item : String) : Prop := ∀ t, st.active = some t → t.item ≠ item

theorem St.Free.of_none {st : St} (h : st.active = none) (item : String) : st.Free item := by
  intro t ht
  rw [h] at ht
  cases ht

/-- The item on which this action makes `submit` accept a transaction. -/
def World.accepts (w : World) : Act → Option String
  | .task key i =>
      match w.tasks key with
      | some (.submitRead req opId) =>
          match St.capture i.reading with
          | .ok _ => if (w.st.refuse req opId).isNone then some req.spec.item else none
          | .error _ => none
      | _ => none
  | _ => none

theorem Shift.free {who : Option String} {may : Bool} {st st' : St} {fx : List Effect}
    (h : Shift who may none st st' fx) {item : String} (hf : st.Free item) : st'.Free item := by
  intro t' ht'
  rcases h.sect.source ht' with ⟨t, ht, hid⟩ | hfresh
  · have hitem : t'.item = t.item := congrArg Txn.Ident.item hid
    rw [hitem]
    exact hf t ht
  · cases hfresh

theorem World.take_free {cfg : Config} {w : World} (hok : w.Ok) {key : Nat} {T : Task}
    (hT : w.tasks key = some T) (i : Input) {item : String} (hf : w.st.Free item)
    (hne : w.accepts (.task key i) ≠ some item) :
    (w.take key (w.turnOf cfg T i)).st.Free item := by
  have hg : Turned cfg w key T (w.turnOf cfg T i) := .task hok hT i
  by_cases hacc : (w.turnOf cfg T i).accepted = 0
  · obtain ⟨who, may, hs⟩ := hg.shift
    rw [Turn.fresh, hacc] at hs
    exact hs.free hf
  · obtain ⟨req, x, c, now, rfl, href, hst, -⟩ := hg.accepts hacc
    have hcap : ∃ c', St.capture i.reading = .ok c' := by
      rcases hc : St.capture i.reading with e | c'
      · refine absurd ?_ hacc
        simp only [turnOf, Task.turn, hc]
      · exact ⟨c', rfl⟩
    obtain ⟨c', hc'⟩ := hcap
    have hitem : req.spec.item ≠ item := by
      intro heq
      refine hne ?_
      simp only [accepts, hT, hc', href, Option.isNone_none, if_true, heq]
    intro t ht
    have hact : (w.turnOf cfg (.submitRead req x) i).st.active = some t := ht
    rw [hst, St.accept_active] at hact
    rw [← Option.some.inj hact]
    exact hitem

theorem World.call_free {w : World} {key : Nat} (c : Call) {item : String} (hf : w.st.Free item) :
    (w.take key (c.turn w.st w.draining)).st.Free item := by
  have hs := call_shift c w
  rw [(call_fresh c w.st w.draining w.nextUid).2] at hs
  exact hs.free hf

end Datad
