/-
  Datad/Ops/World.lean
  ====================
  **The engine as a system**: the process with its asynchronous tasks, the files
  it leaves behind, crashes and restarts.

  A task stands at one of its points between two awaits or two locked sections
  (`Task`); `Task.turn` is what it does next.  The scheduler, the device, the
  clock and the user are the environment: they choose which task moves or which
  call arrives (`Act`) and what the device answers (`Input`), in any order.  A
  crash may also fall inside a locked section, after any number of its effects.

  `World.log` records what an observer outside sees: effects in program order,
  device writes as they start, answers to `submit`.
-/
import Datad.Ops.Engine
import Datad.Lib.Transition

namespace Datad

/-! ### Files -/

/-- The ops directory.  Saves are atomic and succeed. -/
structure Disk where
  pending : Option Txn := none
  last : Option Last := none
  takeover : Bool := false
  notice : Bool := false
  journal : List Line := []
deriving DecidableEq, Repr

def Disk.apply (d : Disk) : Effect → Disk
  | .save t => { d with pending := some t }
  | .clear => { d with pending := none }
  | .saveLast l => { d with last := some l }
  | .saveNotice => { d with notice := true }
  | .takeTakeover => { d with takeover := false }
  | .append line => { d with journal := d.journal ++ [line] }
  | .setOwner .. | .publish _ => d

def Disk.applyAll (d : Disk) (fx : List Effect) : Disk := fx.foldl Disk.apply d

/-! ### Tasks -/

/-- Where an asynchronous task stands. -/
inductive Task where
  /-- `submit` called. -/
  | submit (req : Request) (opId : String)
  /-- First check passed, the device is being read. -/
  | submitRead (req : Request) (opId : String)
  /-- Accepted and saved; the write call comes next. -/
  | submitWrite (req : Request) (opId : String) (uid : Nat)
  /-- The write call is under way. -/
  | submitWait (req : Request) (opId : String) (uid : Nat)
  /-- The write call is back. -/
  | submitBack (req : Request) (opId : String) (uid : Nat) (result : Except WriteError Value)
  /-- Head of the driver's loop. -/
  | drive (opId : String)
  /-- `send_rollback` entered with the value to restore. -/
  | rollback (opId : String) (uid : Nat) (value : String) (generation : Nat) (spec : Option Spec)
  /-- Intent saved, the device is being read for its SIM. -/
  | rollbackRead (opId : String) (uid : Nat) (value : String) (generation : Nat) (spec : Spec)
  /-- SIM checked, lock released; the write call comes next. -/
  | rollbackWrite (opId : String) (uid : Nat) (value : String)
  /-- The rollback write is under way. -/
  | rollbackWait (opId : String) (uid : Nat)
  /-- Nothing was sent, because the action is no longer described. -/
  | rollbackSkip (opId : String) (uid : Nat)
  | sleep (opId : String) (generation : Nat) (spec : Option Spec)
  | read (opId : String) (generation : Nat) (spec : Option Spec)
  | probe (opId : String) (generation : Nat) (reading : Reading)
  | feed (opId : String) (generation : Nat) (reading : Option Reading)
  /-- About to wake the legacy queue. -/
  | kick
  | drain
  | drainRun (r : LegacyReq)
  | drainBack (r : LegacyReq)
  | drainLower
  | drainMore
  | drainRetry
  /-- Reaps the session while it is open. -/
  | timer (id : String)

/-- The environment's answers a task may ask for. -/
structure Input where
  now : Nat := 0
  reading : Except String Reading := .error ""
  written : Except WriteError Value := .error ⟨"", false⟩
  probe : Bool := false
  wake : Bool := false
  ran : Bool := false

/-- What the log records. -/
inductive Event where
  | fx (e : Effect)
  /-- A device write of a transaction starts. -/
  | write (uid : Nat) (intent : Intent) (value : String)
  | answer (opId : String) (reply : Submit)
  /-- A queued legacy request was executed. -/
  | legacyRun (r : LegacyReq)

/-- One turn of a task: where it goes on (`none` when it ends) and what it did. -/
structure Turn where
  task : Option Task
  st : St
  fx : List Effect := []
  events : List Event := []
  draining : Bool
  /-- Transactions accepted in this turn. -/
  accepted : Nat := 0

def Task.turn (cfg : Config) (bootId : String) (uid : Nat) (st : St) (draining : Bool)
    (i : Input) : Task → Turn
  | .submit req opId =>
      match st.refuse req opId with
      | some r => { task := none, st, draining, events := [.answer opId r] }
      | none => { task := some (.submitRead req opId), st, draining }
  | .submitRead req opId =>
      match St.capture i.reading with
      | .error e => { task := none, st, draining, events := [.answer opId (.noCapture e)] }
      | .ok c =>
          match st.refuse req opId with
          | some r => { task := none, st, draining, events := [.answer opId r] }
          | none =>
              let (st', fx) := st.accept cfg req opId uid c bootId i.now
              { task := some (.submitWrite req opId uid), st := st', fx, draining, accepted := 1 }
  | .submitWrite req opId uid =>
      { task := some (.submitWait req opId uid), st, draining
        events := [.write uid .apply req.target] }
  | .submitWait req opId uid =>
      let reached :=
        match i.written with
        | .ok _ => true
        | .error e => e.timedOut
      let fx :=
        if reached then [Effect.setOwner req.spec.item req.source req.undo req.target opId] else []
      { task := some (.submitBack req opId uid i.written), st, fx, draining }
  | .submitBack _ opId _ result =>
      let (st', fx, live) := st.wrote opId result i.now
      let reply := Submit.applied (result.mapError WriteError.message) (st'.find opId)
      { task := some (if live then .drive opId else .kick), st := st', fx, draining
        events := [.answer opId reply] }
  | .drive opId =>
      match st.live opId with
      | none => { task := some .kick, st, draining }
      | some t =>
          if t.phase = .rollingBack ∧ t.intent = some .rollback then
            { task := some (.rollback opId t.uid t.rollbackTo t.generation (Spec.find t.action)), st
              draining }
          else { task := some (.sleep opId t.generation (Spec.find t.action)), st, draining }
  | .rollback opId uid value generation spec =>
      match st.live opId with
      | none => { task := some (.drive opId), st, draining }
      | some _ =>
          let (st', fx) := st.persist true
          let next :=
            match spec with
            | some spec => Task.rollbackRead opId uid value generation spec
            | none => .rollbackSkip opId uid
          { task := some next, st := st', fx, draining }
  | .rollbackRead opId uid value generation spec =>
      let (st', fx, check) := st.rollbackCheck opId i.reading
      match check with
      | .gone => { task := some (.drive opId), st := st', fx, draining }
      | .send => { task := some (.rollbackWrite opId uid value), st := st', fx, draining }
      -- nothing sent: an ordinary beat, then the loop tries again
      | .retry => { task := some (.sleep opId generation (some spec)), st := st', fx, draining }
  | .rollbackWrite opId uid value =>
      { task := some (.rollbackWait opId uid), st, draining
        events := [.write uid .rollback value] }
  | .rollbackWait opId _ | .rollbackSkip opId _ =>
      let (st', fx) := st.rollbackSent opId i.now
      { task := some (.drive opId), st := st', fx, draining }
  | .sleep opId generation spec =>
      { task := some (if i.wake then .drive opId else .read opId generation spec), st, draining }
  | .read opId generation spec =>
      match spec, i.reading with
      | some _, .ok r =>
          match st.live opId with
          | none => { task := some .kick, st, draining }
          | some t =>
              match t.wantsProbe r i.now with
              | some _ => { task := some (.probe opId generation r), st, draining }
              | none => { task := some (.feed opId generation (some r)), st, draining }
      | _, _ => { task := some (.feed opId generation none), st, draining }
  | .probe opId generation r =>
      { task := some (.feed opId generation (some { r with probe := some i.probe })), st
        draining }
  | .feed opId generation reading =>
      match st.live opId with
      | none => { task := some .kick, st, draining }
      | some _ =>
          let (st', fx) := st.feed opId generation reading i.now
          { task := some (.drive opId), st := st', fx, draining }
  | .kick => { task := if draining then none else some .drain, st, draining := true }
  | .drain =>
      let (st', fx, r) := st.popLegacy cfg i.now
      match r with
      | some r => { task := some (.drainRun r), st := st', fx, draining }
      | none => { task := some .drainLower, st := st', fx, draining }
  | .drainRun r =>
      if i.ran then { task := some .drain, st, draining, events := [.legacyRun r] }
      else { task := some (.drainBack r), st, draining }
  | .drainBack r => { task := some .drain, st := st.putBackLegacy r, draining }
  | .drainLower => { task := some .drainMore, st, draining := false }
  | .drainMore =>
      let more := st.active.isNone && st.session.isNone && !st.legacy.isEmpty
      { task := if more then some .drainRetry else none, st, draining }
  | .drainRetry => { task := if draining then none else some .drain, st, draining := true }
  | .timer id =>
      let (st', fx) := st.reapSession i.now
      let ended :=
        match st'.session with
        | some s => decide (s.id ≠ id)
        | none => true
      { task := some (if ended then .kick else .timer id), st := st', fx, draining }

/-! ### Calls -/

/-- A call that is one locked section. -/
inductive Call where
  | revert (opId : String)
  | keep (opId : String)
  | preempt
  | otherWrite (source : Source)
  | interrupt (source : Source) (what : String)
  | legacyGate (item : Option String) (safety : Bool)
  | enqueueLegacy (item action : String) (params : Value) (now : Nat)
  | clearLegacy (why : String)
  | sessionOpen (source : Source) (id : String) (now : Nat)
  | sessionRenew (id : String) (now : Nat)
  | sessionClose (id : String) (result : Option String) (now : Nat)
  | sessionGate (action : String) (session : Option String) (now : Nat)
  | ack (opId : String) (source : Source)
  | noticeAck (source : Source)
  | publishNow

/-- The section of a call, and the task it leaves behind: a pending wake-up of the
    legacy queue, or the timer of a session. -/
def Call.turn (st : St) (draining : Bool) : Call → Turn
  | .revert opId =>
      let (st, fx, _) := st.revert opId
      { task := none, st, fx, draining }
  | .keep opId =>
      let (st, fx, r) := st.keep opId
      { task := if r.toBool then some .kick else none, st, fx, draining }
  | .preempt =>
      let (st, fx) := st.preempt
      { task := none, st, fx, draining }
  | .otherWrite source =>
      let kicks := st.active.isSome && source.isUser
      let (st, fx, _) := st.otherWrite source
      { task := if kicks then some .kick else none, st, fx, draining }
  | .interrupt source what =>
      let (st, fx, interrupted) := st.interrupt source what
      { task := if interrupted then some .kick else none, st, fx, draining }
  | .legacyGate item safety =>
      let (st, fx, _) := st.legacyGate item safety
      { task := none, st, fx, draining }
  | .enqueueLegacy item action params now =>
      let (st, fx) := st.enqueueLegacy item action params now
      { task := some .kick, st, fx, draining }
  | .clearLegacy why =>
      let (st, fx) := st.dropLegacy why
      { task := none, st, fx, draining }
  | .sessionOpen source id now =>
      let (st, fx, r) := st.sessionOpen source id now
      { task := if r.toBool then some (.timer id) else none, st, fx, draining }
  | .sessionRenew id now =>
      let (st, fx, _) := st.sessionRenew id now
      { task := none, st, fx, draining }
  | .sessionClose id result now =>
      let (st, fx, r) := st.sessionClose id result now
      { task := if r.toBool then some .kick else none, st, fx, draining }
  | .sessionGate action session now =>
      let (st, fx, _) := st.sessionGate action session now
      { task := none, st, fx, draining }
  | .ack opId source =>
      let (st, fx, _) := st.ack opId source
      { task := none, st, fx, draining }
  | .noticeAck source =>
      let (st, fx) := st.noticeAck source
      { task := none, st, fx, draining }
  | .publishNow => { task := none, st, fx := [.publish st], draining }

/-! ### Starting -/

/-- `Engine::new`: what the process remembers from disk. -/
def Disk.boot (d : Disk) : St := { last := d.last, noticeAcked := d.notice }

/-- `Engine::start`: a saved transaction goes on, or is dropped when the takeover
    marker says that the device was written behind our back. -/
def Disk.start (d : Disk) (bootId : String) (now : Nat) : St × List Effect :=
  let fx := if d.takeover then [Effect.takeTakeover] else []
  match d.pending with
  | none => (d.boot, fx)
  | some t =>
      let t := if d.takeover then t.cancel .takeover else (t.resume bootId now).1
      let (st, fx₁) := (d.boot.setActive t).persist true
      let (st, fx₂) := st.finish
      (st, fx ++ fx₁ ++ fx₂)

/-! ### The system -/

structure World where
  up : Bool := false
  bootId : String := ""
  st : St := {}
  draining : Bool := false
  disk : Disk := {}
  tasks : Nat → Option Task := fun _ => none
  nextUid : Nat := 0
  log : List Event := []

/-- One thing that happens. -/
inductive Act where
  /-- A client calls `submit`; `fresh` is the op_id drawn when it gives none. -/
  | submit (key : Nat) (req : Request) (fresh : String)
  | task (key : Nat) (i : Input)
  | call (key : Nat) (c : Call)
  /-- The client is gone: its `submit` is dropped at an await. -/
  | drop (key : Nat)
  | start (key : Nat) (bootId : String) (now : Nat)
  | takeover
  /-- The process dies between two sections. -/
  | crash
  /-- The process dies inside a section, after `n` of its effects. -/
  | crashTask (key : Nat) (i : Input) (n : Nat)
  | crashCall (c : Call) (n : Nat)
  | crashStart (bootId : String) (now : Nat) (n : Nat)

def setTask (tasks : Nat → Option Task) (key : Nat) (task : Option Task) : Nat → Option Task :=
  fun k => if k = key then task else tasks k

namespace World

def turnOf (cfg : Config) (w : World) (t : Task) (i : Input) : Turn :=
  t.turn cfg w.bootId w.nextUid w.st w.draining i

/-- Take a turn: the effects happen, then what it did outside the lock. -/
def take (w : World) (key : Nat) (turn : Turn) : World :=
  { w with
    st := turn.st
    draining := turn.draining
    disk := w.disk.applyAll turn.fx
    tasks := setTask w.tasks key turn.task
    nextUid := w.nextUid + turn.accepted
    log := w.log ++ (turn.fx.map .fx ++ turn.events) }

/-- Die after the given effects: files stay, memory and tasks are gone. -/
def die (w : World) (fx : List Effect) (accepted : Nat) : World :=
  { w with
    up := false
    st := {}
    draining := false
    disk := w.disk.applyAll fx
    tasks := fun _ => none
    nextUid := w.nextUid + accepted
    log := w.log ++ fx.map .fx }

/-- The tasks a started process begins with: a driver, if a transaction goes on. -/
def startTasks (st : St) (key : Nat) : Nat → Option Task :=
  setTask (fun _ => none) key (st.active.map fun t => Task.drive t.opId)

def next (cfg : Config) (w : World) : Act → Option World
  | .submit key req fresh =>
      if w.up ∧ (w.tasks key).isNone then
        some { w with tasks := setTask w.tasks key (some (.submit req (req.opId.getD fresh))) }
      else none
  | .task key i =>
      match w.tasks key with
      | some t => some (w.take key (w.turnOf cfg t i))
      | none => none
  | .call key c =>
      if w.up ∧ (w.tasks key).isNone then some (w.take key (c.turn w.st w.draining)) else none
  | .drop key =>
      match w.tasks key with
      | some (.submitRead ..) | some (.submitWait ..) =>
          some { w with tasks := setTask w.tasks key none }
      | _ => none
  | .start key bootId now =>
      if w.up then none
      else
        let (st, fx) := w.disk.start bootId now
        some
          { w with
            up := true
            bootId := bootId
            st := st
            draining := false
            disk := w.disk.applyAll fx
            tasks := startTasks st key
            log := w.log ++ fx.map .fx }
  | .takeover => some { w with disk := { w.disk with takeover := true } }
  | .crash => if w.up then some (w.die [] 0) else none
  | .crashTask key i n =>
      match w.tasks key with
      | some t =>
          let turn := w.turnOf cfg t i
          some (w.die (turn.fx.take n) turn.accepted)
      | none => none
  | .crashCall c n =>
      if w.up then some (w.die ((c.turn w.st w.draining).fx.take n) 0) else none
  | .crashStart bootId now n =>
      if w.up then none else some (w.die ((w.disk.start bootId now).2.take n) 0)

/-- The device write this action starts, if any. -/
def starts (w : World) : Act → Option (Nat × Intent × String)
  | .task key _ =>
      match w.tasks key with
      | some (.submitWrite req _ uid) => some (uid, .apply, req.target)
      | some (.rollbackWrite _ uid value) => some (uid, .rollback, value)
      | _ => none
  | _ => none

end World

end Datad
