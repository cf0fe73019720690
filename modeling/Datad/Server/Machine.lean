/-
  Datad/Server/Machine.lean
  =========================
  **Requests, the engine and the executor together** (`server/write.rs`, the queue of
  `executor.rs`).

  A `/control` request goes through `handle` in stages, each at most one locked section
  of the engine.  What passes becomes a job of the executor, which does one job at a
  time in the order they came; the drain task of the engine hands in its requests the
  same way.  Requests, tasks and the executor run side by side, so any of them may move
  next.  The engine's own device calls are tasks of `World` and take any time.

  Some fields belong to an observer: how many sessions were opened, which session was
  open when a request came, and whether a flush came over a request that waited.  The
  code does not keep these.
-/
import Datad.Server.Control

namespace Datad

/-! ### State -/

/-- A queued legacy request. -/
structure Ticket where
  req : LegacyReq
  /-- The session that was open when the request was received (observer). -/
  under : Option Nat := none
  /-- The queue was flushed after the request was queued and before it was handed to the
      executor (observer). -/
  flushed : Bool := false

/-- The request as the drain task makes it up for `run_control`. -/
def Ticket.body (t : Ticket) : Body := { params := t.req.params }

/-- A job of the executor that handles a request. -/
structure Job where
  control : Bool
  action : String
  body : Body
  /-- The drain task that waits for the job. -/
  origin : Option Nat := none
  under : Option Nat := none
  flushed : Bool := false

/-- The job that is being done: before `other_write_gate`, past it, and after a call of
    the device. -/
inductive JobPhase where
  | start | ready | acted
deriving DecidableEq, Repr

/-- Does the job have to pass `other_write_gate`? -/
def Job.gated (j : Job) : Bool :=
  writes j.action && !isSafety j.action j.body.params && affectsNetwork j.action j.body.params

/-- May the job call the device now?  A described action makes one call, if its target is
    valid; others may make several. -/
def Job.mayAct (j : Job) (phase : JobPhase) : Bool :=
  writes j.action &&
    match Spec.find j.action with
    | some spec => decide (phase = .ready) && (spec.target j.body.params).toBool
    | none => decide (phase ≠ .start)

/-- Where a request stands in `handle`. -/
inductive Stage where
  | route
  | gate (source : Source)
  | submit (req : Request)
  | admission
  | enqueue (item : String)
  | clear
  | push
  | pushTask

structure Pending where
  action : String
  body : Body
  stage : Stage
  under : Option Nat

def Pending.job (p : Pending) (control : Bool) : Job :=
  { control, action := p.action, body := p.body, under := p.under }

/-- The call of the runner by a drain task. -/
inductive Run where
  | idle
  /-- Popped, not handed to the executor. -/
  | held (t : Ticket)
  | queued
  | done

structure Server where
  world : World := {}
  reqs : Nat → Option Pending := fun _ => none
  jobs : List Job := []
  running : Option (Job × JobPhase) := none
  runs : Nat → Run := fun _ => .idle
  /-- How many sessions were opened so far (observer). -/
  sessions : Nat := 0
  /-- The legacy queue, request by request (observer). -/
  line : List Ticket := []
  /-- The session that was open when a `submit` was received (observer). -/
  unders : Nat → Option Nat := fun _ => none

def CONTROL_QUEUE : Nat := 8

def setAt {α : Type} (f : Nat → α) (key : Nat) (v : α) : Nat → α :=
  fun k => if k = key then v else f k

/-! ### Steps of the engine, as the observer sees them -/

/-- The calls that empty the legacy queue. -/
def Call.flushes : Call → Bool
  | .preempt | .clearLegacy _ | .legacyGate _ true => true
  | _ => false

/-- Does the call open a session? -/
def Call.opens (st : St) : Call → Bool
  | .sessionOpen source id now => (st.sessionOpen source id now).2.2.toBool
  | _ => false

def Run.flush : Run → Run
  | .held t => .held { t with flushed := true }
  | r => r

/-- The legacy queue after a call. -/
def Call.lineAfter (under : Option Nat) (line : List Ticket) : Call → List Ticket
  | .enqueueLegacy item action params now =>
      (line.filter fun t => decide (t.req.item ≠ item)) ++
        [{ req := { item, action, params, atMs := now }, under }]
  | c => if c.flushes then [] else line

/-- What the drain task takes out of the queue, and what it leaves there. -/
def popLine (cfg : Config) (st : St) (line : List Ticket) (now : Nat) :
    Option Ticket × List Ticket :=
  if st.active.isSome || st.session.isSome then (none, line)
  else
    match line.filter fun t => decide (now - t.req.atMs < cfg.legacyTtlMs) with
    | [] => (none, [])
    | t :: rest => (some t, rest)

def putBackLine (line : List Ticket) (t : Ticket) : List Ticket :=
  if line.any fun q => decide (q.req.item = t.req.item) then line else t :: line

namespace Server

/-- The session that is open. -/
def current (s : Server) : Option Nat :=
  if s.world.st.session.isSome then some s.sessions else none

/-- A call of the engine; `under` is the label of the request it is made for. -/
def call (cfg : Config) (s : Server) (key : Nat) (c : Call) (under : Option Nat) :
    Option Server :=
  (s.world.next cfg (.call key c)).map fun w =>
    { s with
      world := w
      sessions := if c.opens s.world.st then s.sessions + 1 else s.sessions
      line := c.lineAfter under s.line
      runs := if c.flushes then fun k => (s.runs k).flush else s.runs }

/-- A turn of a task of the engine. -/
def turn (cfg : Config) (s : Server) (key : Nat) (i : Input) : Option Server :=
  (s.world.next cfg (.task key i)).map fun w =>
    match s.world.tasks key with
    | some .drain =>
        match popLine cfg s.world.st s.line i.now with
        | (some t, line) => { s with world := w, line, runs := setAt s.runs key (.held t) }
        | (none, line) => { s with world := w, line }
    | some (.drainBack _) =>
        match s.runs key with
        | .held t =>
            { s with world := w, line := putBackLine s.line t, runs := setAt s.runs key .idle }
        | _ => { s with world := w }
    | _ => { s with world := w }

/-- A new process, or none: nothing of the old one's memory is left. -/
def reset (s : Server) (w : World) : Server := { world := w, sessions := s.sessions }

/-! ### `handle` -/

def setReq (s : Server) (id : Nat) (p : Option Pending) : Server :=
  { s with reqs := setAt s.reqs id p }

/-- The control queue is full. -/
def busy (s : Server) : Bool := decide (s.jobs.countP Job.control ≥ CONTROL_QUEUE)

def addJob (s : Server) (j : Job) : Server := { s with jobs := s.jobs ++ [j] }

/-- Where a request goes that `ops_route` has decided on without a lock. -/
def routed (s : Server) (id : Nat) (p : Pending) : Route → Server
  | .answer | .call _ => s.setReq id none
  | .gate source => s.setReq id (some { p with stage := .gate source })
  | .submit req => s.setReq id (some { p with stage := .submit req })
  | .pass => s.setReq id (some { p with stage := .admission })

/-- The next stage of a request.  `key` is the slot of a task it leaves behind, `fresh` an
    id that is drawn. -/
def handle (cfg : Config) (s : Server) (id key : Nat) (fresh : String) (now : Nat)
    (p : Pending) : Option Server :=
  let safety := isSafety p.action p.body.params
  match p.stage with
  | .route =>
      match opsRoute p.action p.body fresh now with
      | .call c => (s.call cfg key c p.under).map fun s => s.setReq id none
      | r => some (s.routed id p r)
  | .gate source =>
      let (_, _, r) := s.world.st.sessionGate p.action p.body.sessionOf now
      (s.call cfg key (.sessionGate p.action p.body.sessionOf now) p.under).map fun s =>
        match r with
        | .ok () => s.routed id p (describedRoute p.action p.body source)
        | .error _ => s.setReq id none
  | .submit req =>
      (s.world.next cfg (.submit key req fresh)).map fun w =>
        { s with world := w, unders := setAt s.unders key p.under }.setReq id none
  | .admission =>
      let onward (s : Server) : Server := s.setReq id (some { p with stage := .clear })
      if p.body.source.isSome then
        if safety then (s.call cfg key .preempt p.under).map onward else some (onward s)
      else
        let item := legacyItem p.action p.body
        let (_, _, g) := s.world.st.legacyGate item safety
        (s.call cfg key (.legacyGate item safety) p.under).map fun s =>
          match g, item with
          | .queue, some item => s.setReq id (some { p with stage := .enqueue item })
          | _, _ => onward s
  | .enqueue item =>
      (s.call cfg key (.enqueueLegacy item p.action p.body.params now) p.under).map fun s =>
        s.setReq id none
  | .clear =>
      let onward (s : Server) : Server := s.setReq id (some { p with stage := .push })
      if p.action = "device.reboot" ∨ p.action = "device.poweroff" then
        (s.call cfg key (.clearLegacy p.action) p.under).map onward
      else some (onward s)
  | .push =>
      if !s.busy then some ((s.addJob (p.job true)).setReq id none)
      else if safety then some (s.setReq id (some { p with stage := .pushTask }))
      else
        match legacyItem p.action p.body with
        | some item => some (s.setReq id (some { p with stage := .enqueue item }))
        | none => some (s.setReq id none)
  | .pushTask => some ((s.addJob (p.job false)).setReq id none)

/-! ### The executor -/

/-- The job is over; a drain task that waits for it goes on. -/
def finish (s : Server) (j : Job) : Server :=
  { s with
    running := none
    runs := fun k =>
      match s.runs k with
      | .queued => if j.origin = some k then .done else .queued
      | r => r }

/-! ### The machine -/

inductive Act where
  | receive (id : Nat) (action : String) (body : Body)
  /-- A request takes its next stage. -/
  | handle (id key : Nat) (fresh : String) (now : Nat)
  /-- The executor begins the next job. -/
  | pop
  | check (key : Nat)
  /-- The job calls the device. -/
  | execute
  | finish
  /-- The runner of a drain task hands its request to the executor. -/
  | hand (key : Nat)
  /-- The job of a drain task is done. -/
  | ran (key : Nat)
  /-- A task of the engine moves, a client drops its `submit`, or the process starts or
      dies. -/
  | world (a : Datad.Act)

/-- The steps of the engine that are not made for a request or by the executor. -/
def engine (cfg : Config) (s : Server) : Datad.Act → Option Server
  | .task key i =>
      match s.world.tasks key with
      | some (.drainRun _) => none
      | _ => s.turn cfg key i
  | .drop key => (s.world.next cfg (.drop key)).map fun w => { s with world := w }
  | .call key .publishNow => s.call cfg key .publishNow none
  | .takeover => (s.world.next cfg .takeover).map fun w => { s with world := w }
  | .submit .. | .call .. => none
  | a => (s.world.next cfg a).map s.reset

def next (cfg : Config) (s : Server) : Act → Option Server
  | .receive id action body =>
      if s.world.up ∧ (s.reqs id).isNone then
        some (s.setReq id (some { action, body, stage := .route, under := s.current }))
      else none
  | .handle id key fresh now =>
      match s.reqs id with
      | some p => s.handle cfg id key fresh now p
      | none => none
  | .pop =>
      match s.running, s.jobs with
      | none, j :: rest => some { s with running := some (j, .start), jobs := rest }
      | _, _ => none
  | .check key =>
      match s.running with
      | some (j, .start) =>
          if j.gated then
            let source := j.body.sourceOf.getD .legacy
            let (_, _, r) := s.world.st.otherWrite source
            (s.call cfg key (.otherWrite source) none).map fun s =>
              match r with
              | .ok () => { s with running := some (j, .ready) }
              | .error _ => s.finish j
          else some { s with running := some (j, .ready) }
      | _ => none
  | .execute =>
      match s.running with
      | some (j, phase) =>
          if j.mayAct phase then some { s with running := some (j, .acted) } else none
      | none => none
  | .finish =>
      match s.running with
      | some (j, phase) => if phase = .start then none else some (s.finish j)
      | none => none
  | .hand key =>
      match s.world.tasks key, s.runs key with
      | some (.drainRun _), .held t =>
          if s.busy then s.turn cfg key { ran := false }
          else
            some
              { s.addJob
                  { control := true, action := t.req.action, body := t.body, origin := some key
                    under := t.under, flushed := t.flushed } with
                runs := setAt s.runs key .queued }
      | _, _ => none
  | .ran key =>
      match s.world.tasks key, s.runs key with
      | some (.drainRun _), .done =>
          (s.turn cfg key { ran := true }).map fun s =>
            { s with runs := setAt s.runs key .idle }
      | _, _ => none
  | .world a => s.engine cfg a

/-! ### What the device is asked to do -/

/-- A call that changes the device, made for a request. -/
structure Deed where
  action : String
  params : Value
  /-- The request names no source. -/
  sourceless : Bool
  under : Option Nat
  flushed : Bool

/-- The call of the device an action makes. -/
def deed (s : Server) : Act → Option Deed
  | .execute =>
      match s.running with
      | some (j, phase) =>
          if j.mayAct phase then
            some
              { action := j.action
                params := j.body.params
                sourceless := j.body.source.isNone
                under := j.under
                flushed := j.flushed }
          else none
      | none => none
  | .world (.task key _) =>
      match s.world.tasks key with
      | some (.submitWrite req _ _) =>
          some
            { action := req.spec.action
              params := .obj [(req.spec.param, .str req.target)]
              sourceless := false
              under := s.unders key
              flushed := false }
      | _ => none
  | _ => none

end Server

end Datad
