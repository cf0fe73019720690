/-
  Datad/Server/Owners.lean
  ========================
  **Who wrote an item last** (`Record::set_owner`, `Engine::submit`, `control_job`).

  The record keeps an owner for each item that is described.  A `submit` hands its write
  to the executor, waits for what comes back, and then records its source; the job of an
  old request writes and records in the executor, and records nothing unless the call
  succeeded.  The executor does one write at a time, but a `submit` whose write is done
  may go on at any later time, or not at all when its client is gone.

  `Owned` is the server in one process, with the record on.  Its reads, its rounds and
  its rollbacks only take time in the executor and are not in the queue here.
-/
import Datad.Server.Machine

namespace Datad

/-! ### The record -/

def MAX_STRING : Nat := 256

/-- The longest beginning of at most `n` bytes that ends between two characters. -/
def cut : Nat → List Char → List Char
  | _, [] => []
  | n, c :: cs => if c.utf8Size ≤ n then c :: cut (n - c.utf8Size) cs else []

def clip (s : String) : String :=
  if s.utf8ByteSize ≤ MAX_STRING then s else String.ofList (cut MAX_STRING s.toList) ++ "…"

/-- An entry of the owners, less its times. -/
structure Owner where
  source : Source
  user : Bool
  undo : Bool
  value : String
  opId : Option String
deriving DecidableEq, Repr

def setOwner (owners : String → Option Owner) (item : String) (source : Source) (undo : Bool)
    (value : String) (opId : Option String) : String → Option Owner :=
  fun k =>
    if k = item then some { source, user := source.isUser, undo, value := clip value, opId }
    else owners k

/-- What an effect of the engine does to the owners. -/
def ownersAfter (owners : String → Option Owner) : Effect → String → Option Owner
  | .setOwner item source undo value opId => setOwner owners item source undo value (some opId)
  | _ => owners

/-! ### Writes that are no transactions -/

/-- What is recorded of a write, less the line of the journal. -/
structure JournalWrite where
  source : Source
  /-- The item and the value, if the action is described. -/
  item : Option (String × String)

def JournalWrite.new (action : String) (b : Body) : Option JournalWrite :=
  if action = "sms.mark_read" then none
  else
    some
      { source := b.sourceOf.getD .legacy
        item :=
          match Spec.find action with
          | some spec =>
              match spec.target b.params with
              | .ok value => some (spec.item, value)
              | .error _ => none
          | none => none }

def JournalWrite.owner (w : JournalWrite) (owners : String → Option Owner) :
    String → Option Owner :=
  match w.item with
  | some (item, value) => setOwner owners item w.source false value none
  | none => owners

/-- The actions after which the device is gone. -/
def endsDevice (action : String) (b : Body) : Bool :=
  decide (action = "device.reboot") || decide (action = "device.poweroff") ||
    (decide (action = "vendor.call") &&
      (decide (b.paramStr "object" = some "zwrt_mc.device.manager") &&
          decide (b.paramStr "method" = some "device_reset") ||
        decide (b.paramStr "object" = some "system") &&
          decide (b.paramStr "method" = some "reboot")))

namespace Job

def journal (j : Job) : Option JournalWrite :=
  if writes j.action then JournalWrite.new j.action j.body else none

/-- The owners after the job; `ok` is whether its response is a success. -/
def owners (j : Job) (owners : String → Option Owner) (ok : Bool) : String → Option Owner :=
  match j.journal with
  | some w => if ok && !endsDevice j.action j.body then w.owner owners else owners
  | none => owners

/-- The item that the device call of the job has written, and for whom. -/
def written (j : Job) (phase : JobPhase) : Option (String × Source) :=
  if phase = .acted then
    match j.journal with
    | some w => w.item.map fun i => (i.1, w.source)
    | none => none
  else none

end Job

/-- The task in this slot waits for the write of this request. -/
def World.Waits (w : World) (key : Nat) (req : Request) : Prop :=
  ∃ opId uid, w.tasks key = some (.submitWait req opId uid)

/-! ### The machine -/

/-- The write has reached the device, or may have. -/
def reached : Except WriteError Value → Bool
  | .ok _ => true
  | .error e => e.timedOut

/-- What the executor has to do. -/
inductive Slot where
  /-- The next job of a request. -/
  | control
  /-- The write of a `submit`, and the task that waits for it, unless it was dropped. -/
  | write (item : String) (source : Source) (waiter : Option Nat)

namespace Slot

def waiter : Slot → Option Nat
  | .control => none
  | .write _ _ waiter => waiter

/-- Nobody waits in this slot any more. -/
def forget (key : Nat) : Slot → Slot
  | .control => .control
  | .write item source waiter => .write item source (waiter.filter fun k => decide (k ≠ key))

end Slot

structure Owned where
  server : Server := {}
  order : List Slot := []
  /-- What the write of the `submit` in this slot came back with, until it goes on. -/
  answers : Nat → Option (Except WriteError Value) := fun _ => none
  owners : String → Option Owner := fun _ => none
  /-- Who made the last forward write of an item that reached the device (observer). -/
  last : String → Option Source := fun _ => none

namespace Owned

inductive Act where
  /-- A step of the server that waits for no write. -/
  | server (a : Server.Act)
  /-- The executor has done the write of a `submit`. -/
  | answer (r : Except WriteError Value)
  /-- A `submit` goes on after its write. -/
  | resume (key : Nat) (i : Input)
  /-- The job of a request is over; `r` is what its device call came back with. -/
  | done (r : Except WriteError Value)

def admits (s : Owned) : Server.Act → Bool
  | .pop =>
      match s.order with
      | .control :: _ => true
      | _ => false
  | .finish => false
  | .world (.task key _) =>
      match s.server.world.tasks key with
      | some (.submitWait ..) => false
      | _ => true
  | .world (.drop _) | .world (.call ..) | .world .takeover => true
  | .world _ => false
  | _ => true

def orderAfter (s : Owned) (a : Server.Act) (server : Server) : List Slot :=
  match a with
  | .pop => s.order.tail
  | .world (.task key _) =>
      match s.server.world.tasks key with
      | some (.submitWrite req _ _) => s.order ++ [.write req.spec.item req.source (some key)]
      | _ => s.order
  | .world (.drop key) => s.order.map (Slot.forget key)
  | _ => if s.server.jobs.length < server.jobs.length then s.order ++ [.control] else s.order

def answersAfter (s : Owned) : Server.Act → Nat → Option (Except WriteError Value)
  | .world (.drop key) => setAt s.answers key none
  | _ => s.answers

/-- The observer notes a write that has reached the device. -/
def lastAfter (s : Owned) (item : String) (source : Source) (r : Except WriteError Value) :
    String → Option Source :=
  fun k => if reached r ∧ k = item then some source else s.last k

/-- The write of the job that is being done. -/
def writing (s : Owned) : Option (String × Source) := s.server.running.bind fun r => r.1.written r.2

/-- A response is a success if the device call was made and came back well. -/
def success (phase : JobPhase) (r : Except WriteError Value) : Bool :=
  decide (phase = .acted) && r.toBool

def next (cfg : Config) (s : Owned) : Act → Option Owned
  | .server a =>
      if s.admits a then
        (s.server.next cfg a).map fun server =>
          { s with server, order := s.orderAfter a server, answers := s.answersAfter a }
      else none
  | .answer r =>
      match s.server.running, s.order with
      | none, .write item source waiter :: rest =>
          some
            { s with
              order := rest
              answers :=
                match waiter with
                | some key => setAt s.answers key (some r)
                | none => s.answers
              last := s.lastAfter item source r }
      | _, _ => none
  | .resume key i =>
      match s.server.world.tasks key, s.answers key with
      | some (.submitWait req opId uid), some r =>
          let i := { i with written := r }
          (s.server.next cfg (.world (.task key i))).map fun server =>
            { s with
              server
              answers := setAt s.answers key none
              owners :=
                (s.server.world.turnOf cfg (.submitWait req opId uid) i).fx.foldl ownersAfter
                  s.owners }
      | _, _ => none
  | .done r =>
      match s.server.running with
      | some (j, phase) =>
          (s.server.next cfg .finish).map fun server =>
            { s with
              server
              owners := j.owners s.owners (success phase r)
              last :=
                match j.written phase with
                | some (item, source) => s.lastAfter item source r
                | none => s.last }
      | none => none

/-! ### When the owners are right -/

/-- The write of the `submit` in this slot has reached the device, and its source is not recorded
    yet. -/
def Unrecorded (s : Owned) (key : Nat) (req : Request) : Prop :=
  s.server.world.Waits key req ∧ ∃ r, s.answers key = some r ∧ reached r = true

/-- No other source is about to be recorded for the item. -/
def Clear (s : Owned) (item : String) (source : Source) : Prop :=
  ∀ key req, s.Unrecorded key req → req.spec.item = item → req.source = source

/-- The source that the record names for an item. -/
def owner (s : Owned) (item : String) : Option Source := (s.owners item).map Owner.source

/-- No write reaches the device between a write of another source and its record, and a write
    that will not be recorded is by the source that wrote last: the write of a request that
    has timed out, or of a `submit` whose client is gone. -/
def Orderly (s : Owned) : Act → Prop
  | .answer r =>
      ∀ item source waiter rest, s.order = .write item source waiter :: rest → reached r = true →
        (waiter ≠ none → s.Clear item source) ∧ (waiter = none → s.last item = some source)
  | .done r =>
      ∀ item source, s.writing = some (item, source) → reached r = true →
        (r.toBool = true → s.Clear item source) ∧
          (r.toBool = false → s.last item = some source)
  | .server (.world (.drop key)) =>
      ∀ req, s.Unrecorded key req → s.owner req.spec.item = some req.source
  | _ => True

/-- A task of a `submit`. -/
def submits : Task → Bool
  | .submit .. | .submitRead .. | .submitWrite .. | .submitWait .. | .submitBack .. => true
  | _ => false

/-- All operations have returned. -/
structure Quiet (s : Owned) : Prop where
  reqs : ∀ id, s.server.reqs id = none
  jobs : s.server.jobs = []
  running : s.server.running = none
  order : s.order = []
  submits : ∀ key T, s.server.world.tasks key = some T → submits T = false

/-- Nothing was written yet. -/
structure Fresh (s : Owned) : Prop where
  order : s.order = []
  answers : ∀ key, s.answers key = none
  last : ∀ item, s.last item = none

end Owned

end Datad
