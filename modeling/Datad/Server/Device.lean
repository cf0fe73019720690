/-
  Datad/Server/Device.lean
  ========================
  **The server and the device it writes to** (`UbusDevice` of `ops/mod.rs`).

  The device has one register for each item.  A write call is under way from its start
  until it takes effect or is lost; a call that has timed out on our side may still
  take effect, and so may one whose process is gone.  `read` makes several calls, of
  which the first brings the value: a `submit` looks at the register at one time and
  gets the whole reading at a later one.  Nobody else writes the items.

  The observer notes which writes took effect since a `submit` has looked, and what the
  register held when a transaction was accepted.
-/
import Datad.Server.Machine
import Datad.Ops.Supersession

namespace Datad

/-- A write call that is under way. -/
structure Flight where
  item : String
  value : String
deriving DecidableEq

/-- A transaction as it was accepted, and what its item's register held. -/
structure Snapshot where
  acceptance : Acceptance
  held : String

structure Device where
  server : Server := {}
  regs : String → String
  flights : List Flight := []
  /-- What the `submit` in this slot has read of the value of its item. -/
  looks : Nat → Option String := fun _ => none
  /-- The item that the rollback in this slot writes. -/
  items : Nat → String := fun _ => ""
  /-- The writes of the item that took effect since the `submit` has looked (observer). -/
  since : Nat → List String := fun _ => []
  /-- The accepted transactions (observer). -/
  snapshots : List Snapshot := []

namespace Device

inductive Act where
  | server (a : Server.Act)
  /-- The first call of `read` is answered for a `submit`. -/
  | look (key : Nat)
  /-- A write takes effect. -/
  | land (n : Nat)
  | lose (n : Nat)

/-! ### Reading -/

/-- The value in a reading; an empty one counts as not reported. -/
def reported (v : String) : Option String := if v = "" then none else some v

/-- The reading that a `submit` gets carries what it has looked at. -/
def answers (s : Device) (key : Nat) (i : Input) : Bool :=
  match s.server.world.tasks key, i.reading with
  | some (.submitRead ..), .ok r =>
      (s.looks key).any fun v => decide (r.value = reported v)
  | _, _ => true

def truthful (s : Device) : Server.Act → Bool
  | .world (.task key i) => s.answers key i
  | .world (.crashTask key i _) => s.answers key i
  | _ => true

/-- Is the `submit` in this slot reading the item? -/
def reads (s : Device) (key : Nat) (item : String) : Bool :=
  match s.server.world.tasks key with
  | some (.submitRead req _) => decide (req.spec.item = item)
  | _ => false

/-! ### Writing -/

/-- The write of an item that an action of the server starts. -/
def starts (s : Device) : Server.Act → List Flight
  | .execute =>
      match s.server.running with
      | some (j, phase) =>
          if j.mayAct phase then
            match Spec.find j.action with
            | some spec =>
                match spec.target j.body.params with
                | .ok value => [{ item := spec.item, value }]
                | .error _ => []
            | none => []
          else []
      | none => []
  | .world (.task key _) =>
      match s.server.world.tasks key with
      | some (.submitWrite req _ _) => [{ item := req.spec.item, value := req.target }]
      | some (.rollbackWrite _ _ value) => [{ item := s.items key, value }]
      | _ => []
  | _ => []

/-- `send_rollback` keeps the description of the action it read the device for. -/
def itemsAfter (s : Device) : Server.Act → Nat → String
  | .world (.task key _) =>
      match s.server.world.tasks key with
      | some (.rollbackRead _ _ _ _ spec) => setAt s.items key spec.item
      | _ => s.items
  | _ => s.items

/-- A look is for one reading. -/
def looksAfter (s : Device) : Server.Act → Nat → Option String
  | .world (.task key _) => setAt s.looks key none
  | _ => s.looks

/-! ### The machine -/

/-- The transactions that an action of the server has accepted. -/
def news (cfg : Config) (s : Device) : Server.Act → List Acceptance
  | .world a => chronicle cfg s.server.world a s.server.world []
  | _ => []

def serve (cfg : Config) (s : Device) (a : Server.Act) : Option Device :=
  if s.truthful a then
    (s.server.next cfg a).map fun server =>
      { s with
        server
        flights := s.flights ++ s.starts a
        looks := s.looksAfter a
        items := s.itemsAfter a
        snapshots := s.snapshots ++
          (s.news cfg a).map fun e => { acceptance := e, held := s.regs e.txn.item } }
  else none

def next (cfg : Config) (s : Device) : Act → Option Device
  | .server a => s.serve cfg a
  | .look key =>
      match s.server.world.tasks key, s.looks key with
      | some (.submitRead req _), none =>
          some
            { s with
              looks := setAt s.looks key (some (s.regs req.spec.item))
              since := setAt s.since key [] }
      | _, _ => none
  | .land n =>
      s.flights[n]?.map fun f =>
        { s with
          regs := fun item => if item = f.item then f.value else s.regs item
          flights := s.flights.eraseIdx n
          since := fun key => if s.reads key f.item then s.since key ++ [f.value] else s.since key }
  | .lose n => s.flights[n]?.map fun _ => { s with flights := s.flights.eraseIdx n }

end Device

end Datad
