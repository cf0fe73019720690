/-
  Datad/Ops/Engine.lean
  =====================
  **The locked sections of the transaction engine** (`rust/src/ops/engine.rs`).

  The engine keeps all its decisions under one mutex and never holds it across an
  await.  A locked section is therefore a function of the state `St`; what it does
  to the outside while it holds the lock (files, journal lines, the `op` block) is
  returned as a list of `Effect`s in program order, so that a crash between two of
  them is a prefix of the list.  How the sections are strung together by the
  asynchronous tasks is `Datad.Ops.World`.

  Replies carry the transaction or session they describe; rendering them as JSON
  is not part of this model.
-/
import Datad.Ops.Txn
import Datad.Json

namespace Datad

/-! ### The action table (`spec.rs`) -/

structure Spec where
  action : String
  item : String
  param : String
  deadlineMs : Nat
  deadlineEnv : String
  confirm : Confirm
deriving DecidableEq, Repr

def NETWORK_MODE : String := "network.mode"

def SPECS : List Spec :=
  [{ action := "network.set_mode"
     item := NETWORK_MODE
     param := "mode"
     deadlineMs := 120000
     deadlineEnv := "ZWRT_DATAD_DEADLINE_NETWORK_MODE_MS"
     confirm := .registered }]

def Spec.find (action : String) : Option Spec := SPECS.find? fun s => decide (s.action = action)

/-- The engine's configuration.  `deadlineEnv` is the environment: the number a
    deadline variable holds, if it holds one. -/
structure Config where
  rollback : Bool
  legacyTtlMs : Nat
  deadlineEnv : String → Option Nat

def Spec.deadline (s : Spec) (cfg : Config) : Nat :=
  match cfg.deadlineEnv s.deadlineEnv with
  | some v => if v > 0 then v else s.deadlineMs
  | none => s.deadlineMs

/-! ### Requests, replies, state -/

structure Request where
  spec : Spec
  target : String
  source : Source
  opId : Option String
  undo : Bool
deriving DecidableEq, Repr

structure Session where
  id : String
  source : Source
  openedMs : Nat
  renewedMs : Nat
deriving DecidableEq, Repr

def SESSION_MAX_MS : Nat := 7 * 60000
def SESSION_LEASE_MS : Nat := 60000

def SESSION_STEPS : List String := ["netselect.scan", "netselect.register"]
def SESSION_OPTIONAL : List String := ["netselect.auto", "cellular.redial"]
def SESSION_BLOCKS : List String :=
  ["cellular.set", "network.set_mode", "band.set_lte", "band.set_nr_sa", "band.set_nr_nsa",
    "band.reset", "cell.lock_lte", "cell.lock_nr", "apn.set_mode", "apn.enable", "apn.add",
    "apn.modify", "apn.delete", "modem.online", "apn.set_pdp_type"]

structure LegacyReq where
  item : String
  action : String
  params : Value
  atMs : Nat
deriving DecidableEq, Repr

/-- What a refusal says is going on. -/
inductive Doing where
  | txn (t : Txn)
  | session (s : Session)
deriving DecidableEq, Repr

structure WriteError where
  message : String
  timedOut : Bool
deriving DecidableEq, Repr

inductive Submit where
  | existing (t : Txn)
  | busy (d : Doing)
  | noCapture (message : String)
  | applied (result : Except String Value) (op : Option Txn)

inductive LegacyGate where
  | pass | queue
deriving DecidableEq, Repr

inductive SessionError where
  | busy (d : Doing)
  | gone
deriving DecidableEq, Repr

/-- The most recently finished transaction and whether the user has seen it. -/
structure Last where
  txn : Txn
  acked : Bool
deriving DecidableEq, Repr

def RECENT : Nat := 16
def SEEN_SAVE_MS : Nat := 10000

structure St where
  active : Option Txn := none
  session : Option Session := none
  recent : List Txn := []
  legacy : List LegacyReq := []
  savedSeenMs : Nat := 0
  last : Option Last := none
  noticeAcked : Bool := false
deriving DecidableEq, Repr

/-! ### Effects -/

/-- The journal lines the engine writes, before they are rendered. -/
inductive Line where
  | txn (t : Txn)
  | ack (source : Source) (opId : String) (item : String)
  | noticeAck (source : Source)
  | interrupt (source : Source) (opId : String) (item : String) (what : String)
  | legacy (r : LegacyReq) (result : String) (reason : Option String)
  | session (s : Session) (result : String) (reason : Option String) (ageMs : Nat)
deriving DecidableEq, Repr

inductive Effect where
  | save (t : Txn)
  | clear
  | saveLast (l : Last)
  | saveNotice
  | takeTakeover
  | append (line : Line)
  | setOwner (item : String) (source : Source) (undo : Bool) (value : String) (opId : String)
  | publish (st : St)
deriving DecidableEq, Repr

namespace St

/-! ### `impl St` -/

/-- The active transaction, if it is this one. -/
def live (st : St) (opId : String) : Option Txn :=
  match st.active with
  | some t => if t.opId = opId then some t else none
  | none => none

/-- The transaction whose view a lookup by `op_id` answers. -/
def find (st : St) (opId : String) : Option Txn :=
  match st.live opId with
  | some t => some t
  | none => st.recent.reverse.find? fun t => decide (t.opId = opId)

def remember (st : St) (t : Txn) : St :=
  { st with
    recent := (if st.recent.length ≥ RECENT then st.recent.drop 1 else st.recent) ++ [t] }

/-- Move the active transaction, which is final, to the recent list; a journal
    line and `last.json` record its end.  `pending.json` is left to the caller. -/
def retire (st : St) : St × List Effect :=
  match st.active with
  | none => (st, [])
  | some t =>
      ({ st with active := none, last := some ⟨t, false⟩ }.remember t,
        [.append (.txn t), .saveLast ⟨t, false⟩])

/-- Save the active transaction: always when forced, else every ten seconds; a
    final one is removed from disk instead. -/
def persist (st : St) (force : Bool) : St × List Effect :=
  match st.active with
  | none => (st, [.publish st])
  | some t =>
      if t.phase.isFinal then (st, [.clear])
      else if force || decide (t.seenMs - st.savedSeenMs ≥ SEEN_SAVE_MS) then
        ({ st with savedSeenMs := t.seenMs }, [.publish st, .save t])
      else (st, [.publish st])

/-- Release the lock held by a transaction that has reached a final phase. -/
def finish (st : St) : St × List Effect :=
  match st.active with
  | some t =>
      if t.phase.isFinal then
        let (st, fx) := st.retire
        (st, fx ++ [.clear, .publish st])
      else (st, [])
  | none => (st, [])

def setActive (st : St) (t : Txn) : St := { st with active := some t }

/-! ### Sections of `submit` -/

/-- May the active transaction be overridden by this request?  The same item, a
    source that may, and no write of its own under way. -/
def overridable (t : Txn) (req : Request) : Bool :=
  decide (t.item = req.spec.item) && req.source.mayOverride &&
    (decide (t.phase = .verifying) || decide (t.phase = .rollingBack)) && t.intent.isNone

/-- The refusals of `submit`, checked once before and once after the device is
    read. -/
def refuse (st : St) (req : Request) (opId : String) : Option Submit :=
  match st.find opId with
  | some t => some (.existing t)
  | none =>
      match st.session with
      | some s => some (.busy (.session s))
      | none =>
          match st.active with
          | some t => if overridable t req then none else some (.busy (.txn t))
          | none => none

/-- What `submit` takes from the reading made before the write. -/
structure Capture where
  old : String
  sim : SimId
  conn : Option Conn

def capture (r : Except String Reading) : Except String Capture :=
  match r with
  | .error e => .error ("cannot read current value: " ++ e)
  | .ok r =>
      match r.value with
      | none => .error "cannot read current value: not reported"
      | some v =>
          .ok
            { old := v
              sim := r.sim
              conn := match r.data with
                | some d => if d.conn.addr ≠ "" then some d.conn else none
                | none => none }

/-- The transaction `submit` accepts: a superseded one hands on its rollback
    target. -/
def newTxn (cfg : Config) (st : St) (req : Request) (opId : String) (uid : Nat)
    (c : Capture) (bootId : String) : NewTxn where
  uid := uid
  opId := opId
  action := req.spec.action
  item := req.spec.item
  source := req.source
  undo := req.undo
  target := req.target
  old := c.old
  rollbackTo :=
    match st.active with
    | some t => t.rollbackTo
    | none => c.old
  sim := c.sim
  conn := c.conn
  confirm := req.spec.confirm
  rollbackEnabled := cfg.rollback && decide (req.source ≠ .legacy)
  deadlineMs := req.spec.deadline cfg
  bootId := bootId

/-- End the transaction that is overridden; its file is not removed. -/
def supersede (st : St) : St × List Effect :=
  match st.active with
  | some t => (st.setActive (t.cancel .superseded)).retire
  | none => (st, [])

/-- The accepting half of the second section. -/
def accept (cfg : Config) (st : St) (req : Request) (opId : String) (uid : Nat)
    (c : Capture) (bootId : String) (now : Nat) : St × List Effect :=
  let t := (Txn.new (st.newTxn cfg req opId uid c bootId) now).beginApply
  let (st, fx) := st.supersede
  let (st, fx') := (st.setActive t).persist true
  (st, fx ++ fx')

/-- How the result of the write call is judged. -/
def outcome : Except WriteError Value → Applied
  | .ok _ => .done
  | .error e => if e.timedOut then .unknown else .failed

/-- The third section of `submit`; tells whether the transaction is still live. -/
def wrote (st : St) (opId : String) (result : Except WriteError Value) (now : Nat) :
    St × List Effect × Bool :=
  match st.live opId with
  | some t =>
      let (st, fx) := (st.setActive (t.applied (outcome result) now)).persist true
      (st, fx, true)
  | none =>
      let (st, fx) := st.persist true
      (st, fx, false)

/-! ### Sections of the driver -/

/-- The SIM check before a rollback is sent. -/
inductive RollbackCheck where
  | gone | send | retry
deriving DecidableEq, Repr

def rollbackCheck (st : St) (opId : String) (reading : Except String Reading) :
    St × List Effect × RollbackCheck :=
  match st.live opId with
  | none => (st, [], .gone)
  | some t =>
      let check :=
        match reading with
        | .ok r => simCheck t.sim r.sim
        | .error _ => .unknown
      match check with
      | .same => (st, [], .send)
      | .changed =>
          let (st, fx) := (st.setActive (t.cancel .simChanged)).finish
          (st, fx, .gone)
      | .unknown => (st, [], .retry)

def rollbackSent (st : St) (opId : String) (now : Nat) : St × List Effect :=
  match st.live opId with
  | some t => (st.setActive (t.rollbackSent now)).persist true
  | none => (st, [])

/-- Feed a beat to the transaction, unless its phase changed meanwhile. -/
def feed (st : St) (opId : String) (generation : Nat) (reading : Option Reading) (now : Nat) :
    St × List Effect :=
  match st.live opId with
  | none => (st, [])
  | some t =>
      if t.generation ≠ generation then (st, [])
      else
        let t' :=
          match reading with
          | some r => (t.onReading r now).1
          | none => (t.onTick now).1
        let (st, fx) := (st.setActive t').persist (decide (t'.generation ≠ generation))
        let (st, fx') := st.finish
        (st, fx ++ fx')

/-! ### Calls -/

def revert (st : St) (opId : String) : St × List Effect × Except String Txn :=
  match st.live opId with
  | none => (st, [], .error "no such change in progress")
  | some t =>
      match t.revert with
      | .error e => (st, [], .error e)
      | .ok (t', _) =>
          let (st, fx) := (st.setActive t').persist true
          (st, fx, .ok t')

def keep (st : St) (opId : String) : St × List Effect × Except String Txn :=
  match st.live opId with
  | none => (st, [], .error "no such change in progress")
  | some t =>
      match t.keep with
      | .error e => (st, [], .error e)
      | .ok t' =>
          let (st, fx) := (st.setActive t').finish
          (st, fx, .ok t')

/-- Cancel whatever is active. -/
def cancelActive (st : St) (why : Reason) : St × List Effect :=
  match st.active with
  | some t => (st.setActive (t.cancel why)).finish
  | none => (st, [])

def dropLegacy (st : St) (why : String) : St × List Effect :=
  ({ st with legacy := [] },
    st.legacy.map fun r => .append (.legacy r "dropped" (some why)))

/-- A safety write jumps the queue. -/
def preempt (st : St) : St × List Effect :=
  let (st, fx) := st.cancelActive .preempted
  let (st, fx') := st.dropLegacy "a safety write"
  (st, fx ++ fx')

/-- A write that affects the network arrives while a change is confirmed: the
    user's cancels the rollback, an automatic one is refused. -/
def otherWrite (st : St) (source : Source) : St × List Effect × Except Txn Unit :=
  match st.active with
  | none => (st, [], .ok ())
  | some t =>
      if !source.isUser then (st, [], .error t)
      else
        let (st, fx) := st.cancelActive .otherChange
        (st, fx, .ok ())

def interrupt (st : St) (source : Source) (what : String) : St × List Effect × Bool :=
  match st.active with
  | none => (st, [], false)
  | some t =>
      let (st, fx) := st.cancelActive .otherChange
      (st, fx ++ [.append (.interrupt source t.opId t.item what)], true)

def legacyGate (st : St) (item : Option String) (safety : Bool) :
    St × List Effect × LegacyGate :=
  if safety then
    let (st, fx) := st.preempt
    (st, fx, .pass)
  else
    match item with
    | none => (st, [], .pass)
    | some item =>
        if st.session.isSome then (st, [], .queue)
        else
          match st.active with
          | none => (st, [], .pass)
          | some t =>
              if decide (t.item = item) &&
                  (decide (t.phase = .verifying) || decide (t.phase = .rollingBack)) &&
                  t.intent.isNone then
                let (st, fx) := st.cancelActive .superseded
                (st, fx, .pass)
              else (st, [], .queue)

/-- Queue a legacy request; only the newest of an item is kept. -/
def enqueueLegacy (st : St) (item action : String) (params : Value) (now : Nat) :
    St × List Effect :=
  let r : LegacyReq := { item, action, params, atMs := now }
  let replaced := st.legacy.filter fun q => decide (q.item = item)
  let kept := st.legacy.filter fun q => decide (q.item ≠ item)
  ({ st with legacy := kept ++ [r] },
    (replaced.map fun q => .append (.legacy q "replaced" none)) ++
      [.append (.legacy r "queued" none)])

/-- The drain task takes the next request once nothing holds the lock. -/
def popLegacy (cfg : Config) (st : St) (now : Nat) : St × List Effect × Option LegacyReq :=
  if st.active.isSome || st.session.isSome then (st, [], none)
  else
    let fresh (r : LegacyReq) : Bool := decide (now - r.atMs < cfg.legacyTtlMs)
    let expired := st.legacy.filter fun r => !fresh r
    let kept := st.legacy.filter fresh
    let fx := expired.map fun r => Effect.append (.legacy r "dropped" (some "expired"))
    match kept with
    | [] => ({ st with legacy := [] }, fx, none)
    | r :: rest => ({ st with legacy := rest }, fx, some r)

/-- The executor was full: back to the front, unless a newer one came. -/
def putBackLegacy (st : St) (r : LegacyReq) : St :=
  if st.legacy.any fun q => decide (q.item = r.item) then st
  else { st with legacy := r :: st.legacy }

def sessionLine (s : Session) (result : String) (reason : Option String) (now : Nat) : Effect :=
  .append (.session s result reason (now - s.openedMs))

/-- End a session that is too old or no longer renewed. -/
def reapSession (st : St) (now : Nat) : St × List Effect :=
  match st.session with
  | none => (st, [])
  | some s =>
      if now - s.openedMs ≥ SESSION_MAX_MS then
        ({ st with session := none }, [sessionLine s "ended" (some "expired") now])
      else if now - s.renewedMs ≥ SESSION_LEASE_MS then
        ({ st with session := none }, [sessionLine s "ended" (some "agent_gone") now])
      else (st, [])

def sessionOpen (st : St) (source : Source) (id : String) (now : Nat) :
    St × List Effect × Except SessionError Session :=
  let (st, fx) := st.reapSession now
  match st.session with
  | some s => (st, fx, .error (.busy (.session s)))
  | none =>
      match st.active with
      | some t => (st, fx, .error (.busy (.txn t)))
      | none =>
          let s : Session := { id, source, openedMs := now, renewedMs := now }
          ({ st with session := some s }, fx ++ [sessionLine s "opened" none now], .ok s)

def sessionRenew (st : St) (id : String) (now : Nat) :
    St × List Effect × Except SessionError Nat :=
  let (st, fx) := st.reapSession now
  match st.session with
  | some s =>
      if s.id = id then
        ({ st with session := some { s with renewedMs := now } }, fx,
          .ok (SESSION_MAX_MS - (now - s.openedMs)))
      else (st, fx, .error .gone)
  | none => (st, fx, .error .gone)

def sessionClose (st : St) (id : String) (result : Option String) (now : Nat) :
    St × List Effect × Except SessionError Unit :=
  let (st, fx) := st.reapSession now
  match st.session with
  | some s =>
      if s.id = id then
        ({ st with session := none }, fx ++ [sessionLine s "closed" result now], .ok ())
      else (st, fx, .error .gone)
  | none => (st, fx, .error .gone)

/-- The session rules for one write. -/
def sessionGate (st : St) (action : String) (session : Option String) (now : Nat) :
    St × List Effect × Except SessionError Unit :=
  let (st, fx) := st.reapSession now
  let step := SESSION_STEPS.contains action
  let optional := SESSION_OPTIONAL.contains action
  match st.session with
  | some s =>
      if session = some s.id ∧ (step || optional) = true then
        ({ st with session := some { s with renewedMs := now } }, fx, .ok ())
      else if step || optional || SESSION_BLOCKS.contains action then
        (st, fx, .error (.busy (.session s)))
      else (st, fx, .ok ())
  | none => if step then (st, fx, .error .gone) else (st, fx, .ok ())

/-- "Got it" on the most recently finished change. -/
def ack (st : St) (opId : String) (source : Source) : St × List Effect × Except String Unit :=
  match st.last with
  | none => (st, [], .error "not the latest finished change")
  | some l =>
      if l.txn.opId ≠ opId then (st, [], .error "not the latest finished change")
      else if l.acked then (st, [.publish st], .ok ())
      else
        let l := { l with acked := true }
        let st := { st with last := some l }
        (st, [.saveLast l, .append (.ack source opId l.txn.item), .publish st], .ok ())

def noticeAck (st : St) (source : Source) : St × List Effect :=
  if st.noticeAcked then (st, [.publish st])
  else
    let st := { st with noticeAcked := true }
    (st, [.saveNotice, .append (.noticeAck source), .publish st])

end St

end Datad
