/-
  Datad/Ubus/Client.lean
  ======================
  **The ubus client** (`rust/src/ubus/client.rs`, `backend.rs`).

  A call looks the object up, unless its id is cached, and invokes the method; both
  are requests on one unix socket, which is kept between calls.  ubusd is the
  environment: an `Exchange` is all it does during one request, and the calls of a run
  consume a list of them.  A frame is given as the message parser reads it, so every
  sequence of bytes is covered.  When ubusd says no more, the deadline passes.

  `Wire.log` records what a call leaves outside: the frames it tried to write with what
  became of them, the ids it found, and the fallback to the command line.
-/
import Datad.Json

namespace Datad

namespace Ubus

/-! ### Messages -/

inductive UbusError where
  | invalidArgument (message : String)
  | timeout (object : String) (detail : String)
  | notFound (object : String)
  | status (object method : String) (code : Int)
  | noData (object : String) (detail : String)
  | io (message : String)
  | protocol (message : String)
deriving DecidableEq, Repr

def HELLO : Nat := 0
def STATUS : Nat := 1
def DATA : Nat := 2

def OK : Int := 0
def METHOD_NOT_FOUND : Int := 3
def NOT_FOUND : Int := 4

/-- The requests the client sends. -/
inductive Ask where
  | lookup | invoke
deriving DecidableEq, Repr

/-- The attributes of a message, as `msg_attrs` and the getters read them. -/
structure Attrs where
  status : Option (Except String UInt32) := none
  objpath : Option String := none
  objid : Option (Except String Nat) := none
  data : Option (Except String Value) := none

structure Frame where
  msgType : Nat
  seq : Nat
  peer : Nat
  attrs : Except String Attrs

/-- What comes of reading one frame. -/
inductive ReadAnswer where
  | frame (f : Frame)
  | io (message : String)
  | protocol (message : String)

/-- What comes of connecting or writing; a silent one runs into the deadline. -/
inductive Answer where
  | done
  | error (message : String)
  | silent
deriving DecidableEq, Repr

def Answer.failed : Answer → Bool
  | .error _ => true
  | _ => false

/-- All that happens on the socket during one request.  Connecting and the greeting
    count only if there is no connection yet. -/
structure Exchange where
  connect : Answer := .silent
  hello : Option ReadAnswer := none
  write : Answer := .silent
  frames : List ReadAnswer := []

structure Reply where
  data : List (Except String Attrs)
  status : Int

/-! ### Client -/

structure ClientStats where
  connects : Nat := 0
  droppedFrames : Nat := 0
  timeouts : Nat := 0
  lookups : Nat := 0
  invokes : Nat := 0
deriving DecidableEq, Repr

inductive Event where
  /-- A frame was to be written: what came of the write, and the status it was
      answered with. -/
  | sent (ask : Ask) (peer : Nat) (write : Answer) (status : Option Int)
  /-- A LOOKUP completed with this id. -/
  | found (id : Nat)
  /-- `ubus call` was run instead. -/
  | cli
deriving DecidableEq, Repr

/-- The client, ubusd, and what an observer saw. -/
structure Wire where
  path : String := "/var/run/ubus/ubus.sock"
  timeoutMs : Nat := 2000
  conn : Bool := false
  seq : Nat := 0
  ids : String → Option Nat := fun _ => none
  stats : ClientStats := {}
  staleWrite : Bool := false
  invokeMaybeSent : Bool := false
  script : List Exchange := []
  log : List Event := []

def nextSeq (seq : Nat) : Nat :=
  let s := (seq + 1) % 65536
  if s = 0 then 1 else s

namespace Wire

def forget (w : Wire) (object : String) : Wire :=
  { w with ids := fun o => if o = object then none else w.ids o }

def insert (w : Wire) (object : String) (id : Nat) : Wire :=
  { w with ids := fun o => if o = object then some id else w.ids o }

def protocol (w : Wire) (message : String) : UbusError × Wire :=
  (.protocol message, { w with conn := false })

def lostConnection (w : Wire) : Wire := { w with conn := false, ids := fun _ => none }

def timedOut (w : Wire) (object : String) : UbusError × Wire :=
  (.timeout object s!"ubus {object} timed out after {w.timeoutMs} ms",
    { w with
      conn := false
      ids := fun o => if o = object then none else w.ids o
      stats := { w.stats with timeouts := w.stats.timeouts + 1 } })

def connect (w : Wire) (object : String) (e : Exchange) : Except UbusError Unit × Wire :=
  match e.connect with
  | .silent =>
      let (err, w) := w.timedOut object
      (.error err, w)
  | .error m => (.error (.io s!"connect {w.path}: {m}"), w)
  | .done =>
      match e.hello with
      | none =>
          let (err, w) := w.timedOut object
          (.error err, w)
      | some (.io m) => (.error (.io s!"ubus hello: {m}"), w)
      | some (.protocol m) => (.error (.protocol m), w)
      | some (.frame f) =>
          if f.msgType ≠ HELLO then
            (.error (.protocol s!"expected HELLO, got message type {f.msgType}"), w)
          else
            (.ok (),
              { w with
                conn := true
                stats := { w.stats with connects := w.stats.connects + 1 } })

end Wire

/-- How the wait for a reply ends. -/
inductive Received where
  | reply (r : Reply)
  | silent
  | lost (message : String)
  | bad (message : String)

/-- Read frames until the STATUS of this request; also counts the frames that belong to
    no request of ours. -/
def receive (seq peer : Nat) (data : List (Except String Attrs)) (dropped : Nat) :
    List ReadAnswer → Received × Nat
  | [] => (.silent, dropped)
  | .io m :: _ => (.lost m, dropped)
  | .protocol m :: _ => (.bad m, dropped)
  | .frame f :: rest =>
      if f.seq ≠ seq ∨ f.peer ≠ peer then receive seq peer data (dropped + 1) rest
      else if f.msgType = DATA then receive seq peer (data ++ [f.attrs]) dropped rest
      else if f.msgType = STATUS then
        match f.attrs with
        | .error m => (.bad m, dropped)
        | .ok a =>
            match a.status with
            | none => (.bad "STATUS without status attribute", dropped)
            | some (.error m) => (.bad m, dropped)
            | some (.ok code) => (.reply ⟨data, code.toInt32.toInt⟩, dropped)
      else receive seq peer data (dropped + 1) rest

namespace Wire

def note (w : Wire) (e : Event) : Wire := { w with log := w.log ++ [e] }

/-- An INVOKE that was written, or given up on halfway, may have reached ubusd. -/
def sending (w : Wire) (ask : Ask) (write : Answer) : Wire :=
  if ask = .invoke ∧ write.failed = false then { w with invokeMaybeSent := true } else w

/-- `request` from the write on. -/
def exchange (w : Wire) (object : String) (ask : Ask) (seq peer : Nat) (fresh : Bool)
    (e : Exchange) : Except UbusError Reply × Wire :=
  let w := w.sending ask e.write
  match e.write with
  | .error m =>
      (.error (.io s!"ubus write: {m}"),
        ({ w with staleWrite := !fresh }.lostConnection).note (.sent ask peer e.write none))
  | .silent =>
      let (err, w) := w.timedOut object
      (.error err, w.note (.sent ask peer e.write none))
  | .done =>
      let (received, dropped) := receive seq peer [] 0 e.frames
      let w := { w with stats := { w.stats with droppedFrames := w.stats.droppedFrames + dropped } }
      match received with
      | .reply r => (.ok r, w.note (.sent ask peer e.write (some r.status)))
      | .silent =>
          let (err, w) := w.timedOut object
          (.error err, w.note (.sent ask peer e.write none))
      | .lost m =>
          (.error (.io s!"ubus read: {m}"), w.lostConnection.note (.sent ask peer e.write none))
      | .bad m =>
          let (err, w) := w.protocol m
          (.error err, w.note (.sent ask peer e.write none))

/-- Send a request and collect its DATA and STATUS. -/
def request (w : Wire) (object : String) (ask : Ask) (peer : Nat) : Except UbusError Reply × Wire :=
  let seq := nextSeq w.seq
  let e := w.script.headD {}
  let w := { w with seq := seq, script := w.script.tail }
  if w.conn then w.exchange object ask seq peer false e
  else
    match w.connect object e with
    | (.error err, w) => (.error err, w)
    | (.ok (), w) => w.exchange object ask seq peer true e

end Wire

/-- The id of an object in the DATA of a LOOKUP; an error if the reply is malformed before
    the object is found. -/
def Reply.idOf (object : String) : List (Except String Attrs) → Except String (Option Nat)
  | [] => .ok none
  | .error m :: _ => .error m
  | .ok a :: rest =>
      match a.objpath, a.objid with
      | some path, some id =>
          if path = object then
            match id with
            | .ok id => .ok (some id)
            | .error m => .error m
          else idOf object rest
      | _, _ => idOf object rest

/-- The payload of the first DATA frame that has one. -/
def Reply.payload : List (Except String Attrs) → Except String (Option Value)
  | [] => .ok none
  | .error m :: _ => .error m
  | .ok a :: rest =>
      match a.data with
      | some (.ok v) => .ok (some v)
      | some (.error m) => .error m
      | none => payload rest

namespace Wire

def lookup (w : Wire) (object : String) : Except UbusError Nat × Wire :=
  let w := { w with stats := { w.stats with lookups := w.stats.lookups + 1 } }
  match w.request object .lookup 0 with
  | (.error e, w) => (.error e, w)
  | (.ok reply, w) =>
      if reply.status = NOT_FOUND then (.error (.notFound object), w)
      else if reply.status ≠ OK then (.error (.status object "lookup" reply.status), w)
      else
        match Reply.idOf object reply.data with
        | .error m =>
            let (err, w) := w.protocol m
            (.error err, w)
        | .ok none => (.error (.notFound object), w)
        | .ok (some id) => (.ok id, (w.insert object id).note (.found id))

def invoke (w : Wire) (object : String) (id : Nat) (method : String) :
    Except UbusError (Option Value) × Wire :=
  let w := { w with stats := { w.stats with invokes := w.stats.invokes + 1 } }
  match w.request object .invoke id with
  | (.error e, w) => (.error e, w)
  | (.ok reply, w) =>
      if reply.status ≠ OK then (.error (.status object method reply.status), w)
      else
        match Reply.payload reply.data with
        | .error m =>
            let (err, w) := w.protocol m
            (.error err, w)
        | .ok v => (.ok v, w)

/-- The cached id of an object, or a LOOKUP. -/
def resolve (w : Wire) (object : String) : Except UbusError Nat × Wire :=
  match w.ids object with
  | some id => (.ok id, w)
  | none => w.lookup object

/-- One attempt of a call.  An INVOKE that is answered NOT_FOUND is repeated once, if a
    new LOOKUP finds another id. -/
def callOnce (object method : String) (retries : Nat) (w : Wire) :
    Except UbusError (Option Value) × Wire :=
  match w.resolve object with
  | (.error e, w) => (.error e, w)
  | (.ok id, w) =>
      match w.invoke object id method with
      | (.ok v, w) => (.ok v, w)
      | (.error (.status o m code), w) =>
          match retries with
          | n + 1 =>
              if code = NOT_FOUND then
                match (w.forget object).lookup object with
                | (.error e, w) => (.error e, w)
                | (.ok id', w) =>
                    if id' = id then (.error (.status o m code), w)
                    else callOnce object method n w
              else if code = METHOD_NOT_FOUND then (.error (.status o m code), w.forget object)
              else (.error (.status o m code), w)
          | 0 =>
              if code = NOT_FOUND ∨ code = METHOD_NOT_FOUND then
                (.error (.status o m code), w.forget object)
              else (.error (.status o m code), w)
      | (.error e, w) => (.error e, w)

end Wire

def UBUS_MAX_MSGLEN : Nat := 1048576

def validateName (v : String) : Except String Unit :=
  if v.isEmpty ∨ v.utf8ByteSize > 128 ∨
      ¬ v.toList.all (fun c => c.isAlphanum || c = '.' || c = '_' || c = '-') then
    .error "invalid ubus name"
  else .ok ()

/-- The arguments are checked before anything is sent; `table` is `blobmsg_table`. -/
def checkArgs (table : List (String × Value) → List UInt8) (object method : String)
    (args : Value) : Except UbusError Unit :=
  match validateName object with
  | .error m => .error (.invalidArgument m)
  | .ok () =>
      match validateName method with
      | .error m => .error (.invalidArgument m)
      | .ok () =>
          match args with
          | .obj map =>
              if (table map).length + 256 > UBUS_MAX_MSGLEN then
                .error (.invalidArgument "ubus args too large")
              else .ok ()
          | _ => .error (.invalidArgument "args must be an object")

namespace Wire

/-- `UbusClient::call`: an attempt whose write failed on a kept connection is made
    again. -/
def call (table : List (String × Value) → List UInt8) (object method : String) (args : Value)
    (w : Wire) : Except UbusError (Option Value) × Wire :=
  let w := { w with invokeMaybeSent := false }
  match checkArgs table object method args with
  | .error e => (.error e, w)
  | .ok () =>
      match callOnce object method 1 { w with staleWrite := false } with
      | (.error e, w) =>
          if w.staleWrite then callOnce object method 1 { w with staleWrite := false }
          else (.error e, w)
      | (.ok v, w) => (.ok v, w)

def lastCallNotSent (w : Wire) : Bool := !w.invokeMaybeSent

end Wire

/-! ### Backends -/

def socketCall (table : List (String × Value) → List UInt8) (object method : String)
    (args : Value) (w : Wire) : Except UbusError Value × Wire :=
  match w.call table object method args with
  | (.error e, w) => (.error e, w)
  | (.ok (some v), w) => (.ok v, w)
  | (.ok none, w) =>
      (.error (.noData object
        "invalid ubus JSON: EOF while parsing a value at line 1 column 0"), w)

/-- May this failure be the socket's? -/
def UbusError.unusable : UbusError → Bool
  | .io _ | .timeout .. | .protocol _ => true
  | _ => false

structure AutoBackend where
  wire : Wire := {}
  retryMs : Nat := 30000
  cliUntil : Option Nat := none
  fallbacks : Nat := 0

namespace AutoBackend

def onCli (b : AutoBackend) (now : Nat) : Bool := b.cliUntil.any fun t => decide (now < t)

/-- The socket first, and `ubus call` when the request has certainly not been sent.  `cli`
    is what that command would answer, `later` the time after the attempt. -/
def call (table : List (String × Value) → List UInt8) (object method : String) (args : Value)
    (now later : Nat) (cli : Except UbusError Value) (b : AutoBackend) :
    Except UbusError Value × AutoBackend :=
  if b.onCli now then (cli, { b with wire := b.wire.note .cli })
  else
    match socketCall table object method args b.wire with
    | (.error e, w) =>
        if e.unusable && w.lastCallNotSent then
          (cli,
            { b with
              wire := w.note .cli
              cliUntil := some (later + b.retryMs)
              fallbacks := b.fallbacks + 1 })
        else (.error e, { b with wire := w, cliUntil := none })
    | (.ok v, w) => (.ok v, { b with wire := w, cliUntil := none })

end AutoBackend

end Ubus

end Datad
