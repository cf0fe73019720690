/-
  Datad/Server/Control.lean
  =========================
  **What a `/control` request is** (`server/write.rs`, `control.rs`, `ops/spec.rs`).

  Everything here is decided by the request alone: whether it is a safety write, whether
  it affects the network, which item of the action table it changes, and the part of
  `ops_route` that takes no lock.  What the engine says to it, and when, is
  `Datad.Server.Machine`.  The texts of the answers are not modelled.
-/
import Datad.Ops.World

namespace Datad

/-! ### Parameters (`control.rs`) -/

namespace Value

def get (v : Value) (name : String) : Option Value :=
  match v with
  | .obj members => (members.find? fun m => decide (m.1 = name)).map Prod.snd
  | _ => none

def asStr : Value → Option String
  | .str s => some s
  | _ => none

/-- `string` for a required parameter. -/
def string (params : Value) (name : String) : Except String String :=
  match params.get name with
  | some (.str v) => if v.utf8ByteSize ≤ 8192 then .ok v else .error (name ++ " must be a string")
  | some _ => .error (name ++ " must be a string")
  | none => .error ("missing parameter: " ++ name)

/-- A JSON boolean, or the number 0 or 1. -/
def boolean (params : Value) (name : String) : Except String Bool :=
  match params.get name with
  | some (.bool b) => .ok b
  | some (.num (.int 0)) => .ok false
  | some (.num (.int 1)) => .ok true
  | _ => .error (name ++ " must be boolean")

end Value

def ACTIONS : List String :=
  ["device.reboot", "device.poweroff", "cellular.set", "network.set_mode", "band.set_lte",
    "band.set_nr_sa", "band.set_nr_nsa", "cell.lock_lte", "cell.lock_nr", "band.reset",
    "wifi.set_module", "lan.set", "power.direct_supply.set", "usb.set", "usb.attach_mode",
    "nfc.set", "apn.set_mode", "apn.add", "apn.modify", "apn.delete", "apn.enable", "sms.delete",
    "sms.mark_read", "sms.send_raw", "sms.list_after"]

def E4_ACTIONS : List String :=
  ["netselect.scan", "netselect.register", "netselect.auto", "cellular.redial", "modem.online",
    "apn.set_pdp_type", "wifi.apply", "wifi.reload", "vendor.call", "dns.doh", "sms.db_delete",
    "wifi.power_save"]

def readOnly (action : String) : Bool := decide (action = "sms.list_after")

/-- The actions that change the device. -/
def writes (action : String) : Bool :=
  (ACTIONS.contains action || E4_ACTIONS.contains action) && !readOnly action

/-! ### The action table (`spec.rs`) -/

def Spec.target (s : Spec) (params : Value) : Except String String := params.string s.param

/-- Only data or roaming is touched, and only switched off. -/
def isSafety (action : String) (params : Value) : Bool :=
  decide (action = "cellular.set") &&
    match params with
    | .obj members =>
        !members.isEmpty &&
          members.all (fun m => decide (m.1 = "enabled") || decide (m.1 = "roaming")) &&
          members.all fun m =>
            match params.boolean m.1 with
            | .ok b => !b
            | .error _ => false
    | _ => false

def NETWORK_VENDOR_CALLS : List (String × String) :=
  [("zte_nwinfo_api", "nwinfo_set_stc_white_list_par"),
    ("zte_nwinfo_api", "nwinfo_stc_cell_lock_enable"),
    ("zte_nwinfo_api", "nwinfo_stc_cell_lock_disable"),
    ("zte_nwinfo_api", "nwinfo_stc_cell_lock_reset"),
    ("zwrt_zte_mdm.api", "sim_verify_pin_puk"),
    ("zwrt_zte_mdm.api", "sim_change_pin"),
    ("zwrt_zte_mdm.api", "sim_change_pin_mode"),
    ("zwrt_zte_mdm.api", "set_simlock_nck")]

/-- The writes that end a change that is being confirmed.  The described actions are not
    among them: the engine compares their items. -/
def affectsNetwork (action : String) (params : Value) : Bool :=
  if (Spec.find action).isSome then false
  else if SESSION_BLOCKS.contains action || SESSION_OPTIONAL.contains action then true
  else
    decide (action = "vendor.call") &&
      NETWORK_VENDOR_CALLS.any fun c =>
        decide ((params.get "object").bind Value.asStr = some c.1) &&
          decide ((params.get "method").bind Value.asStr = some c.2)

def Source.parse : String → Option Source
  | "screen" => some .screen
  | "web" => some .web
  | "legacy" => some .legacy
  | "guard" => some .guard
  | "scenario" => some .scenario
  | "scheduler" => some .scheduler
  | "auto" => some .auto
  | _ => none

def validOpId (s : String) : Bool :=
  !s.isEmpty && decide (s.utf8ByteSize ≤ 64) &&
    s.toList.all fun c => c.isAlphanum || decide (c = '.') || decide (c = '_') || decide (c = '-')

/-! ### Requests -/

/-- The body of a request; `params` is an object, as the HTTP layer checks. -/
structure Body where
  params : Value := .obj []
  source : Option Value := none
  session : Option Value := none
  opId : Option Value := none
  undo : Option Value := none
deriving DecidableEq, Repr

namespace Body

/-- The source a request names, if it is a known one. -/
def sourceOf (b : Body) : Option Source := (b.source.bind Value.asStr).bind Source.parse

def sessionOf (b : Body) : Option String := b.session.bind Value.asStr

def paramStr (b : Body) (name : String) : Option String := (b.params.get name).bind Value.asStr

end Body

/-- The item an old request changes, if its action is described and its target valid. -/
def legacyItem (action : String) (b : Body) : Option String :=
  if b.source.isNone then
    match Spec.find action with
    | some s =>
        match s.target b.params with
        | .ok _ => some s.item
        | .error _ => none
    | none => none
  else none

/-! ### `ops_route`, up to the lock -/

/-- What `ops_route` does with a request. -/
inductive Route where
  | answer
  /-- One call of the engine, then the answer. -/
  | call (c : Call)
  /-- `session_gate` decides. -/
  | gate (source : Source)
  /-- The write is a transaction. -/
  | submit (req : Request)
  /-- Not a matter of the engine. -/
  | pass

/-- A user who is at the device: the only ones who may acknowledge and interrupt. -/
def Body.userSource (b : Body) : Option Source :=
  b.sourceOf.filter fun s => decide (s = .screen) || decide (s = .web)

/-- `ops_route` after the session rules. -/
def describedRoute (action : String) (b : Body) (source : Source) : Route :=
  match Spec.find action with
  | none => .pass
  | some spec =>
      match spec.target b.params with
      | .error _ => .answer
      | .ok target =>
          let undo :=
            match b.undo with
            | some (.bool u) => u
            | _ => false
          match b.opId with
          | none => .submit { spec, target, source, opId := none, undo }
          | some (.str x) =>
              if validOpId x then .submit { spec, target, source, opId := some x, undo }
              else .answer
          | some _ => .answer

/-- `ops_route` up to the session rules; `fresh` is a drawn id. -/
def opsRoute (action : String) (b : Body) (fresh : String) (now : Nat) : Route :=
  if action = "op.status" ∨ action = "journal.append" ∨ action = "journal.list" then .answer
  else if action = "op.ack" then
    match b.paramStr "op_id", b.userSource with
    | some x, some source => .call (.ack x source)
    | _, _ => .answer
  else if action = "op.interrupt" then
    match b.paramStr "what", b.userSource with
    | some what, some source =>
        if what.isEmpty then .answer else .call (.interrupt source what)
    | _, _ => .answer
  else if action = "op.notice_ack" then
    match b.userSource with
    | some source => .call (.noticeAck source)
    | none => .answer
  else if action = "op.revert" then
    match b.paramStr "op_id" with
    | some x => .call (.revert x)
    | none => .answer
  else if action = "op.keep" then
    match b.paramStr "op_id" with
    | some x => .call (.keep x)
    | none => .answer
  else
    match b.source with
    | none =>
        -- the steps of a session are for clients that name themselves
        if "netselect.".isPrefixOf action || SESSION_OPTIONAL.contains action then .answer
        else .pass
    | some _ =>
        match b.sourceOf with
        | none => .answer
        | some source =>
            if action = "netselect.session.open" then .call (.sessionOpen source fresh now)
            else if action = "netselect.session.renew" then
              match b.paramStr "session" with
              | some id => .call (.sessionRenew id now)
              | none => .answer
            else if action = "netselect.session.close" then
              match b.paramStr "session" with
              | some id => .call (.sessionClose id (b.paramStr "result") now)
              | none => .answer
            else if isSafety action b.params then describedRoute action b source
            else .gate source

end Datad
