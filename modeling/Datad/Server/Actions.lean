/-
  Datad/Server/Actions.lean
  =========================
  **What a `/control` action does** (`execute` of `control.rs`, with `sms.rs` and
  `wifi.rs`).

  An action is a program: it asks the device, the `uci` program, the AT port, other programs
  and the memory of this process, and goes on with what it is answered, whatever that is.
  `execute` is the table of the actions.  The cryptography of the text messages is asked for
  too: RSA and AES are not modelled.
-/
import Datad.Executor.AtThreads
import Datad.Lib.Interaction
import Datad.Server.WifiApply
import Datad.Sms.ListAfter

namespace Datad

namespace Value

/-- `as_i64`. -/
def asInt : Value → Option Int
  | .num n => asI64 n
  | _ => none

end Value

/-- `str::parse::<i64>`: decimal digits, after a sign if there is one. -/
def parseInt (cs : List Char) : Option Int :=
  let (neg, digits) : Bool × List Char := match cs with
    | '+' :: ds => (false, ds)
    | '-' :: ds => (true, ds)
    | ds => (false, ds)
  let n : Int := digits.foldl (fun n c => n * 10 + (c.toNat - '0'.toNat)) (0 : Nat)
  let i := if neg then -n else n
  if digits ≠ [] ∧ digits.all Char.isDigit ∧ -2 ^ 63 ≤ i ∧ i < 2 ^ 63 then some i else none

namespace Actions

open Interaction Interaction.Program Ubus

/-! ### Requests -/

abbrev Key := List UInt8

inductive Band where
  | band2g
  | band5g
deriving DecidableEq

/-- An answer to a form: how long it says its body is, and the body with its length. -/
structure HttpReply where
  success : Bool
  contentLength : Option Nat
  body : Option (Nat × Option Value)

inductive Request where
  /-- `executor::call`. -/
  | call (i : Invocation)
  | uci (m : Wifi.Mutation)
  | at (c : At.Cmd)
  /-- `command::run`: the program and its arguments; there is no shell. -/
  | command (program : String) (args : List String)
  | sleep (ms : Nat)
  /-- `RADIO_SECTIONS`. -/
  | radio (band : Band)
  | keepRadio (band : Band) (name : String)
  /-- `SESSION_KEY`. -/
  | sessionKey
  | keepKey (key : Key)
  /-- A new key, and its text under the certificate of the vendor. -/
  | wrapKey (pem : String)
  | encrypt (key : Key) (plaintext : String)
  /-- A form for the SMS service of another device. -/
  | post (sender form : String)
  /-- The hotplug script is written beside its place and put there. -/
  | saveHotplug (script : String)
  | removePsm

def Request.Answer : Request → Type
  | .call _ => CallAnswer
  | .uci _ => Except String Unit
  | .at _ => Except String String
  | .command .. => Except String String
  | .sleep _ => Unit
  | .radio _ => Option String
  | .keepRadio .. => String
  | .sessionKey => Option Key
  | .keepKey _ => Unit
  | .wrapKey _ => Except String (Key × String)
  | .encrypt .. => Except String String
  | .post .. => Except (Option String) HttpReply
  | .saveHotplug _ => Except String Unit
  | .removePsm => Unit

abbrev Prog (α : Type) := Program Request Request.Answer α

abbrev Event := Sigma Request.Answer

/-- What the actions are told from outside. -/
structure Host where
  ryu : Ryu
  iw : String
  sqlite : String
  smsDb : String
  openEnvelope : Option Key → String → Except String (Option String)

def answer (q : Request) : Prog q.Answer := request q

def invalid (message : String) : Prog Outcome := .ret (.invalid message)

def failed (message : String) : Prog Outcome := .ret (.failed message)

/-- `executor::call`. -/
def rawCall (service method : String) (args : Value) : Prog CallAnswer :=
  answer (.call ⟨service, method, args⟩)

/-- `state::ubus`. -/
def ubus (service method : String) (args : Value) : Prog (Except String Value) := do
  match ← rawCall service method args with
  | .ok v => .ret (.ok v)
  | .error e => .ret (.error e.text)

def call (service method : String) (args : Value) : Prog Outcome := do
  .ret (writeOutcome (← rawCall service method args))

def mappedCall (params : Value) (service method : String) (specs : List Field)
    (requireAny : Bool) : Prog Outcome :=
  match mapped params specs [] with
  | .error e => invalid e
  | .ok args =>
      if requireAny && args.isEmpty then invalid "no fields supplied"
      else call service method (.obj args)

def str (v : Value) (key : String) : Option String := (v.get key).bind Value.asStr

def int (v : Value) (key : String) : Option Int := (v.get key).bind Value.asInt

def intField (v : Value) (name : String) : Option Int :=
  (v.get name).bind fun f => f.asInt.or (f.asStr.bind fun s => parseInt (Sms.trim s))

/-- One look of `poll_until`. -/
def pollOnce (service method : String) (args : Value) (ok : Value → Bool) :
    Prog (Option Unit) := do
  match ← ubus service method args with
  | .ok v => .ret (if ok v then some () else none)
  | .error _ => .ret none

/-- Read until the answer passes, `tries` times at most. -/
def pollEvery (pause : Nat) (service method : String) (args : Value) (tries : Nat)
    (ok : Value → Bool) : Prog Bool := do
  let found ← attempts (fun attempt => do
    if attempt ≠ 0 then answer (.sleep pause)
    pollOnce service method args ok) tries 0
  .ret found.isSome

/-! ### The network -/

def GET_WWANIFACE : Value :=
  .ofMembers [("source_module", .str "web"), ("cid", .num (.int 1)), ("connect_status", .str "")]

def cellularSet (params : Value) : Prog Outcome :=
  match mapped params CELLULAR_FIELDS [] with
  | .error e => invalid e
  | .ok [] => invalid "no cellular fields supplied"
  | .ok overrides => do
      match ← ubus "zwrt_data" "get_wwaniface" GET_WWANIFACE with
      | .error e => failed e
      | .ok (.obj current) => call "zwrt_data" "set_wwaniface" (cellularArgs current overrides)
      | .ok _ => failed "invalid get_wwaniface response"

def atOutcome : Except String String → Outcome
  | .ok a => .ok (.ofMembers [("answer", .str (String.ofList (Sms.trim a)))])
  | .error e => .failed e

def atSend (c : At.Cmd) : Prog Outcome := do .ret (atOutcome (← answer (.at c)))

def netselectRegister (params : Value) : Prog Outcome :=
  match params.text "mcc_mnc" true with
  | .error e => invalid e
  | .ok none => invalid "mcc_mnc must be 5-6 digits"
  | .ok (some plmn) =>
      if !(5 ≤ plmn.utf8ByteSize && plmn.utf8ByteSize ≤ 6 && plmn.toList.all Char.isDigit) then
        invalid "mcc_mnc must be 5-6 digits"
      else
        match params.text "rat" false with
        | .error e => invalid e
        | .ok rat =>
            let rat := rat.getD ""
            if 8 < rat.utf8ByteSize || !rat.toList.all Char.isAlphanum then
              invalid "rat must be a short code"
            else
              call "zte_nwinfo_api" "nwinfo_manual_register"
                (.ofMembers [("m_mcc_mnc", .str plmn), ("m_rat", .str rat)])

def setQcliiface (type enable : Int) : Value :=
  .ofMembers [("source_module", .str "zte_topsw_data"), ("type", .num (.int type)),
    ("enable", .num (.int enable)), ("sub_id", .num (.int 1))]

/-- One connection after the other; `last` is the answer to the one before. -/
def dial : List Int → Value → Prog Outcome
  | [], last => .ret (.ok last)
  | t :: ts, _ => do
      match ← ubus "zwrt_qcmap_cli" "set_qcliiface" (setQcliiface t 1) with
      | .ok v => dial ts v
      | .error e => failed e

def redial (params : Value) : Prog Outcome :=
  match params.integer "type" false with
  | .error e => invalid e
  | .ok none => dial [1, 2] .null
  | .ok (some t) => if t = 1 ∨ t = 2 then dial [t] .null else invalid "type must be 1 or 2"

/-- The profile as it was read, with another type. -/
def pdpTypeArgs (apn : Value) (pdp : Int) : Value :=
  let s (k : String) : Value := .str ((str apn k).getD "")
  let n (k : String) (d : Int) : Value := .num (.int ((int apn k).getD d))
  .ofMembers
    [("profilename", s "profilename"), ("wanapn", s "wanapn"), ("username", s "username"),
      ("password", s "password"), ("pdpType", .num (.int pdp)), ("pppAuthMode", n "pppAuthMode" 0),
      ("profileId", s "profileId"), ("isEnable", .bool true), ("cid", .num (.int 1)),
      ("isValid", n "isValid" 1), ("extraInt1", n "extraInt1" 0),
      ("roamingPdpType", .num (.int pdp))]

def apnPdpType (params : Value) : Prog Outcome :=
  match params.boolean "ipv6" with
  | .error e => invalid e
  | .ok enabled => do
      match ← ubus "zwrt_apn_object" "get_apn_at_cid" (.ofMembers [("cid", .num (.int 1))]) with
      | .error e => failed ("read APN failed: " ++ e)
      | .ok apn =>
          let pdp : Int := if enabled then 3 else 1
          match ← ubus "zwrt_apn_object" "set_apn_at_cid" (pdpTypeArgs apn pdp) with
          | .error e => failed ("set APN failed: " ++ e)
          | .ok _ =>
              -- the connection in use; the type is changed either way
              let _ ← ubus "zwrt_qcmap_cli" "set_qcliiface"
                (setQcliiface 2 (if enabled then 1 else 0))
              .ret (.ok (.ofMembers
                [("ipv6_enabled", .bool enabled), ("pdp_type", .num (.int pdp))]))

def band (params : Value) (lte nsa : Bool) : Prog Outcome :=
  match params.text "bands" false with
  | .error e => invalid e
  | .ok bands =>
      let bands := bands.getD ""
      if !bands.toList.all fun c => c.isDigit || decide (c = ',') then
        invalid "bands must contain only numbers and commas"
      else if lte then
        call "zte_nwinfo_api" "nwinfo_set_lte_ext_band" (.ofMembers [("lte_band", .str bands)])
      else
        call "zte_nwinfo_api" "nwinfo_set_nrbandlock"
          (.ofMembers [("nr5g_type", .str (if nsa then "1" else "0")), ("nr5g_band", .str bands)])

def APN_FIELDS (profileRequired : Bool) : List Field :=
  [⟨"profile_id", "profileId", profileRequired, false⟩, ⟨"name", "profilename", true, false⟩,
    ⟨"apn", "wanapn", true, false⟩, ⟨"username", "username", false, false⟩,
    ⟨"password", "password", false, false⟩, ⟨"auth_mode", "pppAuthMode", false, true⟩,
    ⟨"pdp_type", "pdpType", false, true⟩, ⟨"roaming_pdp_type", "roamingPdpType", false, true⟩]

def apn (params : Value) (method : String) (profileRequired : Bool) : Prog Outcome :=
  mappedCall params "zwrt_apn_object" method (APN_FIELDS profileRequired) false

/-! ### Power and USB -/

def directSupplyEnabled (params : Value) : Except String Bool :=
  match params.get "enabled" with
  | some (.str v) =>
      if v = "1" ∨ v = "true" then .ok true
      else if v = "0" ∨ v = "false" then .ok false
      else params.boolean "enabled"
  | _ => params.boolean "enabled"

def directSupplyWriteFailed : CallAnswer → Bool
  | .error (.client (.noData ..)) => false
  | .error _ => true
  | .ok (.obj body) =>
      let result := (((Value.obj body).get "result").map fun v =>
        (v.asInt.or (v.asStr.bind fun s => parseInt (Sms.trim s))).getD 0).getD 0
      ((Value.obj body).get "error").isSome || decide (result ≠ 0)
  | .ok _ => true

def supplyMode (wanted : Bool) : String := if wanted then "enable" else "disable"

def supplied (wanted changed : Bool) : Outcome :=
  .ok (.ofMembers [("supported", .bool true), ("enabled", .bool wanted),
    ("mode", .str (supplyMode wanted)), ("changed", .bool changed), ("verified", .bool true)])

def directSupply (params : Value) : Prog Outcome :=
  match directSupplyEnabled params with
  | .error e => invalid e
  | .ok wanted => do
      match ← ubus "zwrt_bsp.charger" "list" (.obj []) with
      | .error e => failed e
      | .ok before =>
          let mode := str before "direct_power_supply_mode"
          if mode ≠ some "enable" ∧ mode ≠ some "disable" then
            failed "direct supply is not supported or state is unknown"
          else if decide (mode = some "enable") = wanted then .ret (supplied wanted false)
          else
            let reply ← rawCall "zwrt_bsp.charger" "set"
              (.ofMembers [("direct_power_supply_mode", .str (supplyMode wanted))])
            if directSupplyWriteFailed reply then
              match reply with
              | .error e => failed e.text
              | .ok _ => failed "direct supply write failed"
            else if ← pollEvery 100 "zwrt_bsp.charger" "list" (.obj []) 5 fun v =>
                decide (str v "direct_power_supply_mode" = some (supplyMode wanted)) then
              .ret (supplied wanted true)
            else failed "direct supply readback did not confirm the requested mode"

def USB_SOURCE_MODULE : String := "zte_topsw_devui"
def USB_MODES : List String := ["share", "fast_charge", "accessory"]

def pollUntil : String → String → Value → Nat → (Value → Bool) → Prog Bool := pollEvery 200

def attached (mode : String) (changed : Bool) : Outcome :=
  .ok (.ofMembers [("mode", .str mode), ("changed", .bool changed), ("verified", .bool true)])

def isDevice (v : Value) : Bool := decide (str v "data_role" = some "device")

def isOn (v : Value) : Bool := decide (intField v "state" = some 1)

/-- The write of `share` and the reading after it. -/
def share : Prog Outcome := do
  match ← call "zwrt_bsp.typec" "set"
      (.ofMembers [("source_module", .str USB_SOURCE_MODULE), ("DR_Swap", .str "device")]) with
  | .failed e => failed e
  | _ =>
      if ← pollUntil "zwrt_bsp.typec" "list" (.obj []) 15 isDevice then .ret (attached "share" true)
      else failed "USB role readback did not show data_role device"

def fastCharge : Prog Outcome := do
  let get : Value := .ofMembers [("property", .str "state")]
  match ← ubus "zwrt_bsp.powerbank" "get" get with
  | .error e => failed e
  | .ok v =>
      if isOn v then .ret (attached "fast_charge" false)
      else
        match ← call "zwrt_bsp.powerbank" "set"
            (.ofMembers [("source_module", .str USB_SOURCE_MODULE), ("state", .num (.int 1))]) with
        | .failed e => failed e
        | _ =>
            if ← pollUntil "zwrt_bsp.powerbank" "get" get 10 isOn then
              .ret (attached "fast_charge" true)
            else failed "power bank readback did not show state 1"

def rememberedOf (params : Value) : Except String Bool :=
  if (params.get "remembered").isNone then .ok false else params.boolean "remembered"

def usbAttachMode (params : Value) : Prog Outcome :=
  match params.text "mode" true with
  | .error e => invalid e
  | .ok none => invalid "mode must be share, fast_charge or accessory"
  | .ok (some mode) =>
      if !USB_MODES.contains mode then invalid "mode must be share, fast_charge or accessory"
      else
        match rememberedOf params with
        | .error e => invalid e
        | .ok remembered => do
            match ← ubus "zwrt_bsp.typec" "list" (.obj []) with
            | .error e => failed e
            | .ok typec =>
                if intField typec "cc_attch_state" ≠ some 1 then
                  failed "nothing is plugged into the USB-C port"
                else if mode = "accessory" then .ret (attached mode false)
                else if mode = "share" then
                  if isDevice typec then .ret (attached mode false)
                  else if remembered then
                    match ← ubus "zwrt_bsp.usb" "list" (.obj []) with
                    | .error e => failed e
                    | .ok usb =>
                        if intField usb "usb2rj45" = some 1 then
                          failed "a USB network adapter is attached; left in host mode"
                        else share
                  else share
                else fastCharge

def NFC_FIELDS : List Field := [⟨"enabled", "switch", true, true⟩, ⟨"flag", "flag", false, true⟩]

def nfc (params : Value) : Prog Outcome :=
  match mapped params NFC_FIELDS [] with
  | .error e => invalid e
  | .ok args => do
      match ← ubus "zwrt_nfc" "zwrt_nfc_wifi_set" (.obj args) with
      | .error e => failed e
      | .ok value =>
          let _ ← ubus "zwrt_nfc" "zwrt_nfc_wifi_change" (.obj [])
          .ret (.ok value)

/-! ### Wi-Fi -/

def uciGet (config sec option : String) : Value :=
  .ofMembers [("config", .str config), ("section", .str sec), ("option", .str option)]

def wifiModuleArgs (enabled : Bool) (lbd : Option String) : Value :=
  let onoff : String × Value := ("wifi_onoff", .str (if enabled then "1" else "0"))
  .ofMembers [("zte_mbb", .ofMembers <|
    match lbd with
    | some l => if enabled && (l = "0" || l = "1") then [onoff, ("lbd", .str l)] else [onoff]
    | none => [onoff])]

def wifiModule (params : Value) : Prog Outcome :=
  match params.integer "enabled" true with
  | .error e => invalid e
  | .ok none => invalid "enabled must be 0 or 1"
  | .ok (some v) =>
      if v ≠ 0 ∧ v ≠ 1 then invalid "enabled must be 0 or 1"
      else if v = 1 then do
        let lbd :=
          match ← ubus "uci" "get" (uciGet "wireless" "zte_mbb" "lbd") with
          | .ok v => str v "value"
          | .error _ => none
        call "zwrt_wlan" "set" (wifiModuleArgs true lbd)
      else call "zwrt_wlan" "set" (wifiModuleArgs false none)

/-- The name of a section, if the answer has one that can be used. -/
def radioName (reply : Option Value) : Option String :=
  (reply.bind fun v => str v "value").bind fun value =>
    let value := Sms.trim value
    if value ≠ [] ∧ (String.ofList value).utf8ByteSize ≤ 32 ∧
        value.all fun c => c.isAlphanum || decide (c = '_') then
      some (String.ofList value)
    else none

def Band.ap : Band → String
  | .band2g => "main_2g"
  | .band5g => "main_5g"

def Band.fallback : Band → String
  | .band2g => "wifi0"
  | .band5g => "wifi1"

def radioSection (b : Band) : Prog String := do
  match ← answer (.radio b) with
  | some name => .ret name
  | none =>
      let reply ← ubus "uci" "get" (uciGet "wireless" b.ap "device")
      match radioName reply.toOption with
      | some name => answer (.keepRadio b name)
      | none => .ret b.fallback

/-- `uci_write`. -/
def uciWrite (m : Wifi.Mutation) : Prog (Except String Unit) :=
  if !m.wellFormed then .ret (.error "invalid UCI mutation") else answer (.uci m)

/-- Stage one option after the other: the options that were skipped, and whether any was
    staged. -/
def stage (bestEffort : Bool) :
    List (String × String) → Prog (Except String (List String × Bool))
  | [] => .ret (.ok ([], false))
  | (path, value) :: more => do
      match ← uciWrite (.set path value) with
      | .ok () => .ret ((← stage bestEffort more).map fun r => (r.1, true))
      | .error e =>
          if bestEffort then .ret ((← stage bestEffort more).map fun r => (path :: r.1, r.2))
          else
            let _ ← uciWrite (.revert "wireless")
            .ret (.error (path ++ ": " ++ e))

def commit (skipped : List String) (reload : Bool) : Prog Outcome := do
  match ← uciWrite (.commit "wireless") with
  | .error e => failed ("commit wireless: " ++ e)
  | .ok () =>
      if reload then
        match ← ubus "zwrt_wlan" "reload" (.obj []) with
        | .error e => .ret (.ok (Wifi.reply ["wireless"] skipped reload (some e)))
        | .ok _ => .ret (.ok (Wifi.reply ["wireless"] skipped reload none))
      else .ret (.ok (Wifi.reply ["wireless"] skipped reload none))

def wifiApply (ryu : Ryu) (params : Value) : Prog Outcome :=
  match params.get "set" with
  | some (.obj set) =>
      if set = [] ∨ 32 < set.length then invalid "set must have 1-32 options"
      else
        match Wifi.reloadOf params with
        | .error e => invalid e
        | .ok reload => do
            let bestEffort := ((params.get "best_effort").bind Value.asBool).getD false
            let radio2g ← radioSection .band2g
            let radio5g ← radioSection .band5g
            match Wifi.gather ryu (radio2g, radio5g) set with
            | .error e => invalid e
            | .ok (updates, dead) =>
                match ← stage bestEffort updates with
                | .error e => failed e
                | .ok (skipped, false) =>
                    .ret (.ok (Wifi.reply [] (dead ++ skipped) reload none))
                | .ok (skipped, true) => commit (dead ++ skipped) reload
  | _ => invalid "missing parameter: set"

def PSM_IFACES : List String := ["wlan0", "wlan1", "wlan2", "wlan3"]

def onOff (enabled : Bool) : String := if enabled then "on" else "off"

def psmScript (enabled : Bool) : String :=
  "#!/bin/sh\n# written by zwrt-datad (wifi.power_save)\n[ \"$ACTION\" = ifup ] && \x7b\n" ++
    String.join (PSM_IFACES.map fun w =>
      "  iw dev " ++ w ++ " set power_save " ++ onOff enabled ++ " 2>/dev/null\n") ++ "\x7d\n"

/-- What `iw` says of an interface. -/
def psmLive (out : String) : Option Bool :=
  if Finding.contains "Power save: on" out.toList then some true
  else if Finding.contains "Power save: off" out.toList then some false
  else none

def psmSet (iw : String) (enabled : Bool) : List String → Prog Unit
  | [] => .ret ()
  | w :: ws => do
      let _ ← answer (.command iw ["dev", w, "set", "power_save", onOff enabled])
      psmSet iw enabled ws

def psmGet (iw : String) : List String → Prog (Option Bool)
  | [] => .ret none
  | w :: ws => do
      match ← answer (.command iw ["dev", w, "get", "power_save"]) with
      | .error _ => psmGet iw ws
      | .ok out =>
          match psmLive out with
          | some on => .ret (some on)
          | none => psmGet iw ws

/-- `power_save_apply`. -/
def powerSaveApply (iw : String) (enabled : Bool) : Prog Outcome := do
  match ← answer (.saveHotplug (psmScript enabled)) with
  | .error e => failed ("could not save Wi-Fi power save: " ++ e)
  | .ok () =>
      answer .removePsm
      psmSet iw enabled PSM_IFACES
      let live ← psmGet iw ["wlan0", "wlan2"]
      let reply : Outcome := .ok (.ofMembers [("enabled", .bool enabled), ("saved", .bool true),
        ("live", (live.map Value.bool).getD .null)])
      match live with
      | some on =>
          if on ≠ enabled then failed ("Wi-Fi power save still " ++ onOff on) else .ret reply
      | none => .ret reply

def wifiPowerSave (iw : String) (params : Value) : Prog Outcome :=
  match params.boolean "enabled" with
  | .error e => invalid e
  | .ok enabled => powerSaveApply iw enabled

/-! ### The vendor's other calls, DNS -/

def VENDOR_CALLS : List (String × String) :=
  [("zwrt_router.api", "router_set_lan_para"), ("zwrt_router.api", "router_set_wan_dns"),
    ("zwrt_router.api", "router_set_firewall_switch"),
    ("zwrt_router.api", "router_set_firewall_level"), ("zwrt_router.api", "router_set_nat_switch"),
    ("zwrt_router.api", "router_set_dmz"), ("zwrt_router.api", "router_set_upnp_switch"),
    ("zwrt_router.api", "router_set_portforward"),
    ("zwrt_router.api", "router_set_portforward_switch"),
    ("zwrt_router.api", "router_set_alg_switch"), ("zwrt_router.api", "router_set_qos_switch"),
    ("zwrt_router.api", "router_set_domain_filter"), ("zwrt_zte_mdm.api", "sim_verify_pin_puk"),
    ("zwrt_zte_mdm.api", "sim_change_pin"), ("zwrt_zte_mdm.api", "sim_change_pin_mode"),
    ("zwrt_zte_mdm.api", "set_simlock_nck"), ("zte_nwinfo_api", "nwinfo_set_stc_white_list_par"),
    ("zte_nwinfo_api", "nwinfo_stc_cell_lock_enable"),
    ("zte_nwinfo_api", "nwinfo_stc_cell_lock_disable"),
    ("zte_nwinfo_api", "nwinfo_stc_cell_lock_reset"),
    ("zte_nwinfo_api", "nwinfo_start_detect_signal_quality"),
    ("zte_nwinfo_api", "nwinfo_end_detect_signal_quality"),
    ("zwrt_mc.device.manager", "set_device_info"), ("zwrt_mc.device.manager", "device_reset"),
    ("system", "reboot"), ("zwrt_bsp.powerbank", "set"),
    ("zwrt_zte_sleep_faw.wakelock", "enableAutoSleep"), ("zwrt_wms", "zte_libwms_send_sms")]

/-- `args` of `vendor.call`, if it is an object that is not too long. -/
def vendorArgs (ryu : Ryu) (params : Value) : Option Value :=
  match params.get "args" with
  | none => some (.obj [])
  | some .null => some (.obj [])
  | some (.obj members) =>
      if (Value.toText ryu (.obj members)).utf8ByteSize ≤ 8192 then some (.obj members) else none
  | some _ => none

def vendorCall (ryu : Ryu) (params : Value) : Prog Outcome :=
  match params.string "object", params.string "method" with
  | .error e, _ => invalid e
  | _, .error e => invalid e
  | .ok object, .ok method =>
      if !VENDOR_CALLS.contains (object, method) then
        invalid ("not a vendor call datad makes: " ++ object ++ " " ++ method)
      else
        match vendorArgs ryu params with
        | none => invalid "args must be an object (at most 8 KB)"
        | some args => call object method args

def dohScript (enabled : Bool) : String :=
  if enabled then
    "printf 'server=127.0.0.1#5353\\nno-resolv\\n' > /tmp/dnsmasq.d/doh.conf; " ++
      "/etc/init.d/dnsmasq restart"
  else
    "rm -f /tmp/dnsmasq.d/doh.conf; uci delete dhcp.lan_dns.server 2>/dev/null; " ++
      "uci delete dhcp.lan_dns.noresolv 2>/dev/null; uci commit dhcp; /etc/init.d/dnsmasq restart"

def dnsDoh (params : Value) : Prog Outcome :=
  match params.boolean "enabled" with
  | .error e => invalid e
  | .ok enabled => do
      match ← answer (.command "sh" ["-c", dohScript enabled]) with
      | .ok _ => .ret (.ok (.ofMembers [("enabled", .bool enabled)]))
      | .error e => failed ("dnsmasq: " ++ e)

end Actions

end Datad
