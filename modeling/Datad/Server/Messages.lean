/-
  Datad/Server/Messages.lean
  ==========================
  **The actions on text messages** (`sms.rs`, and `sms_db_delete` of `control.rs`), and the
  table of all actions (`execute`).
-/
import Datad.Server.Actions

namespace Datad

namespace Actions

open Interaction Interaction.Program Ubus

/-! ### Sending -/

/-- Digits, the first of which may be a plus sign. -/
def numberChars : List Char → Bool
  | [] => true
  | c :: cs => (c.isDigit || decide (c = '+')) && cs.all Char.isDigit

def isHex (c : Char) : Bool := c.isDigit || ('a' ≤ c && c ≤ 'f') || ('A' ≤ c && c ≤ 'F')

def timeChar (c : Char) : Bool := c.isDigit || [';', '+', '-'].contains c

/-- `valid`.  A text of such characters is as long in bytes. -/
def valid (number message smsTime : String) : Bool :=
  decide (number ≠ "") && decide (number.utf8ByteSize ≤ 32) && numberChars number.toList &&
    decide (message ≠ "") && decide (message.utf8ByteSize ≤ 4096) &&
    decide (message.utf8ByteSize % 2 = 0) && message.toList.all isHex &&
    decide (smsTime ≠ "") && decide (smsTime.utf8ByteSize ≤ 64) && smsTime.toList.all timeChar

/-- `ensure_crypto_session`. -/
def ensureCryptoSession : Prog (Except String Key) := do
  match ← answer .sessionKey with
  | some key => .ret (.ok key)
  | none =>
      match ← ubus "zwrt_web" "web_crt_get" (.obj []) with
      | .error e => .ret (.error e)
      | .ok reply =>
          match str reply "result" with
          | none => .ret (.error "vendor RSA certificate unavailable")
          | some pem =>
              match ← answer (.wrapKey pem) with
              | .error e => .ret (.error e)
              | .ok (key, wrapped) =>
                  match ← ubus "zwrt_web" "web_http_enstr_set"
                      (.ofMembers [("web_enstr", .str wrapped)]) with
                  | .error e => .ret (.error e)
                  | .ok _ =>
                      answer (.keepKey key)
                      .ret (.ok key)

def GET_SIM_INFO : Invocation := ⟨"zwrt_zte_mdm.api", "get_sim_info", .obj []⟩

/-- The slot that an answer names; 0 if it names none. -/
def slotOf (reply : CallAnswer) : Int :=
  match reply with
  | .ok v => (((v.get "current_sim_slot").or (v.get "sim_slot")).bind Value.asInt).getD 0
  | .error _ => 0

def currentSlot : Prog Int := do .ret (slotOf (← answer (.call GET_SIM_INFO)))

def provision (slot flag : Int) : Value :=
  .ofMembers [("active_slot", .num (.int slot)), ("active_flag", .num (.int flag))]

/-- Ask until the slot is active. -/
def awaitSlot (slot : Int) : Prog Bool := do
  let active ← attempts (fun _ => do
    if (← currentSlot) = slot then .ret (some ())
    else
      answer (.sleep 500)
      .ret none) 30 0
  .ret active.isSome

/-- The second half of `select_slot`: the new slot. -/
def activate (slot : Int) : Prog (Except String Unit) := do
  match ← ubus "zwrt_zte_mdm.api" "zwrt_mdm_change_provision_session" (provision slot 1) with
  | .error e => .ret (.error e)
  | .ok _ =>
      if ← awaitSlot slot then .ret (.ok ())
      else .ret (.error s!"SIM slot {slot} did not become active")

def selectSlot (slot : Int) : Prog (Except String Unit) := do
  let _ ← ubus "zwrt_zte_mdm.api" "zwrt_mdm_change_provision_session"
    (provision (if slot = 2 then 1 else 2) 0)
  activate slot

def CMD_STATUS : Invocation :=
  ⟨"zwrt_wms", "zwrt_wms_get_cmd_status", .ofMembers [("sms_cmd", .num (.int 4))]⟩

def statusOf (reply : CallAnswer) : Option Int :=
  match reply with
  | .ok v => int v "sms_cmd_status_result"
  | .error _ => none

def sent (sender : String) : Value :=
  .ofMembers [("sender", .str sender), ("status", .num (.int 3))]

def sendArgs (number message smsTime : String) : Value :=
  .ofMembers [("number", .str number), ("message_body", .str message), ("sms_time", .str smsTime),
    ("encode_type", .str "UNICODE"), ("id", .str "-1")]

/-- The message is handed over; then ask how it went. -/
def deliver (number message smsTime : String) : Prog (Except String Value) := do
  match ← ubus "zwrt_wms" "zte_libwms_send_sms" (sendArgs number message smsTime) with
  | .error e => .ret (.error e)
  | .ok _ =>
      let status ← attempts (fun _ => do
        answer (.sleep 500)
        let reply ← answer (.call CMD_STATUS)
        .ret ((statusOf reply).filter fun s => decide (s = 3) || decide (s = 2))) 20 0
      match status with
      | some 3 => .ret (.ok (sent "host"))
      | some _ => .ret (.error "zwrt_wms SMS command failed")
      | none => .ret (.error "zwrt_wms SMS command timed out")

def sendHost (number message smsTime : String) : Prog (Except String Value) := do
  match ← ensureCryptoSession with
  | .error e => .ret (.error e)
  | .ok key =>
      match ← answer (.encrypt key number) with
      | .error e => .ret (.error e)
      | .ok number =>
          match ← answer (.encrypt key message) with
          | .error e => .ret (.error e)
          | .ok message => deliver number message smsTime

def escapePlus (s : List Char) : List Char :=
  s.flatMap fun c => if c = '+' then ['%', '2', 'B'] else [c]

/-- `encode_plus`. -/
def encodePlus (s : String) : String := String.ofList (escapePlus s.toList)

def smsForm (number message smsTime : String) : String :=
  "goformId=SEND_SMS&Number=" ++ encodePlus number ++ "&MessageBody=" ++ message ++
    "&ID=-1&encode_type=UNICODE&sms_time=" ++ encodePlus smsTime

/-- Whether the other device says that the message was sent. -/
def HttpReply.sent (r : HttpReply) : Bool :=
  r.success && !r.contentLength.any (4096 < ·) &&
    match r.body with
    | some (length, some v) => decide (length ≤ 4096) && decide (str v "result" = some "success")
    | _ => false

def sendExternal (sender number message smsTime : String) : Prog (Except String Value) := do
  match ← answer (.post sender (smsForm number message smsTime)) with
  | .error (some e) => .ret (.error e)
  | .error none => .ret (.error (sender ++ " SMS endpoint unavailable"))
  | .ok r =>
      if r.sent then .ret (.ok (sent sender)) else .ret (.error (sender ++ " SMS send failed"))

def ofResult : Except String Value → Outcome
  | .ok v => .ok v
  | .error e => .failed e

def slotNumber (sender : String) : Int := if sender = "sim1" then 1 else 2

/-- `sms.send_raw`. -/
def smsSend (params : Value) : Prog Outcome :=
  match str params "number", str params "message_hex", str params "sms_time" with
  | some number, some message, some smsTime =>
      let sender := (str params "sender").getD "host"
      if !valid number message smsTime then invalid "invalid SMS parameters"
      else if sender = "v3e1" ∨ sender = "v3e2" then do
        .ret (ofResult (← sendExternal sender number message smsTime))
      else if sender = "host" ∨ sender = "x75" then do
        .ret (ofResult (← sendHost number message smsTime))
      else if sender = "sim1" ∨ sender = "sim2" then do
        let slot := slotNumber sender
        let ready : Except String Unit ←
          if (← currentSlot) = slot then .ret (.ok ()) else selectSlot slot
        match ready with
        | .error e => failed e
        | .ok () => .ret (ofResult (← sendHost number message smsTime))
      else invalid "invalid SMS sender"
  | _, _, _ => invalid "missing SMS parameters"

/-! ### Listing -/

def listPageArgs (memStore page : Nat) : Value :=
  .ofMembers [("page", .num (.int page)), ("data_per_page", .num (.int Sms.LIST_PAGE)),
    ("mem_store", .num (.int memStore)), ("tags", .num (.int 10)),
    ("order_by", .str "order by id desc")]

def fetchPage (store page : Nat) : Prog (Except String Value) :=
  ubus "zwrt_wms" "zte_libwms_get_sms_data" (listPageArgs store page)

/-- `Sms.scan`, over the device. -/
def scanStore (afterId store : Nat) : Nat → Nat → Option (Finset Nat) → List (Nat × Value) →
    Prog (Except String (List (Nat × Value)))
  | 0, _, _, _ => .ret (.error <| s!"mem_store {store}: more than " ++
      s!"{Sms.LIST_MAX_PAGES * Sms.LIST_PAGE} SMS above id {afterId}")
  | left + 1, page, prev, found => do
      match ← fetchPage store page with
      | .error error => .ret (.error s!"mem_store {store}: {error}")
      | .ok reply =>
          let items := Sms.pageItems reply
          let ids := (items.filterMap Sms.itemId).toFinset
          if Sms.LIST_PAGE ≤ items.length ∧ prev = some ids then
            .ret (.error <| s!"mem_store {store}: page {page} repeats page " ++
              s!"{page - 1} (firmware ignored page)")
          else
            let l := Sms.lookAll afterId ⟨found, false, false⟩ items
            if l.reached = true ∨ l.fresh = false ∨ items.length < Sms.LIST_PAGE then
              .ret (.ok l.found)
            else scanStore afterId store left (page + 1) (some ids) l.found

def scanStores (afterId : Nat) :
    List Nat → List (Nat × Value) → Prog (Except String (List (Nat × Value)))
  | [], found => .ret (.ok found)
  | store :: stores, found => do
      match ← scanStore afterId store Sms.LIST_MAX_PAGES 0 none found with
      | .error e => .ret (.error e)
      | .ok found => scanStores afterId stores found

/-- `number` of `list_after`. -/
def natural (params : Value) (name : String) (default : Nat) : Except String Nat :=
  match params.get name with
  | none => .ok default
  | some v =>
      match v.asU64 with
      | some n => .ok n
      | none => .error (name ++ " must be a non-negative integer")

/-- A field of a message, opened if it is an envelope. -/
def plainText (host : Host) (key : Option Key) (item : Value) (name alt : String) : Value :=
  let raw := ((str item name).or (str item alt)).getD ""
  match host.openEnvelope key raw with
  | .ok (some plain) => .str plain
  | _ => .str raw

def plainItem (host : Host) (key : Option Key) (item : Value) : Value :=
  .ofMembers <|
    [("id", .num (.int ((Sms.itemId item).getD 0))),
      ("number", plainText host key item "number" "num"),
      ("content", plainText host key item "content" "text")] ++
    ["date", "tag", "mem_store"].filterMap fun name => (item.get name).map fun v => (name, v)

def LIST_LIMIT_MAX : Nat := 50

/-- `sms.list_after`. -/
def smsListAfter (host : Host) (params : Value) : Prog Outcome :=
  match natural params "after_id" 0, natural params "limit" LIST_LIMIT_MAX with
  | .error e, _ => invalid e
  | _, .error e => invalid e
  | .ok afterId, .ok limit =>
      if limit = 0 ∨ LIST_LIMIT_MAX < limit then invalid "limit must be 1..=50"
      else do
        match ← scanStores afterId [1, 0] [] with
        | .error e => failed e
        | .ok found =>
            let key ← answer .sessionKey
            .ret (.ok (.ofMembers
              [("items", .arr (((found.map Prod.snd).take limit).map (plainItem host key))),
                ("has_more", .bool (decide (limit < found.length)))]))

/-! ### Deleting from the database -/

/-- The ids between the separators. -/
def idList (ids : List Char) : List (List Char) := (ids.splitOn ';').filter (· ≠ [])

def smallId (id : List Char) : Bool := decide (id.length ≤ 12) && id.all Char.isDigit

def deleteSql (ids : List (List Char)) : String :=
  "DELETE FROM sms WHERE id IN (" ++ String.ofList (List.intercalate [','] ids) ++ ");"

def smsDbDelete (host : Host) (params : Value) : Prog Outcome :=
  match params.string "ids" with
  | .error e => invalid e
  | .ok ids =>
      let list := idList ids.toList
      if list = [] ∨ 500 < list.length ∨ !list.all smallId then
        invalid "ids must be numbers separated by ';'"
      else do
        match ← answer (.command host.sqlite
            ["-cmd", ".timeout 2000", host.smsDb, deleteSql list]) with
        | .ok _ => .ret (.ok (.ofMembers [("deleted", .num (.int list.length))]))
        | .error e => failed ("sqlite3: " ++ e)

/-! ### The table -/

def WEB_MODULE : Value := .ofMembers [("moduleName", .str "web")]

/-- `execute`. -/
def execute (host : Host) (action : String) (params : Value) : Prog Outcome :=
  match action with
  | "device.reboot" => call "zwrt_mc.device.manager" "device_reboot" WEB_MODULE
  | "device.poweroff" => call "zwrt_mc.device.manager" "device_poweroff" WEB_MODULE
  | "cellular.set" => cellularSet params
  | "network.set_mode" =>
      mappedCall params "zte_nwinfo_api" "nwinfo_set_netselect"
        [⟨"mode", "net_select", true, false⟩] false
  | "band.set_lte" => band params true false
  | "band.set_nr_sa" => band params false false
  | "band.set_nr_nsa" => band params false true
  | "cell.lock_lte" =>
      mappedCall params "zte_nwinfo_api" "nwinfo_lock_lte_cell"
        [⟨"pci", "lock_lte_pci", true, false⟩, ⟨"earfcn", "lock_lte_earfcn", true, false⟩] false
  | "cell.lock_nr" =>
      mappedCall params "zte_nwinfo_api" "nwinfo_lock_nr_cell"
        [⟨"pci", "lock_nr_pci", true, false⟩, ⟨"arfcn", "lock_nr_earfcn", true, false⟩,
          ⟨"band", "lock_nr_cell_band", true, false⟩] false
  | "netselect.scan" => call "zte_nwinfo_api" "nwinfo_manual_scan" (.obj [])
  | "netselect.register" => netselectRegister params
  | "netselect.auto" => atSend .copsAuto
  | "cellular.redial" => redial params
  | "modem.online" => atSend .cfunOnline
  | "apn.set_pdp_type" => apnPdpType params
  | "wifi.apply" => wifiApply host.ryu params
  | "wifi.reload" => call "zwrt_wlan" "reload" (.obj [])
  | "vendor.call" => vendorCall host.ryu params
  | "dns.doh" => dnsDoh params
  | "sms.db_delete" => smsDbDelete host params
  | "wifi.power_save" => wifiPowerSave host.iw params
  | "band.reset" => call "zte_nwinfo_api" "nwinfo_reset_band_cell_setting" (.obj [])
  | "wifi.set_module" => wifiModule params
  | "lan.set" =>
      mappedCall params "zwrt_router.api" "router_set_lan_para"
        [⟨"ip", "ipaddr", false, false⟩, ⟨"netmask", "netmask", false, false⟩,
          ⟨"dhcp_disabled", "ignore", false, true⟩, ⟨"dhcp_start", "zte_start", false, false⟩,
          ⟨"dhcp_end", "zte_end", false, false⟩,
          ⟨"lease_seconds", "leasetime", false, false⟩] true
  | "power.direct_supply.set" => directSupply params
  | "usb.set" =>
      mappedCall params "zwrt_bsp.usb" "set"
        [⟨"mode", "mode", false, false⟩, ⟨"port_switch", "usb_port_switch", false, false⟩,
          ⟨"network_protocol", "usb_network_protocal", false, false⟩] true
  | "usb.attach_mode" => usbAttachMode params
  | "nfc.set" => nfc params
  | "apn.set_mode" =>
      mappedCall params "zwrt_apn_object" "set_apn_mode" [⟨"mode", "apn_mode", true, true⟩] false
  | "apn.add" => apn params "add_manu_apn" false
  | "apn.modify" => apn params "modify_manu_apn" true
  | "apn.delete" =>
      mappedCall params "zwrt_apn_object" "delete_manu_apn"
        [⟨"profile_id", "profileId", true, false⟩] false
  | "apn.enable" =>
      mappedCall params "zwrt_apn_object" "enable_manu_apn_id"
        [⟨"profile_id", "profileId", true, false⟩] false
  | "sms.delete" =>
      mappedCall params "zwrt_wms" "zwrt_wms_delete_sms" [⟨"ids", "id", true, false⟩] false
  | "sms.mark_read" =>
      mappedCall params "zwrt_wms" "zwrt_wms_modify_tag"
        [⟨"ids", "id", true, false⟩, ⟨"tag", "tag", false, true⟩] false
  | "sms.send_raw" => smsSend params
  | "sms.list_after" => smsListAfter host params
  | _ => .ret .notHandled

end Actions

end Datad
