/-
  Datad/Server/Permitted.lean
  ===========================
  **What `/control` may do to the device.**

  The calls, the `uci` paths, the AT commands and the arguments of other programs are the
  same few whatever a request says: the parts of a request that get into them are checked
  (`execute_allowed`).  What changes the device comes after the last check, and only in an
  action that counts as a write (`execute_refused`).
-/
import Datad.Server.Messages

namespace Datad

namespace Actions

open Interaction Interaction.Program Ubus

/-! ### The calls -/

def READS : List (String × String) :=
  [("zwrt_data", "get_wwaniface"), ("zwrt_apn_object", "get_apn_at_cid"),
    ("zwrt_bsp.charger", "list"), ("zwrt_bsp.typec", "list"), ("zwrt_bsp.usb", "list"),
    ("zwrt_bsp.powerbank", "get"), ("uci", "get"), ("zwrt_zte_mdm.api", "get_sim_info"),
    ("zwrt_web", "web_crt_get"), ("zwrt_wms", "zwrt_wms_get_cmd_status"),
    ("zwrt_wms", "zte_libwms_get_sms_data")]

def WRITES : List (String × String) :=
  [("zwrt_mc.device.manager", "device_reboot"), ("zwrt_mc.device.manager", "device_poweroff"),
    ("zwrt_data", "set_wwaniface"), ("zte_nwinfo_api", "nwinfo_set_netselect"),
    ("zte_nwinfo_api", "nwinfo_set_lte_ext_band"), ("zte_nwinfo_api", "nwinfo_set_nrbandlock"),
    ("zte_nwinfo_api", "nwinfo_lock_lte_cell"), ("zte_nwinfo_api", "nwinfo_lock_nr_cell"),
    ("zte_nwinfo_api", "nwinfo_manual_scan"), ("zte_nwinfo_api", "nwinfo_manual_register"),
    ("zte_nwinfo_api", "nwinfo_reset_band_cell_setting"), ("zwrt_qcmap_cli", "set_qcliiface"),
    ("zwrt_apn_object", "set_apn_at_cid"), ("zwrt_apn_object", "set_apn_mode"),
    ("zwrt_apn_object", "add_manu_apn"), ("zwrt_apn_object", "modify_manu_apn"),
    ("zwrt_apn_object", "delete_manu_apn"), ("zwrt_apn_object", "enable_manu_apn_id"),
    ("zwrt_wlan", "set"), ("zwrt_wlan", "reload"), ("zwrt_router.api", "router_set_lan_para"),
    ("zwrt_bsp.charger", "set"), ("zwrt_bsp.typec", "set"), ("zwrt_bsp.powerbank", "set"),
    ("zwrt_bsp.usb", "set"), ("zwrt_nfc", "zwrt_nfc_wifi_set"),
    ("zwrt_nfc", "zwrt_nfc_wifi_change"), ("zwrt_wms", "zwrt_wms_delete_sms"),
    ("zwrt_wms", "zwrt_wms_modify_tag"), ("zwrt_wms", "zte_libwms_send_sms"),
    ("zwrt_zte_mdm.api", "zwrt_mdm_change_provision_session"),
    ("zwrt_web", "web_http_enstr_set")]

/-- Requests after which the device is as it was. -/
def Request.reads : Request → Bool
  | .call i => READS.contains (i.service, i.method)
  | .command _ ["dev", _, "get", "power_save"] => true
  | .command .. | .uci _ | .at _ | .post .. | .saveHotplug _ | .removePsm => false
  | .sleep _ | .radio _ | .keepRadio .. | .sessionKey | .keepKey _ | .wrapKey _ | .encrypt .. =>
      true

/-- The name of a section that may be kept. -/
def sectionName (name : String) : Prop :=
  name ≠ "" ∧ name.utf8ByteSize ≤ 32 ∧ ∀ c ∈ name.toList, c.isAlphanum = true ∨ c = '_'

/-- All that is ever asked for. -/
inductive Allowed (host : Host) : Request → Prop
  | call {i : Invocation} (h : (i.service, i.method) ∈ READS ++ WRITES ++ VENDOR_CALLS) :
      Allowed host (.call i)
  | set {path value : String} {radios : String × String}
      (hkey : Wifi.wifiApplyKeyOk path radios = true)
      (hdead : Wifi.DEAD_KEYS.contains path = false)
      (hform : (Wifi.Mutation.set path value).wellFormed = true) :
      Allowed host (.uci (.set path value))
  | commit : Allowed host (.uci (.commit "wireless"))
  | revert : Allowed host (.uci (.revert "wireless"))
  | at (c : At.Cmd) : Allowed host (.at c)
  | doh (enabled : Bool) : Allowed host (.command "sh" ["-c", dohScript enabled])
  | iwSet {w : String} (hw : w ∈ PSM_IFACES) (enabled : Bool) :
      Allowed host (.command host.iw ["dev", w, "set", "power_save", onOff enabled])
  | iwGet {w : String} (hw : w ∈ PSM_IFACES) :
      Allowed host (.command host.iw ["dev", w, "get", "power_save"])
  | sqlite {ids : List (List Char)} (hne : ids ≠ []) (hmost : ids.length ≤ 500)
      (hids : ∀ id ∈ ids, id ≠ [] ∧ smallId id = true) :
      Allowed host (.command host.sqlite ["-cmd", ".timeout 2000", host.smsDb, deleteSql ids])
  | post {sender number message smsTime : String} (hsender : sender = "v3e1" ∨ sender = "v3e2")
      (hvalid : valid number message smsTime = true) :
      Allowed host (.post sender (smsForm number message smsTime))
  | hotplug (enabled : Bool) : Allowed host (.saveHotplug (psmScript enabled))
  | psm : Allowed host .removePsm
  | sleep (ms : Nat) : Allowed host (.sleep ms)
  | radio (b : Band) : Allowed host (.radio b)
  | keepRadio (b : Band) {name : String} (h : sectionName name) : Allowed host (.keepRadio b name)
  | sessionKey : Allowed host .sessionKey
  | keepKey (key : Key) : Allowed host (.keepKey key)
  | wrapKey (pem : String) : Allowed host (.wrapKey pem)
  | encrypt (key : Key) (text : String) : Allowed host (.encrypt key text)

theorem Allowed.of_mem {host : Host} {service method : String} {args : Value}
    (h : (service, method) ∈ READS ∨ (service, method) ∈ WRITES) :
    Allowed host (.call ⟨service, method, args⟩) :=
  .call (List.mem_append_left _ (List.mem_append.mpr h))

/-! ### Asking for what is allowed -/

section Asking

variable {P : Request → Prop} {service method : String} {args : Value}

theorem asks_rawCall (h : P (.call ⟨service, method, args⟩)) :
    Asks P (rawCall service method args) := Asks.request h

theorem asks_ubus (h : P (.call ⟨service, method, args⟩)) :
    Asks P (ubus service method args) := by
  refine (asks_rawCall h).bind fun r => ?_
  cases r with
  | ok v => exact .ret _
  | error e => exact .ret _

theorem asks_call (h : P (.call ⟨service, method, args⟩)) :
    Asks P (call service method args) := (asks_rawCall h).bind fun _ => .ret _

theorem asks_mappedCall {params : Value} {specs : List Field} {requireAny : Bool}
    (h : ∀ args, P (.call ⟨service, method, args⟩)) :
    Asks P (mappedCall params service method specs requireAny) := by
  unfold mappedCall
  split
  · exact .ret _
  · split
    · exact .ret _
    · exact asks_call (h _)

theorem asks_pollEvery {pause tries : Nat} {ok : Value → Bool} (hs : P (.sleep pause))
    (h : P (.call ⟨service, method, args⟩)) :
    Asks P (pollEvery pause service method args tries ok) := by
  refine (Asks.attempts (fun i => ?_) tries 0).bind fun _ => .ret _
  have hread : Asks P (pollOnce service method args ok) := by
    refine (asks_ubus h).bind fun r => ?_
    cases r with
    | ok v => exact .ret _
    | error e => exact .ret _
  by_cases hi : i ≠ 0
  · simp only [if_pos hi]
    exact (Asks.request hs).bind fun _ => hread
  · simp only [if_neg hi]
    exact hread

end Asking

section Table

variable {host : Host} {params : Value}

theorem allowed_cellularSet : Asks (Allowed host) (cellularSet params) := by
  unfold cellularSet
  split
  · exact .ret _
  · exact .ret _
  · refine (asks_ubus (.of_mem (by decide))).bind fun r => ?_
    split
    · exact .ret _
    · exact asks_call (.of_mem (by decide))
    · exact .ret _

theorem allowed_netselectRegister : Asks (Allowed host) (netselectRegister params) := by
  unfold netselectRegister
  split
  · exact .ret _
  · exact .ret _
  · split
    · exact .ret _
    · split
      · exact .ret _
      · dsimp only
        split
        · exact .ret _
        · exact asks_call (.of_mem (by decide))

theorem allowed_dial (ts : List Int) : ∀ last, Asks (Allowed host) (dial ts last) := by
  induction ts with
  | nil => exact fun last => .ret _
  | cons t ts ih =>
    intro last
    refine (asks_ubus (.of_mem (by decide))).bind fun r => ?_
    cases r with
    | ok v => exact ih v
    | error e => exact .ret _

theorem allowed_redial : Asks (Allowed host) (redial params) := by
  unfold redial
  split
  · exact .ret _
  · exact allowed_dial _ _
  · split
    · exact allowed_dial _ _
    · exact .ret _

theorem allowed_apnPdpType : Asks (Allowed host) (apnPdpType params) := by
  unfold apnPdpType
  split
  · exact .ret _
  · refine (asks_ubus (.of_mem (by decide))).bind fun r => ?_
    cases r with
    | error e => exact .ret _
    | ok apn =>
      refine (asks_ubus (.of_mem (by decide))).bind fun r => ?_
      cases r with
      | error e => exact .ret _
      | ok v => exact (asks_ubus (.of_mem (by decide))).bind fun _ => .ret _

theorem allowed_band (lte nsa : Bool) : Asks (Allowed host) (band params lte nsa) := by
  unfold band
  split
  · exact .ret _
  · dsimp only
    split
    · exact .ret _
    · split
      · exact asks_call (.of_mem (by decide))
      · exact asks_call (.of_mem (by decide))

theorem allowed_directSupply : Asks (Allowed host) (directSupply params) := by
  unfold directSupply
  split
  · exact .ret _
  · refine (asks_ubus (.of_mem (by decide))).bind fun r => ?_
    cases r with
    | error e => exact .ret _
    | ok before =>
      dsimp only
      split
      · exact .ret _
      · split
        · exact .ret _
        · refine (asks_rawCall (.of_mem (by decide))).bind fun reply => ?_
          split
          · split
            · exact .ret _
            · exact .ret _
          · refine (asks_pollEvery (.sleep _) (.of_mem (by decide))).bind fun ok => ?_
            split
            · exact .ret _
            · exact .ret _

theorem allowed_share : Asks (Allowed host) share := by
  refine (asks_call (.of_mem (by decide))).bind fun r => ?_
  split
  · exact .ret _
  · refine (asks_pollEvery (.sleep _) (.of_mem (by decide))).bind fun ok => ?_
    split
    · exact .ret _
    · exact .ret _

theorem allowed_fastCharge : Asks (Allowed host) fastCharge := by
  refine (asks_ubus (.of_mem (by decide))).bind fun r => ?_
  cases r with
  | error e => exact .ret _
  | ok v =>
    dsimp only
    split
    · exact .ret _
    · refine (asks_call (.of_mem (by decide))).bind fun r => ?_
      split
      · exact .ret _
      · refine (asks_pollEvery (.sleep _) (.of_mem (by decide))).bind fun ok => ?_
        split
        · exact .ret _
        · exact .ret _

theorem allowed_usbAttachMode : Asks (Allowed host) (usbAttachMode params) := by
  unfold usbAttachMode
  split
  · exact .ret _
  · exact .ret _
  · split
    · exact .ret _
    · split
      · exact .ret _
      · refine (asks_ubus (.of_mem (by decide))).bind fun r => ?_
        cases r with
        | error e => exact .ret _
        | ok typec =>
          dsimp only
          split_ifs
          · exact .ret _
          · exact .ret _
          · exact .ret _
          · refine (asks_ubus (.of_mem (by decide))).bind fun r => ?_
            cases r with
            | error e => exact .ret _
            | ok usb =>
              dsimp only
              split
              · exact .ret _
              · exact allowed_share
          · exact allowed_share
          · exact allowed_fastCharge

theorem allowed_nfc : Asks (Allowed host) (nfc params) := by
  unfold nfc
  split
  · exact .ret _
  · refine (asks_ubus (.of_mem (by decide))).bind fun r => ?_
    cases r with
    | error e => exact .ret _
    | ok v => exact (asks_ubus (.of_mem (by decide))).bind fun _ => .ret _

theorem allowed_wifiModule : Asks (Allowed host) (wifiModule params) := by
  unfold wifiModule
  split
  · exact .ret _
  · exact .ret _
  · split
    · exact .ret _
    · split
      · exact (asks_ubus (.of_mem (by decide))).bind fun _ => asks_call (.of_mem (by decide))
      · exact asks_call (.of_mem (by decide))

theorem allowed_vendorCall (ryu : Ryu) : Asks (Allowed host) (vendorCall ryu params) := by
  unfold vendorCall
  split
  · exact .ret _
  · exact .ret _
  · split
    · exact .ret _
    · rename_i object method _ _ h
      split
      · exact .ret _
      · rw [Bool.not_eq_true, Bool.not_eq_false', List.contains_iff_mem] at h
        exact asks_call (.call (List.mem_append_right _ h))

theorem allowed_dnsDoh : Asks (Allowed host) (dnsDoh params) := by
  unfold dnsDoh
  split
  · exact .ret _
  · refine (Asks.request (.doh _)).bind fun r => ?_
    cases r with
    | ok _ => exact .ret _
    | error e => exact .ret _

/-! ### `wifi.apply` -/

theorem sectionName_of_radioName {reply : Option Value} {name : String}
    (h : radioName reply = some name) : sectionName name := by
  unfold radioName at h
  obtain ⟨value, -, hname⟩ := Option.bind_eq_some_iff.mp h
  dsimp only at hname
  split at hname
  · rename_i hok
    obtain ⟨hne, hsize, hall⟩ := hok
    rw [Option.some_inj] at hname
    subst hname
    refine ⟨fun h => hne (by simpa using congrArg String.toList h), hsize, fun c hc => ?_⟩
    rw [String.toList_ofList] at hc
    simpa using List.all_eq_true.mp hall c hc
  · cases hname

theorem allowed_radioSection (b : Band) : Asks (Allowed host) (radioSection b) := by
  refine (Asks.request (.radio b)).bind fun r => ?_
  cases r with
  | some name => exact .ret _
  | none =>
    refine (asks_ubus (.of_mem (by decide))).bind fun reply => ?_
    split
    · rename_i name h
      exact Asks.request (.keepRadio b (sectionName_of_radioName h))
    · exact .ret _

theorem asks_uciWrite {P : Request → Prop} {m : Wifi.Mutation}
    (h : m.wellFormed = true → P (.uci m)) : Asks P (uciWrite m) := by
  unfold uciWrite
  cases hw : m.wellFormed with
  | false => exact .ret _
  | true => exact Asks.request (h hw)

theorem allowed_stage {radios : String × String} (bestEffort : Bool)
    (updates : List (String × String))
    (h : ∀ u ∈ updates, Wifi.wifiApplyKeyOk u.1 radios = true ∧
      Wifi.DEAD_KEYS.contains u.1 = false) :
    Asks (Allowed host) (stage bestEffort updates) := by
  induction updates with
  | nil => exact .ret _
  | cons u more ih =>
    obtain ⟨hkey, hdead⟩ := h u List.mem_cons_self
    have ih := ih fun u hu => h u (List.mem_cons_of_mem _ hu)
    refine (asks_uciWrite (.set hkey hdead)).bind fun r => ?_
    cases r with
    | ok _ => exact ih.bind fun _ => .ret _
    | error e =>
      dsimp only
      split
      · exact ih.bind fun _ => .ret _
      · exact (asks_uciWrite fun _ => .revert).bind fun _ => .ret _

theorem allowed_commit (skipped : List String) (reload : Bool) :
    Asks (Allowed host) (commit skipped reload) := by
  refine (asks_uciWrite fun _ => .commit).bind fun r => ?_
  cases r with
  | error e => exact .ret _
  | ok _ =>
    dsimp only
    split
    · refine (asks_ubus (.of_mem (by decide))).bind fun r => ?_
      cases r with
      | ok v => exact .ret _
      | error e => exact .ret _
    · exact .ret _

/-- What is to be written was checked. -/
theorem gather_checked {ryu : Ryu} {radios : String × String} :
    ∀ {set : List (String × Value)} {updates : List (String × String)} {dead : List String},
      Wifi.gather ryu radios set = .ok (updates, dead) →
      ∀ u ∈ updates, Wifi.wifiApplyKeyOk u.1 radios = true ∧
        Wifi.DEAD_KEYS.contains u.1 = false := by
  intro set
  induction set with
  | nil =>
    intro updates dead h u hu
    cases h
    cases hu
  | cons o more ih =>
    intro updates dead h u hu
    obtain ⟨path, v⟩ := o
    rw [Wifi.gather] at h
    cases hc : Wifi.checked ryu radios path v with
    | error e =>
      rw [hc] at h
      cases h
    | ok value =>
      have hkey : Wifi.wifiApplyKeyOk path radios = true := by
        unfold Wifi.checked at hc
        split at hc
        · cases hc
        · rename_i hk
          simpa using hk
      rw [hc] at h
      cases hg : Wifi.gather ryu radios more with
      | error e =>
        rw [hg] at h
        cases h
      | ok r =>
        simp only [hg, Except.map, Except.ok.injEq] at h
        have ih := ih hg u
        split at h
        · cases h
          exact ih hu
        · rename_i hlive
          cases h
          rcases List.mem_cons.mp hu with rfl | hu
          · exact ⟨hkey, by simpa using hlive⟩
          · exact ih hu

theorem allowed_wifiApply (ryu : Ryu) : Asks (Allowed host) (wifiApply ryu params) := by
  unfold wifiApply
  split
  · split
    · exact .ret _
    · split
      · exact .ret _
      · refine (allowed_radioSection _).bind fun radio2g => ?_
        refine (allowed_radioSection _).bind fun radio5g => ?_
        split
        · exact .ret _
        · rename_i hg
          refine (allowed_stage _ _ (gather_checked hg)).bind fun r => ?_
          split
          · exact .ret _
          · exact .ret _
          · exact allowed_commit _ _
  · exact .ret _

theorem allowed_psmSet (enabled : Bool) {ws : List String} (hws : ∀ w ∈ ws, w ∈ PSM_IFACES) :
    Asks (Allowed host) (psmSet host.iw enabled ws) := by
  induction ws with
  | nil => exact .ret _
  | cons w ws ih =>
    refine (Asks.request (.iwSet (hws w List.mem_cons_self) enabled)).bind fun _ => ?_
    exact ih fun w hw => hws w (List.mem_cons_of_mem _ hw)

theorem allowed_psmGet {ws : List String} (hws : ∀ w ∈ ws, w ∈ PSM_IFACES) :
    Asks (Allowed host) (psmGet host.iw ws) := by
  induction ws with
  | nil => exact .ret _
  | cons w ws ih =>
    have ih := ih fun w hw => hws w (List.mem_cons_of_mem _ hw)
    refine (Asks.request (.iwGet (hws w List.mem_cons_self))).bind fun r => ?_
    cases r with
    | error e => exact ih
    | ok out =>
      dsimp only
      split
      · exact .ret _
      · exact ih

theorem allowed_wifiPowerSave : Asks (Allowed host) (wifiPowerSave host.iw params) := by
  unfold wifiPowerSave
  split
  · exact .ret _
  · refine (Asks.request (.hotplug _)).bind fun r => ?_
    cases r with
    | error e => exact .ret _
    | ok _ =>
      refine (Asks.request .psm).bind fun _ => ?_
      refine (allowed_psmSet _ fun w hw => hw).bind fun _ => ?_
      refine (allowed_psmGet (by decide)).bind fun live => ?_
      dsimp only
      split
      · split
        · exact .ret _
        · exact .ret _
      · exact .ret _

/-! ### The text messages -/

theorem allowed_ensureCryptoSession : Asks (Allowed host) ensureCryptoSession := by
  refine (Asks.request .sessionKey).bind fun r => ?_
  cases r with
  | some key => exact .ret _
  | none =>
    refine (asks_ubus (.of_mem (by decide))).bind fun r => ?_
    cases r with
    | error e => exact .ret _
    | ok reply =>
      dsimp only
      split
      · exact .ret _
      · refine (Asks.request (.wrapKey _)).bind fun r => ?_
        cases r with
        | error e => exact .ret _
        | ok kw =>
          refine (asks_ubus (.of_mem (by decide))).bind fun r => ?_
          cases r with
          | error e => exact .ret _
          | ok _ => exact (Asks.request (.keepKey _)).bind fun _ => .ret _

theorem allowed_currentSlot : Asks (Allowed host) currentSlot :=
  (Asks.request (.of_mem (by decide))).bind fun _ => .ret _

theorem allowed_awaitSlot (slot : Int) : Asks (Allowed host) (awaitSlot slot) := by
  refine (Asks.attempts (fun _ => ?_) 30 0).bind fun active => .ret _
  refine allowed_currentSlot.bind fun n => ?_
  split
  · exact .ret _
  · exact (Asks.request (.sleep _)).bind fun _ => .ret _

theorem allowed_selectSlot (slot : Int) : Asks (Allowed host) (selectSlot slot) := by
  refine (asks_ubus (.of_mem (by decide))).bind fun _ => ?_
  refine (asks_ubus (.of_mem (by decide))).bind fun r => ?_
  cases r with
  | error e => exact .ret _
  | ok _ =>
    refine (allowed_awaitSlot slot).bind fun active => ?_
    cases active with
    | true => exact .ret _
    | false => exact .ret _

theorem allowed_deliver (number message smsTime : String) :
    Asks (Allowed host) (deliver number message smsTime) := by
  refine (asks_ubus (.of_mem (by decide))).bind fun r => ?_
  cases r with
  | error e => exact .ret _
  | ok _ =>
    refine (Asks.attempts (fun _ => ?_) 20 0).bind fun status => ?_
    · refine (Asks.request (.sleep _)).bind fun _ => ?_
      exact (Asks.request (.of_mem (by decide))).bind fun _ => .ret _
    · split
      · exact .ret _
      · exact .ret _
      · exact .ret _

theorem allowed_sendHost (number message smsTime : String) :
    Asks (Allowed host) (sendHost number message smsTime) := by
  refine allowed_ensureCryptoSession.bind fun r => ?_
  cases r with
  | error e => exact .ret _
  | ok key =>
    refine (Asks.request (.encrypt _ _)).bind fun r => ?_
    cases r with
    | error e => exact .ret _
    | ok number =>
      refine (Asks.request (.encrypt _ _)).bind fun r => ?_
      cases r with
      | error e => exact .ret _
      | ok message => exact allowed_deliver _ _ _

theorem allowed_sendExternal {sender number message smsTime : String}
    (hsender : sender = "v3e1" ∨ sender = "v3e2")
    (hvalid : valid number message smsTime = true) :
    Asks (Allowed host) (sendExternal sender number message smsTime) := by
  refine (Asks.request (.post hsender hvalid)).bind fun r => ?_
  split
  · exact .ret _
  · exact .ret _
  · split
    · exact .ret _
    · exact .ret _

theorem allowed_smsSend : Asks (Allowed host) (smsSend params) := by
  unfold smsSend
  split
  · rename_i number message smsTime _ _ _
    dsimp only
    split_ifs with hvalid hexternal hhost hsim
    · exact .ret _
    · rw [Bool.not_eq_true, Bool.not_eq_false'] at hvalid
      exact (allowed_sendExternal hexternal hvalid).bind fun _ => .ret _
    · exact (allowed_sendHost _ _ _).bind fun _ => .ret _
    · refine allowed_currentSlot.bind fun n => ?_
      split
      · exact (allowed_sendHost _ _ _).bind fun _ => .ret _
      · refine (allowed_selectSlot _).bind fun ready => ?_
        cases ready with
        | error e => exact .ret _
        | ok _ => exact (allowed_sendHost _ _ _).bind fun _ => .ret _
    · exact .ret _
  · exact .ret _

theorem asks_scanStore {P : Request → Prop}
    (h : ∀ args, P (.call ⟨"zwrt_wms", "zte_libwms_get_sms_data", args⟩))
    (afterId store left : Nat) : ∀ page prev found, Asks P (scanStore afterId store left page prev found) := by
  induction left with
  | zero => exact fun _ _ _ => .ret _
  | succ left ih =>
    intro page prev found
    refine (asks_ubus (h _)).bind fun r => ?_
    cases r with
    | error e => exact .ret _
    | ok reply =>
      dsimp only
      split_ifs
      · exact .ret _
      · exact .ret _
      · exact ih _ _ _

theorem asks_scanStores {P : Request → Prop}
    (h : ∀ args, P (.call ⟨"zwrt_wms", "zte_libwms_get_sms_data", args⟩)) (afterId : Nat)
    (stores : List Nat) : ∀ found, Asks P (scanStores afterId stores found) := by
  induction stores with
  | nil => exact fun _ => .ret _
  | cons store stores ih =>
    intro found
    refine (asks_scanStore h _ _ _ _ _ _).bind fun r => ?_
    cases r with
    | error e => exact .ret _
    | ok found => exact ih found

theorem asks_smsListAfter {P : Request → Prop} (hkey : P .sessionKey)
    (h : ∀ args, P (.call ⟨"zwrt_wms", "zte_libwms_get_sms_data", args⟩)) :
    Asks P (smsListAfter host params) := by
  unfold smsListAfter
  split
  · exact .ret _
  · exact .ret _
  · split
    · exact .ret _
    · refine (asks_scanStores h _ _ _).bind fun r => ?_
      cases r with
      | error e => exact .ret _
      | ok found => exact (Asks.request hkey).bind fun _ => .ret _

theorem allowed_smsDbDelete : Asks (Allowed host) (smsDbDelete host params) := by
  unfold smsDbDelete
  split
  · exact .ret _
  · dsimp only
    split
    · exact .ret _
    · rename_i ids _ hids
      push Not at hids
      obtain ⟨hne, hmost, hall⟩ := hids
      rw [ne_eq, Bool.not_eq_true', Bool.not_eq_false] at hall
      have hsmall : ∀ id ∈ idList ids.toList, id ≠ [] ∧ smallId id = true := fun id hid =>
        ⟨by simpa using (List.mem_filter.mp hid).2, List.all_eq_true.mp hall id hid⟩
      refine (Asks.request (.sqlite hne hmost hsmall)).bind fun r => ?_
      cases r with
      | ok _ => exact .ret _
      | error e => exact .ret _

theorem allowed_mapped {service method : String} {specs : List Field} {requireAny : Bool}
    (h : (service, method) ∈ WRITES) :
    Asks (Allowed host) (mappedCall params service method specs requireAny) :=
  asks_mappedCall fun _ => .of_mem (Or.inr h)

/-- **`/control` asks for nothing but what is on the lists**: whatever the action, its
    parameters and the answers are. -/
theorem execute_allowed (host : Host) (action : String) (params : Value) :
    Asks (Allowed host) (execute host action params) := by
  unfold execute
  split
  all_goals first
    | exact asks_call (.of_mem (by decide))
    | exact allowed_mapped (by decide)
    | skip
  · exact allowed_cellularSet
  · exact allowed_band _ _
  · exact allowed_band _ _
  · exact allowed_band _ _
  · exact allowed_netselectRegister
  · exact (Asks.request (.at _)).bind fun _ => .ret _
  · exact allowed_redial
  · exact (Asks.request (.at _)).bind fun _ => .ret _
  · exact allowed_apnPdpType
  · exact allowed_wifiApply _
  · exact allowed_vendorCall _
  · exact allowed_dnsDoh
  · exact allowed_smsDbDelete
  · exact allowed_wifiPowerSave
  · exact allowed_wifiModule
  · exact allowed_directSupply
  · exact allowed_usbAttachMode
  · exact allowed_nfc
  · exact allowed_smsSend
  · exact asks_smsListAfter .sessionKey fun _ => .of_mem (by decide)
  · exact .ret _

end Table

end Actions

end Datad
