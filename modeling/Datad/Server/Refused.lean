/-
  Datad/Server/Refused.lean
  =========================
  **A refused request has changed nothing.**

  What an action asks for before its last check are readings.  What can come after the first
  change is an error of the device, which is a failure and no refusal.
-/
import Datad.Server.Permitted

namespace Datad

/-- The request was not taken. -/
def Outcome.refused : Outcome → Prop
  | .invalid _ | .notHandled => True
  | .failed _ | .ok _ => False

namespace Actions

open Interaction Interaction.Program Ubus

/-- Refused only after readings. -/
def Harmless (p : Prog Outcome) : Prop :=
  Ensures p fun t r => r.refused → ∀ e ∈ t, e.1.reads

/-- Never refused. -/
def Taken (p : Prog Outcome) : Prop := Ensures p fun _ r => ¬r.refused

variable {α : Type} {p : Prog α} {f : α → Prog Outcome}

theorem Taken.bind (hf : ∀ a, Taken (f a)) : Taken (p >>= f) := Ensures.last hf

theorem taken_failed (message : String) : Taken (failed message) := id

theorem taken_ok (v : Value) : Taken (.ret (.ok v)) := id

theorem taken_ofResult (r : Except String Value) : Taken (.ret (ofResult r)) := by
  cases r with
  | ok v => exact taken_ok v
  | error e => exact taken_failed e

theorem taken_call (service method : String) (args : Value) :
    Taken (call service method args) := by
  intro reply
  show ¬(writeOutcome reply).refused
  unfold writeOutcome
  split
  · exact id
  · exact id

theorem Harmless.ret (r : Outcome) : Harmless (.ret r) := fun _ _ he => absurd he List.not_mem_nil

theorem Harmless.taken {p : Prog Outcome} (h : Taken p) : Harmless p :=
  h.mono fun _ _ hr hrefused => absurd hrefused hr

theorem Harmless.of_asks {p : Prog Outcome} (h : Asks (·.reads) p) : Harmless p :=
  (Ensures.of_asks h).mono fun _ _ hall _ => hall

/-- Readings first. -/
theorem Harmless.read (h : Asks (·.reads) p) (hf : ∀ a, Harmless (f a)) :
    Harmless (p >>= f) :=
  (Ensures.of_asks h).bind fun _ a ht => (hf a).mono fun _ _ hr hrefused e he =>
    (List.mem_append.mp he).elim (ht e) (hr hrefused e)

/-! ### The actions -/

section Table

variable {host : Host} {params : Value}

theorem harmless_mappedCall {service method : String} {specs : List Field} {requireAny : Bool} :
    Harmless (mappedCall params service method specs requireAny) := by
  unfold mappedCall
  split
  · exact .ret _
  · split
    · exact .ret _
    · exact .taken (taken_call _ _ _)

theorem harmless_cellularSet : Harmless (cellularSet params) := by
  unfold cellularSet
  split
  · exact .ret _
  · exact .ret _
  · refine .taken (.bind fun r => ?_)
    split
    · exact taken_failed _
    · exact taken_call _ _ _
    · exact taken_failed _

theorem harmless_netselectRegister : Harmless (netselectRegister params) := by
  unfold netselectRegister
  split
  · exact .ret _
  · exact .ret _
  · split
    · exact .ret _
    · split
      · exact .ret _
      · dsimp only
        split
        · exact .ret _
        · exact .taken (taken_call _ _ _)

theorem taken_atSend (c : At.Cmd) : Taken (atSend c) := by
  refine .bind fun r => ?_
  cases r with
  | ok a => exact taken_ok _
  | error e => exact taken_failed e

theorem taken_dial (ts : List Int) : ∀ last, Taken (dial ts last) := by
  induction ts with
  | nil => exact fun last => taken_ok last
  | cons t ts ih =>
    refine fun last => .bind fun r => ?_
    cases r with
    | ok v => exact ih v
    | error e => exact taken_failed e

theorem harmless_redial : Harmless (redial params) := by
  unfold redial
  split
  · exact .ret _
  · exact .taken (taken_dial _ _)
  · split
    · exact .taken (taken_dial _ _)
    · exact .ret _

theorem harmless_apnPdpType : Harmless (apnPdpType params) := by
  unfold apnPdpType
  split
  · exact .ret _
  · refine .taken (.bind fun r => ?_)
    cases r with
    | error e => exact taken_failed _
    | ok apn =>
      refine .bind fun r => ?_
      cases r with
      | error e => exact taken_failed _
      | ok v => exact .bind fun _ => taken_ok _

theorem harmless_band (lte nsa : Bool) : Harmless (band params lte nsa) := by
  unfold band
  split
  · exact .ret _
  · dsimp only
    split
    · exact .ret _
    · split
      · exact .taken (taken_call _ _ _)
      · exact .taken (taken_call _ _ _)

theorem harmless_directSupply : Harmless (directSupply params) := by
  unfold directSupply
  split
  · exact .ret _
  · refine .taken (.bind fun r => ?_)
    cases r with
    | error e => exact taken_failed e
    | ok before =>
      dsimp only
      split
      · exact taken_failed _
      · split
        · exact taken_ok _
        · refine .bind fun reply => ?_
          split
          · split
            · exact taken_failed _
            · exact taken_failed _
          · refine .bind fun ok => ?_
            split
            · exact taken_ok _
            · exact taken_failed _

theorem taken_share : Taken share := by
  refine .bind fun r => ?_
  split
  · exact taken_failed _
  · refine .bind fun ok => ?_
    split
    · exact taken_ok _
    · exact taken_failed _

theorem taken_fastCharge : Taken fastCharge := by
  refine .bind fun r => ?_
  cases r with
  | error e => exact taken_failed e
  | ok v =>
    dsimp only
    split
    · exact taken_ok _
    · refine .bind fun r => ?_
      split
      · exact taken_failed _
      · refine .bind fun ok => ?_
        split
        · exact taken_ok _
        · exact taken_failed _

theorem harmless_usbAttachMode : Harmless (usbAttachMode params) := by
  unfold usbAttachMode
  split
  · exact .ret _
  · exact .ret _
  · split
    · exact .ret _
    · split
      · exact .ret _
      · refine .taken (.bind fun r => ?_)
        cases r with
        | error e => exact taken_failed e
        | ok typec =>
          dsimp only
          split_ifs
          · exact taken_failed _
          · exact taken_ok _
          · exact taken_ok _
          · refine .bind fun r => ?_
            cases r with
            | error e => exact taken_failed e
            | ok usb =>
              dsimp only
              split
              · exact taken_failed _
              · exact taken_share
          · exact taken_share
          · exact taken_fastCharge

theorem harmless_nfc : Harmless (nfc params) := by
  unfold nfc
  split
  · exact .ret _
  · refine .taken (.bind fun r => ?_)
    cases r with
    | error e => exact taken_failed e
    | ok v => exact .bind fun _ => taken_ok _

theorem harmless_wifiModule : Harmless (wifiModule params) := by
  unfold wifiModule
  split
  · exact .ret _
  · exact .ret _
  · split
    · exact .ret _
    · split
      · exact .taken (.bind fun _ => taken_call _ _ _)
      · exact .taken (taken_call _ _ _)

theorem harmless_vendorCall (ryu : Ryu) : Harmless (vendorCall ryu params) := by
  unfold vendorCall
  split
  · exact .ret _
  · exact .ret _
  · split
    · exact .ret _
    · split
      · exact .ret _
      · exact .taken (taken_call _ _ _)

theorem harmless_dnsDoh : Harmless (dnsDoh params) := by
  unfold dnsDoh
  split
  · exact .ret _
  · refine .taken (.bind fun r => ?_)
    cases r with
    | ok _ => exact taken_ok _
    | error e => exact taken_failed _

theorem reads_ubus {service method : String} (args : Value) (h : READS.contains (service, method)) :
    Asks (·.reads) (ubus service method args) := asks_ubus (P := (·.reads)) h

theorem reads_radioSection (b : Band) : Asks (·.reads) (radioSection b) := by
  refine (Asks.request (P := (·.reads)) (q := Request.radio b) rfl).bind fun r => ?_
  cases r with
  | some name => exact .ret _
  | none =>
    refine (reads_ubus _ (by decide)).bind fun reply => ?_
    split
    · exact Asks.request (P := (·.reads)) (q := Request.keepRadio b _) rfl
    · exact .ret _

theorem taken_commit (skipped : List String) (reload : Bool) : Taken (commit skipped reload) := by
  refine .bind fun r => ?_
  cases r with
  | error e => exact taken_failed _
  | ok _ =>
    dsimp only
    split
    · refine .bind fun r => ?_
      cases r with
      | ok v => exact taken_ok _
      | error e => exact taken_ok _
    · exact taken_ok _

/-- The options are looked at before any is staged. -/
theorem harmless_wifiApply (ryu : Ryu) : Harmless (wifiApply ryu params) := by
  unfold wifiApply
  split
  · split
    · exact .ret _
    · split
      · exact .ret _
      · refine .read (reads_radioSection _) fun radio2g => ?_
        refine .read (reads_radioSection _) fun radio5g => ?_
        split
        · exact .ret _
        · refine .taken (.bind fun r => ?_)
          split
          · exact taken_failed _
          · exact taken_ok _
          · exact taken_commit _ _
  · exact .ret _

theorem harmless_wifiPowerSave (iw : String) : Harmless (wifiPowerSave iw params) := by
  unfold wifiPowerSave
  split
  · exact .ret _
  · refine .taken (.bind fun r => ?_)
    cases r with
    | error e => exact taken_failed _
    | ok _ =>
      refine .bind fun _ => .bind fun _ => .bind fun live => ?_
      dsimp only
      split
      · split
        · exact taken_failed _
        · exact taken_ok _
      · exact taken_ok _

theorem harmless_smsSend : Harmless (smsSend params) := by
  unfold smsSend
  split
  · dsimp only
    split_ifs
    · exact .ret _
    · exact .taken (.bind fun r => taken_ofResult r)
    · exact .taken (.bind fun r => taken_ofResult r)
    · refine .taken (.bind fun n => ?_)
      split
      all_goals
        refine .bind fun ready => ?_
        cases ready with
        | error e => exact taken_failed e
        | ok _ => exact .bind fun r => taken_ofResult r
    · exact .ret _
  · exact .ret _

theorem harmless_smsDbDelete : Harmless (smsDbDelete host params) := by
  unfold smsDbDelete
  split
  · exact .ret _
  · dsimp only
    split
    · exact .ret _
    · refine .taken (.bind fun r => ?_)
      cases r with
      | ok _ => exact taken_ok _
      | error e => exact taken_failed _

theorem reads_smsListAfter : Asks (·.reads) (smsListAfter host params) :=
  have hread : READS.contains ("zwrt_wms", "zte_libwms_get_sms_data") := by decide
  asks_smsListAfter (P := (·.reads)) rfl fun _ => hread

theorem harmless_execute (action : String) : Harmless (execute host action params) := by
  unfold execute
  split
  all_goals first
    | exact .taken (taken_call _ _ _)
    | exact harmless_mappedCall
    | skip
  · exact harmless_cellularSet
  · exact harmless_band _ _
  · exact harmless_band _ _
  · exact harmless_band _ _
  · exact harmless_netselectRegister
  · exact .taken (taken_atSend _)
  · exact harmless_redial
  · exact .taken (taken_atSend _)
  · exact harmless_apnPdpType
  · exact harmless_wifiApply _
  · exact harmless_vendorCall _
  · exact harmless_dnsDoh
  · exact harmless_smsDbDelete
  · exact harmless_wifiPowerSave _
  · exact harmless_wifiModule
  · exact harmless_directSupply
  · exact harmless_usbAttachMode
  · exact harmless_nfc
  · exact harmless_smsSend
  · exact .of_asks reads_smsListAfter
  · exact .ret _

/-- An action that is no write only reads. -/
theorem reads_execute {action : String} (h : writes action = false) :
    Asks (·.reads) (execute host action params) := by
  unfold execute
  split
  all_goals first
    | exact absurd h (by decide)
    | skip
  · exact reads_smsListAfter
  · exact .ret _

end Table

/-- **Nothing is changed by a request that is refused, or is no write**: of whatever
    such a run asks, the device stays as it was. -/
theorem execute_refused (host : Host) (action : String) (params : Value) (t : List Event)
    (r : Outcome) (hrun : Interaction.Run (execute host action params) t r)
    (h : r.refused ∨ writes action = false) : ∀ e ∈ t, e.1.reads := by
  rcases h with hrefused | hread
  · exact ensures_iff.mp (harmless_execute action) t r hrun hrefused
  · exact (reads_execute hread).of_run hrun

/-- A device that answers nothing. -/
def silent : (q : Request) → q.Answer
  | .call i => .error (.skipped i.service)
  | .uci _ | .at _ | .command .. | .wrapKey _ | .encrypt .. | .saveHotplug _ => .error ""
  | .post .. => .error none
  | .sleep _ | .keepKey _ | .removePsm => ()
  | .radio _ | .sessionKey => none
  | .keepRadio _ name => name

/-- An option of another package is refused after the sections have been looked up. -/
def foreignOption : Value := .obj [("set", .obj [("dhcp.lan.start", .str "2")])]

def stockHost : Host :=
  { ryu := fun _ => []
    iw := "/usr/sbin/iw"
    sqlite := "/usr/bin/sqlite3"
    smsDb := "/etc_rw/ztembb/ztesms/sms_db/sms.db"
    openEnvelope := fun _ _ => .ok none }

theorem execute_refused_foreign :
    ∃ t : List Event, t.length = 4 ∧
      Interaction.Run (execute stockHost "wifi.apply" foreignOption) t
        (.invalid "not a Wi-Fi option this action sets: dhcp.lan.start") ∧
      ∀ e ∈ t, e.1.reads := by
  have hrun := run_answered silent (execute stockHost "wifi.apply" foreignOption)
  have hresult : (answered silent (execute stockHost "wifi.apply" foreignOption)).2 =
      .invalid "not a Wi-Fi option this action sets: dhcp.lan.start" := rfl
  rw [hresult] at hrun
  exact ⟨_, rfl, hrun, execute_refused stockHost _ _ _ _ hrun (Or.inl trivial)⟩

end Actions

end Datad
