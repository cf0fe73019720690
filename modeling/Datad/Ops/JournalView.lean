/-
  Datad/Ops/JournalView.lean
  ==========================
  **What the interfaces show of the journal** (`rust/src/ops/journal_view.rs`), and the
  line of a transaction (`txn_line` of `record.rs`).

  `decorate` goes through the lines from the newest to the oldest and remembers two things:
  the items that were changed later, and the runs of skips whose end it has seen.
-/
import Datad.Ops.Redact
import Datad.Ops.Ui
import Datad.Sms.ListAfter

namespace Datad

open Ubus

namespace Record

/-- The line of a transaction that has ended. -/
def txnLine (t : Txn) : Value :=
  .ofMembers
    [("op_id", .str t.opId), ("action", .str t.action), ("item", .str t.item),
      ("source", .str t.source.name), ("undo", .bool t.undo),
      ("sim", .str (tail4 t.sim.iccid ++ "/" ++ String.ofList (intText t.sim.slot))),
      ("old", .str t.old), ("new", .str t.target), ("rollback_to", .str t.rollbackTo),
      ("readback", .ofOption t.readback), ("result", .str t.phase.name),
      ("reason", .ofOption (t.reason.map Reason.name)),
      ("rollback_reason", .ofOption (t.rollbackReason.map Reason.name)),
      ("took_ms", match t.tookMs with
        | some n => .ofNat n
        | none => .null)]

/-! ### The stamped line -/

theorem get_orInsert_of_ne {k l : String} (h : k ≠ l) (v : Value) (ms : List (String × Value)) :
    (Value.obj (orInsert k v ms)).get l = (Value.obj ms).get l := by
  unfold orInsert
  split_ifs
  · rfl
  · exact get_insertMember_of_ne h v ms

theorem get_stamp {secs : Nat} {v : Value} {k : String} (hts : k ≠ "ts") (ht : k ≠ "t") :
    (stamp secs v).get k = v.get k := by
  cases v with
  | obj ms =>
      rw [stamp, get_orInsert_of_ne ht.symm, get_orInsert_of_ne hts.symm]
  | null => rfl
  | bool b => rfl
  | num n => rfl
  | str s => rfl
  | arr items => rfl

theorem isObject_stamp (secs : Nat) (v : Value) : (stamp secs v).isObject = v.isObject := by
  cases v <;> rfl

end Record

namespace JournalView

open Ui

def s (v : Value) (k : String) : String := ((v.get k).bind Value.asStr).getD ""

/-! ### Words -/

def NAMES : List (List String × Words) :=
  [(["network.set_mode", "network.mode"], "制式", "Network mode"),
    (["cellular.set"], "移动数据", "Mobile data"),
    (["cellular.connect"], "连接数据", "Connect data"),
    (["cellular.disconnect"], "断开数据", "Disconnect data"),
    (["cellular.redial"], "重新拨号", "Redial"),
    (["band.set_lte"], "锁频 4G", "4G band lock"),
    (["band.set_nr_sa"], "锁频 5G SA", "5G SA band lock"),
    (["band.set_nr_nsa"], "锁频 5G NSA", "5G NSA band lock"),
    (["band.reset"], "锁频恢复默认", "Band lock reset"),
    (["cell.lock_lte", "cell.lock_nr"], "锁小区", "Cell lock"),
    (["cell.unlock_all"], "解锁小区", "Cell unlock"),
    (["sim.set_slot"], "卡槽", "SIM slot"),
    (["apn.set_mode", "apn.add", "apn.modify", "apn.delete", "apn.enable", "apn.set_pdp_type"],
      "APN", "APN"),
    (["modem.airplane"], "飞行模式", "Airplane mode"),
    (["modem.online"], "打开移动网络", "Radio on"),
    (["netselect.scan"], "搜网", "Network scan"),
    (["netselect.register"], "手动注册", "Manual network"),
    (["netselect.auto"], "自动选网", "Automatic network"),
    (["netselect.session"], "搜网", "Network search"),
    (["wifi.apply", "wifi.configure", "wifi.reload", "wifi.set_dual_band", "wifi.set_module",
      "wifi.set_chip"], "Wi-Fi", "Wi-Fi"),
    (["wifi.psm.set"], "Wi-Fi 省电", "Wi-Fi power save"),
    (["wifi.power_save"], "Wi-Fi 节能", "Wi-Fi power save"),
    (["nfc.set"], "碰一碰", "NFC"),
    (["power.direct_supply.set"], "直供电", "Direct power"),
    (["usb.set"], "USB", "USB"),
    (["usb.attach_mode"], "插线用法", "USB use"),
    (["sleep.set"], "自动休眠", "Auto sleep"),
    (["device.reboot"], "重启", "Restart"),
    (["device.poweroff"], "关机", "Power off"),
    (["lan.set", "lan.set_mtu"], "局域网", "LAN"),
    (["dns.set", "dns.doh"], "DNS", "DNS"),
    (["sms.delete", "sms.db_delete", "sms.send_raw"], "短信", "SMS"),
    (["client.kick", "client.rename", "client.block", "client.unblock"], "已连设备", "Clients"),
    (["traffic.set_limit", "traffic.set_clear_day", "traffic.calibrate"], "流量", "Data usage"),
    (["vendor.call"], "原厂设置", "Vendor setting"),
    (["esim"], "eSIM", "eSIM"),
    (["chill"], "CHILL", "CHILL")]

/-- How an action or an item is called; what is not in the table is shown as it is. -/
def name (key : String) : Words :=
  match NAMES.find? fun n => n.1.contains key with
  | some n => n.2
  | none =>
      if Record.startsWith "esim." key.toList then ("eSIM", "eSIM")
      else if Record.startsWith "chill" key.toList then ("CHILL", "CHILL")
      else (key, key)

def onoff : Value → Option Bool
  | .bool b => some b
  | .num n => (Value.asI64 n).map fun n => decide (n ≠ 0)
  | .str s =>
      if ["1", "true", "on", "enable"].contains s then some true
      else if ["0", "false", "off", "disable"].contains s then some false
      else none
  | _ => none

def onWords (on off : Words) (v : Value) : Option Words :=
  (onoff v).map fun b => if b then on else off

def joined (sep : String) : List String → String
  | [] => ""
  | [s] => s
  | s :: more => s ++ sep ++ joined sep more

/-- Of the writes that make no transaction, the ones whose parameters say what was changed. -/
def changeOf (action : String) (params : Value) : Words :=
  let str : String → Option String := fun k => (params.get k).bind Value.asStr
  let words : Option Words :=
    if action = "cellular.set" then
      let parts :=
        [(params.get "enabled").bind (onWords ("打开数据", "data on") ("关掉数据", "data off")),
          (params.get "roaming").bind
            (onWords ("打开漫游", "roaming on") ("关掉漫游", "roaming off"))].filterMap id
      if parts = [] then none
      else some (joined "、" (parts.map Prod.fst), joined ", " (parts.map Prod.snd))
    else if action = "network.set_mode" then
      (str "mode").map fun m =>
        ("改成" ++ (valueWords NETWORK_MODE m).1, "to " ++ (valueWords NETWORK_MODE m).2)
    else if ["band.set_lte", "band.set_nr_sa", "band.set_nr_nsa"].contains action then
      (str "bands").map fun b => (b, b)
    else if ["nfc.set", "power.direct_supply.set", "usb.set", "sleep.set", "wifi.psm.set",
        "wifi.power_save"].contains action then
      (params.get "enabled").bind (onWords ("打开", "on") ("关掉", "off"))
    else if action = "usb.attach_mode" then
      (str "mode").bind fun m =>
        if m = "share" then some ("充电 + 上网", "charge + internet")
        else if m = "fast_charge" then some ("快速充电宝", "fast charging")
        else if m = "accessory" then some ("网口配件", "Ethernet adapter")
        else none
    else if action = "wifi.apply" then
      match params.get "set" with
      | some (.obj set) =>
          let ap := ["wireless.main_2g.disabled", "wireless.main_5g.disabled"].filterMap fun k =>
            ((Value.obj set).get k).bind onoff
          if ap ≠ [] ∧ set.length = ap.length then
            some (if ap.all id then ("关掉", "off") else ("打开", "on"))
          else none
      | _ => none
    else none
  words.getD ("", "")

/-- The words and the mark of a line that is of no transaction. -/
def PLAIN_RESULTS : List (String × String × String × String) :=
  [("ok", "已改", "Done", "ok"), ("failed", "没改成", "Failed", "bad"),
    ("requested", "已发出", "Sent", "ok"), ("queued", "排队中", "Queued", "warn"),
    ("replaced", "被新的替换", "Replaced", "warn"), ("dropped", "没执行", "Dropped", "warn"),
    ("opened", "开始", "Started", "ok"), ("closed", "结束", "Ended", "ok"),
    ("expired", "到点收回", "Timed out", "warn"), ("agent_gone", "没续约收回", "Lease lost", "warn")]

def plainResult (result : String) : String × String × String :=
  ((PLAIN_RESULTS.find? fun r => decide (r.1 = result)).map Prod.snd).getD ("", "", "warn")

def skipWhy (reason : String) : Words :=
  if reason = "user_hold" then ("你手动改过", "you changed it")
  else if reason = "busy" then ("设备正忙", "busy")
  else (reason, reason)

/-! ### The line of a transaction -/

/-- What is shown of a line beside its source and its item. -/
structure Shown where
  change : Words
  result : Words
  mark : String
  undo : Value
  hide : Bool

/-- The write that undoes the change of a line. -/
def request (line : Value) : Option Value :=
  (Spec.find (s line "action")).map fun spec =>
    .ofMembers [("action", .str (s line "action")), ("undo", .bool true),
      ("params", .ofMembers [(spec.param, .str (s line "old"))])]

/-- Why the change of a line cannot be undone. -/
def denied (line : Value) (laterChange : Bool) : Option Words :=
  if laterChange then some SINCE
  else
    undoWhy (Phase.parse (s line "result")) (Reason.parse (s line "reason"))
      (decide ((line.get "readback").bind Value.asStr = some (s line "new")))

def undoView (line : Value) (laterChange : Bool) : Value :=
  let why := denied line laterChange
  let undoFlag :=
    match line.get "undo" with
    | some (.bool b) => b
    | _ => false
  .ofMembers
    [("ok", .bool (why.isNone && (request line).isSome)),
      ("label_zh", .str (undoLabel undoFlag).1), ("label_en", .str (undoLabel undoFlag).2),
      ("why_zh", .ofOption (why.map Prod.fst)), ("why_en", .ofOption (why.map Prod.snd)),
      ("request", (request line).getD .null)]

def arrow (a b : Words) : Words := (a.1 ++ " → " ++ b.1, a.2 ++ " → " ++ b.2)

def txnEntry (line : Value) (laterChange hide : Bool) : Shown :=
  let item := s line "item"
  let old := valueWords item (s line "old")
  let new := valueWords item (s line "new")
  let x := valueWords item (s line "rollback_to")
  let (mark, zh, en) :=
    match Phase.parse (s line "result") with
    | some p => finalLine p (Reason.parse (s line "reason")) x new old
    | none => ("warn", s line "result", s line "result")
  { change := arrow old new, result := (zh, en), mark, undo := undoView line laterChange, hide }

/-! ### The other lines -/

/-- The lines that only keep accounts are not shown by themselves. -/
def BOOKKEEPING : List String := ["op.ack", "op.notice_ack", "op.interrupt"]

def keyName (line : Value) : String :=
  if s line "item" ≠ "" then s line "item" else s line "action"

abbrev SkipKey := String × String

def skipKey (line : Value) : SkipKey := (s line "source", keyName line)

/-- A run of skips; its start is not shown where its end is. -/
def skipEntry (line : Value) (source : Words) (ended hide : Bool) : Shown :=
  let why := skipWhy (s line "reason")
  if s line "skip" = "end" then
    let n := String.ofList (Nat.toDigits 10 (((line.get "count").bind Value.asU64).getD 1))
    { change := ("", "")
      result := (source.1 ++ "跳过 ×" ++ n ++ "（" ++ why.1 ++ "）",
        source.2 ++ " skipped ×" ++ n ++ " (" ++ why.2 ++ ")")
      mark := "warn", undo := .null, hide }
  else
    { change := ("", "")
      result := (source.1 ++ "跳过中（" ++ why.1 ++ "）", source.2 ++ " skipping (" ++ why.2 ++ ")")
      mark := "warn", undo := .null, hide := ended }

def plainEntry (line : Value) (hide : Bool) : Shown :=
  let result := s line "result"
  let (zh, en, mark) := plainResult result
  let change :=
    match line.get "params" with
    | some p => changeOf (s line "action") p
    | none => ("", "")
  let o := s line "old"
  let n := s line "new"
  let change :=
    if (line.get "journal_append").isSome ∧ n ≠ "" then
      if o = "" then (n, n) else arrow (o, o) (n, n)
    else change
  { change, result := if zh = "" then (result, result) else (zh, en), mark, undo := .null, hide }

/-! ### From the newest to the oldest -/

/-- What was seen of the newer lines. -/
structure Seen where
  changedLater : List String := []
  openEnd : List SkipKey := []

def isTxn (line : Value) : Bool := (line.get "op_id").isSome && (line.get "new").isSome

def isSkip (line : Value) : Bool := !isTxn line && decide (s line "result" = "skipped")

def sourceShown (line : Value) : Words :=
  ((Source.parse (s line "source")).map sourceWords).getD ("", "")

def shown (seen : Seen) (line : Value) : Shown :=
  let hide := BOOKKEEPING.contains (s line "action")
  if isTxn line then txnEntry line (seen.changedLater.contains (s line "item")) hide
  else if s line "result" = "skipped" then
    skipEntry line (sourceShown line) (seen.openEnd.contains (skipKey line)) hide
  else plainEntry line hide

/-- What is seen behind a line. -/
def Seen.next (seen : Seen) (line : Value) : Seen where
  changedLater :=
    if s line "item" ≠ "" ∧ (shown seen line).hide = false ∧
        (isTxn line = true ∨ s line "result" = "ok") then
      s line "item" :: seen.changedLater
    else seen.changedLater
  openEnd :=
    if isSkip line then
      if s line "skip" = "end" then skipKey line :: seen.openEnd
      else seen.openEnd.filter fun k => decide (k ≠ skipKey line)
    else seen.openEnd

/-- The fields that are added to a line. -/
def fields (seen : Seen) (line : Value) : List (String × Value) :=
  let d := shown seen line
  let what := name (if s line "action" = "" then s line "item" else s line "action")
  let res := if d.result.1 = "" then (s line "result", s line "result") else d.result
  [("what_zh", .str what.1), ("what_en", .str what.2), ("change_zh", .str d.change.1),
    ("change_en", .str d.change.2), ("result_zh", .str res.1), ("result_en", .str res.2),
    ("mark", .str d.mark), ("source_zh", .str (sourceShown line).1),
    ("source_en", .str (sourceShown line).2), ("hide", .bool d.hide), ("undo_view", d.undo)]

/-- A line is an object; another value ends the program. -/
def decorateLine (seen : Seen) : Value → Option Value
  | .obj ms =>
      some (.obj ((fields seen (.obj ms)).foldl (fun ms m => insertMember m.1 m.2 ms) ms))
  | _ => none

def decorateFrom : Seen → List Value → Option (List Value)
  | _, [] => some []
  | seen, line :: more =>
      (decorateLine seen line).bind fun d => (decorateFrom (seen.next line) more).map (d :: ·)

/-- The lines, the newest first, with what is shown of them. -/
def decorate (entries : List Value) : Option (List Value) := decorateFrom {} entries

/-! ### Line by line -/

section Stamped

variable (secs : Nat) (v : Value)

theorem s_stamp {k : String} (hts : k ≠ "ts") (ht : k ≠ "t") :
    s (Record.stamp secs v) k = s v k := by
  rw [s, Record.get_stamp hts ht, s]

theorem isTxn_stamp : isTxn (Record.stamp secs v) = isTxn v := by
  have hid := @Record.get_stamp secs v "op_id" (by decide) (by decide)
  have hnew := @Record.get_stamp secs v "new" (by decide) (by decide)
  rw [isTxn, hid, hnew, isTxn]

theorem isSkip_stamp : isSkip (Record.stamp secs v) = isSkip v := by
  rw [isSkip, isTxn_stamp, s_stamp secs v (by decide) (by decide), isSkip]

theorem skipKey_stamp : skipKey (Record.stamp secs v) = skipKey v := by
  have hkey : keyName (Record.stamp secs v) = keyName v := by
    unfold keyName
    rw [s_stamp secs v (by decide) (by decide), s_stamp secs v (by decide) (by decide)]
  rw [skipKey, hkey, s_stamp secs v (by decide) (by decide), skipKey]

end Stamped

theorem decorateLine_some (seen : Seen) {line : Value} (h : line.isObject = true) :
    ∃ d, decorateLine seen line = some d := by
  cases line with
  | obj ms => exact ⟨_, rfl⟩
  | null => cases h
  | bool b => cases h
  | num n => cases h
  | str s => cases h
  | arr items => cases h

theorem get_decorateLine {seen : Seen} {line d : Value} (h : decorateLine seen line = some d)
    (k : String) : d.get k =
      (((fields seen line).reverse.find? fun m => decide (m.1 = k)).map Prod.snd).or
        (line.get k) := by
  cases line with
  | obj ms =>
      cases h
      exact Value.get_foldl_insertMember ..
  | null => cases h
  | bool b => cases h
  | num n => cases h
  | str s => cases h
  | arr items => cases h

theorem get_hide {seen : Seen} {line d : Value} (h : decorateLine seen line = some d) :
    d.get "hide" = some (.bool (shown seen line).hide) := by
  rw [get_decorateLine h]
  simp [fields]

theorem get_undoView {seen : Seen} {line d : Value} (h : decorateLine seen line = some d) :
    d.get "undo_view" = some (shown seen line).undo := by
  rw [get_decorateLine h]
  simp [fields]

/-- Line by line, with what was seen of the newer ones. -/
theorem decorateFrom_some {lines : List Value} (h : ∀ line ∈ lines, line.isObject = true)
    (seen : Seen) : ∃ ds, decorateFrom seen lines = some ds ∧ ds.length = lines.length ∧
      ∀ (newer older : List Value) (line : Value), lines = newer ++ line :: older →
        ∃ d, ds[newer.length]? = some d ∧
          decorateLine (newer.foldl Seen.next seen) line = some d := by
  induction lines generalizing seen with
  | nil => exact ⟨[], rfl, rfl, fun newer older line heq => by simp at heq⟩
  | cons first lines ih =>
      obtain ⟨d, hd⟩ := decorateLine_some seen (h first List.mem_cons_self)
      obtain ⟨ds, hds, hlen, hat⟩ :=
        ih (fun line hl => h line (List.mem_cons_of_mem _ hl)) (seen.next first)
      refine ⟨d :: ds, ?_, by simp [hlen], ?_⟩
      · rw [decorateFrom, hd, Option.bind_some, hds]
        rfl
      · intro newer older line heq
        cases newer with
        | nil =>
            obtain ⟨rfl, -⟩ := List.cons.inj heq
            exact ⟨d, rfl, hd⟩
        | cons x newer =>
            rw [List.cons_append] at heq
            obtain ⟨rfl, hrest⟩ := List.cons.inj heq
            exact hat newer older line hrest

end JournalView

end Datad
