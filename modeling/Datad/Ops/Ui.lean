/-
  Datad/Ops/Ui.lean
  =================
  **What the interfaces show of a transaction** (`rust/src/ops/ui.rs`).

  Texts and flags of a transaction, in Chinese and in English, and whether it can be
  undone.  Everything is a function of the transaction, of the time, and of whether its
  item was changed later.
-/
import Datad.Ops.OpBlock
import Datad.Ops.Record
import Datad.Server.Cellular
import Mathlib.Data.List.Induction

namespace Datad

open Ubus

/-! ### Names on the wire -/

def Source.name : Source → String
  | .screen => "screen"
  | .web => "web"
  | .legacy => "legacy"
  | .guard => "guard"
  | .scenario => "scenario"
  | .scheduler => "scheduler"
  | .auto => "auto"

def Phase.name : Phase → String
  | .accepted => "accepted"
  | .applying => "applying"
  | .verifying => "verifying"
  | .rollingBack => "rolling_back"
  | .confirmed => "confirmed"
  | .unverified => "unverified"
  | .rolledBack => "rolled_back"
  | .notApplied => "not_applied"
  | .rollbackFailed => "rollback_failed"
  | .cancelled => "cancelled"

def Phase.parse : String → Option Phase
  | "accepted" => some .accepted
  | "applying" => some .applying
  | "verifying" => some .verifying
  | "rolling_back" => some .rollingBack
  | "confirmed" => some .confirmed
  | "unverified" => some .unverified
  | "rolled_back" => some .rolledBack
  | "not_applied" => some .notApplied
  | "rollback_failed" => some .rollbackFailed
  | "cancelled" => some .cancelled
  | _ => none

def Reason.name : Reason → String
  | .verified => "verified"
  | .userKeep => "user_keep"
  | .noRollback => "no_rollback"
  | .timeout => "timeout"
  | .userRevert => "user_revert"
  | .rebootLoop => "reboot_loop"
  | .ignored => "ignored"
  | .rollbackTimeout => "rollback_timeout"
  | .superseded => "superseded"
  | .preempted => "preempted"
  | .manualChange => "manual_change"
  | .takeover => "takeover"
  | .simChanged => "sim_changed"
  | .apnNoData => "apn_no_data"
  | .otherChange => "other_change"
  | .noVerify => "no_verify"

def Reason.parse : String → Option Reason
  | "verified" => some .verified
  | "user_keep" => some .userKeep
  | "no_rollback" => some .noRollback
  | "timeout" => some .timeout
  | "user_revert" => some .userRevert
  | "reboot_loop" => some .rebootLoop
  | "ignored" => some .ignored
  | "rollback_timeout" => some .rollbackTimeout
  | "superseded" => some .superseded
  | "preempted" => some .preempted
  | "manual_change" => some .manualChange
  | "takeover" => some .takeover
  | "sim_changed" => some .simChanged
  | "apn_no_data" => some .apnNoData
  | "other_change" => some .otherChange
  | "no_verify" => some .noVerify
  | _ => none

theorem Phase.parse_name (p : Phase) : Phase.parse p.name = some p := by cases p <;> rfl

theorem Reason.parse_name (r : Reason) : Reason.parse r.name = some r := by cases r <;> rfl

/-! ### JSON objects -/

namespace Value

/-- `json!` of an object. -/
def ofMembers (ms : List (String × Value)) : Value :=
  .obj (ms.foldl (fun acc m => insertMember m.1 m.2 acc) [])

def ofOption : Option String → Value
  | some s => .str s
  | none => .null

def ofNat (n : Nat) : Value := .num (.int n)

/-- Of the members that are put into an object the last of a name counts. -/
theorem get_foldl_insertMember (ms fs : List (String × Value)) (k : String) :
    (Value.obj (fs.foldl (fun acc m => insertMember m.1 m.2 acc) ms)).get k =
      ((fs.reverse.find? fun m => decide (m.1 = k)).map Prod.snd).or ((Value.obj ms).get k) := by
  induction fs using List.reverseRecOn with
  | nil => rfl
  | append_singleton fs m ih =>
      rw [List.foldl_append, List.foldl_cons, List.foldl_nil, List.reverse_append,
        List.reverse_singleton, List.singleton_append]
      by_cases h : m.1 = k
      · subst h
        rw [get_insertMember_self, List.find?_cons_of_pos (by simp), Option.map_some,
          Option.some_or]
      · rw [get_insertMember_of_ne h, List.find?_cons_of_neg (by simpa using h), ih]

theorem get_ofMembers (ms : List (String × Value)) (k : String) :
    (ofMembers ms).get k = (ms.reverse.find? fun m => decide (m.1 = k)).map Prod.snd := by
  rw [ofMembers, get_foldl_insertMember]
  exact Option.or_none

end Value

/-! ### Words -/

namespace Ui

abbrev Words := String × String

def sourceWords : Source → Words
  | .screen | .legacy => ("触屏", "Screen")
  | .web => ("网页", "Web")
  | .scenario => ("情景", "Scene")
  | .scheduler => ("定时任务", "Schedule")
  | .auto => ("自动", "Auto")
  | .guard => ("自动恢复", "Auto-recovery")

/-- While it is under way, and what the item is called. -/
def itemWords (item : String) : String × String × String :=
  if item = NETWORK_MODE then ("正在换制式", "制式", "Network mode")
  else if item = "netselect.session" then ("正在搜网", "搜网", "Network search")
  else ("正在改设置", "设置", "Setting")

/-- `screen::net_select_word`. -/
def NET_SELECT : List (String × Words) :=
  [("WL_AND_5G", "自动", "Auto"), ("TCHGWL_5G", "自动", "Auto"), ("NETWORK_auto", "自动", "Auto"),
    ("Only_5G", "只用 5G SA", "5G SA only"), ("LTE_AND_5G", "只用 5G NSA", "5G NSA only"),
    ("4G_AND_5G", "4G + 5G", "4G + 5G"), ("WL_AND_NSA", "5G NSA + 4G + 3G", "5G NSA + 4G + 3G"),
    ("Only_LTE", "只用 4G", "4G only"), ("WCDMA_AND_LTE", "4G + 3G", "4G + 3G"),
    ("GSM_AND_LTE", "4G + 2G", "4G + 2G"), ("TDSCDMA_AND_LTE", "4G + TD-SCDMA", "4G + TD-SCDMA"),
    ("Only_WCDMA", "只用 3G", "3G only"), ("Only_GSM_WCDMA", "只用 3G 和 2G", "3G & 2G only"),
    ("Only_TDSCDMA", "只用 TD-SCDMA", "TD-SCDMA only"), ("Only_GSM", "只用 2G", "2G only")]

def netSelectWord (sel : String) : Words :=
  if sel = "" then ("-", "-")
  else ((NET_SELECT.find? fun k => decide (k.1 = sel)).map Prod.snd).getD (sel, sel)

def valueWords (item v : String) : Words :=
  if item = NETWORK_MODE then netSelectWord v
  else if v = "" then ("-", "-")
  else (v, v)

/-- Chinese text is joined without a blank, anything else with one. -/
def cat (a b : String) : String :=
  let wide : Option Char → Bool := fun c => c.any fun c => decide (128 ≤ c.toNat)
  if a = "" ∨ b = "" ∨ (wide a.toList.getLast? ∧ wide b.toList.head?) then a ++ b
  else a ++ " " ++ b

/-- The text of an end: its mark, and the words for the rollback target `x`, the target `y`
    and the old value. -/
def finalLine (phase : Phase) (reason : Option Reason) (x y old : Words) :
    String × String × String :=
  match phase, reason with
  | .confirmed, some .userKeep =>
      ("warn", cat "保留" y.1 ++ " · 没确认通", "Kept " ++ y.2 ++ " · unconfirmed")
  | .confirmed, some .noVerify => ("ok", "已改 · 没有可确认的读数", "Saved · not checked")
  | .confirmed, _ => ("ok", cat "已切到" y.1, "Now " ++ y.2)
  | .unverified, some .apnNoData => ("warn", "APN 已存 · 数据关着没法试", "APN saved · untested")
  | .unverified, _ => ("bad", "没通 · " ++ cat "还是" y.1, "No data · still " ++ y.2)
  | .rolledBack, some .userRevert => ("ok", cat "已退回" x.1, "Back to " ++ x.2)
  | .rolledBack, some .rebootLoop =>
      ("warn", "重启了两次 · " ++ cat "已退回" x.1, "2 reboots · back to " ++ x.2)
  | .rolledBack, _ => ("warn", "没通 · " ++ cat "已退回" x.1, "No data · back to " ++ x.2)
  | .notApplied, _ => ("warn", "没切成 · " ++ cat "还是" old.1, "Didn't apply · still " ++ old.2)
  | .rollbackFailed, _ => ("bad", "退回也没通", "Revert failed")
  | .cancelled, some .superseded => ("ok", "被新的改动接替", "Replaced by a newer change")
  | .cancelled, some .preempted => ("warn", "已关数据 · 不再自动退回", "Data off · no auto revert")
  | .cancelled, some .takeover => ("warn", "手动接管 · 不再自动退回", "Manual override")
  | .cancelled, some .simChanged => ("warn", "换过卡 · 不再自动退回", "SIM changed")
  | .cancelled, some .otherChange =>
      ("warn", "改了别的设置，不再自动退回", "Other change; no auto revert")
  | .cancelled, _ => ("warn", "别处改过 · 不再自动退回", "Changed elsewhere")
  | _, _ => ("warn", "已结束", "Ended")

/-! ### Undo -/

def SINCE : Words := ("之后又改过", "Changed since")

/-- Why an end cannot be undone; `targetStill` says that what was written is still there. -/
def undoWhy (phase : Option Phase) (reason : Option Reason) (targetStill : Bool) : Option Words :=
  match phase with
  | some .confirmed | some .unverified => none
  | some .rolledBack | some .notApplied => some ("设置没变 · 不用撤销", "Nothing to undo")
  | some .rollbackFailed => some ("先再试一次退回", "Retry the revert instead")
  | some .cancelled =>
      match reason with
      | some .simChanged => some ("换过卡", "SIM changed")
      | some .superseded => some SINCE
      | _ => if targetStill then none else some SINCE
  | _ => some ("这类操作不能撤销", "Can't be undone")

def undoDenied (t : Txn) (later : Bool) : Option Words :=
  if later then some SINCE
  else undoWhy (some t.phase) t.reason (decide (t.readback = some t.target))

def undoLabel (redo : Bool) : Words := if redo then ("重做", "Redo") else ("撤销", "Undo")

/-- `undo` of the view: whether it can be undone, and the value that undoes it. -/
def undoView (t : Txn) (later : Bool) : Value :=
  if !t.phase.isFinal then .null
  else
    let why := undoDenied t later
    .ofMembers
      [("ok", .bool why.isNone), ("label_zh", .str (undoLabel t.undo).1),
        ("label_en", .str (undoLabel t.undo).2), ("why_zh", .ofOption (why.map Prod.fst)),
        ("why_en", .ofOption (why.map Prod.snd)), ("value", .str t.old)]

/-! ### The view -/

/-- What the three steps look at. -/
def goal (t : Txn) : String :=
  match t.phase with
  | .rollingBack | .rolledBack | .rollbackFailed => t.rollbackTo
  | _ => t.target

def stayName : Txn.Stay → String
  | .live => "live"
  | .alert => "alert"
  | .hidden => "none"
  | .brief => "brief"
  | .sticky => "sticky"

def status (t : Txn) (now : Nat) : List (String × Value) :=
  [("op_id", .str t.opId), ("action", .str t.action), ("item", .str t.item),
    ("source", .str t.source.name), ("undo", .bool t.undo), ("phase", .str t.phase.name),
    ("reason", .ofOption (t.reason.map Reason.name)),
    ("rollback_reason", .ofOption (t.rollbackReason.map Reason.name)),
    ("target", .str t.target), ("old", .str t.old), ("rollback_to", .str t.rollbackTo),
    ("rollback_enabled", .bool t.rollbackEnabled), ("ever_matched", .bool t.everMatched),
    ("data_ok", .bool t.dataOk), ("age_ms", .ofNat (now - t.createdMs)),
    ("remaining_ms", match t.remainingMs now with
      | some n => .ofNat n
      | none => .null)]

/-- The mark and the sentence. -/
def say (t : Txn) : Option String × Words :=
  let item := t.item
  match t.phase with
  | .accepted | .applying => (none, (itemWords item).1, "Switching")
  | .verifying => (none, "正在确认", "Checking")
  | .rollingBack => (none, "正在退回", "Reverting")
  | _ =>
      let (mark, zh, en) := finalLine t.phase t.reason (valueWords item t.rollbackTo)
        (valueWords item t.target) (valueWords item t.old)
      (some mark, zh, en)

/-- What comes next; `\x7bt\x7d` stands for the time that is left. -/
def nextWords (t : Txn) : Option Words :=
  let x := valueWords t.item t.rollbackTo
  if !t.counting then none
  else if t.phase = .verifying then
    if t.rollbackEnabled then
      some (cat "\x7bt\x7d 后没通就退回到" x.1, "Back to " ++ x.2 ++ " in \x7bt\x7d if no data")
    else some ("还剩 \x7bt\x7d · 自动退回没开", "\x7bt\x7d left · auto revert off")
  else some (cat "退回到" x.1 ++ " · 还剩 \x7bt\x7d", "To " ++ x.2 ++ " · \x7bt\x7d left")

def stepRow (key zh en : String) (done : Bool) : Value :=
  .ofMembers [("key", .str key), ("zh", .str zh), ("en", .str en), ("done", .bool done)]

def steps (t : Txn) : Value :=
  .arr [stepRow "applied" "设置已生效" "Setting applied" (decide (t.readback = some (goal t))),
    stepRow "registered" "已注册" "Registered" t.registered,
    stepRow "data" "数据" "Data" t.dataOk]

/-- The view of a transaction. -/
def view (t : Txn) (now : Nat) (later : Bool) : Value :=
  let item := t.item
  let x := valueWords item t.rollbackTo
  let y := valueWords item t.target
  let old := valueWords item t.old
  let readback := t.readback.map (valueWords item)
  let live := !t.phase.isFinal
  let note : Option Words :=
    if live ∧ t.boots > 0 then some ("重启过 · 重新确认", "Rebooted · checking again") else none
  let can := decide (t.phase = .verifying) && t.counting
  .ofMembers (status t now ++
    [("source_zh", .str (sourceWords t.source).1), ("source_en", .str (sourceWords t.source).2),
      ("what_zh", .str (itemWords item).2.1), ("what_en", .str (itemWords item).2.2),
      ("old_zh", .str old.1), ("old_en", .str old.2), ("target_zh", .str y.1),
      ("target_en", .str y.2), ("rollback_to_zh", .str x.1), ("rollback_to_en", .str x.2),
      ("readback_zh", .ofOption (readback.map Prod.fst)),
      ("readback_en", .ofOption (readback.map Prod.snd)), ("say_zh", .str (say t).2.1),
      ("say_en", .str (say t).2.2), ("mark", .ofOption (say t).1),
      ("stay", .str (stayName t.stay)), ("next_zh", .ofOption ((nextWords t).map Prod.fst)),
      ("next_en", .ofOption ((nextWords t).map Prod.snd)),
      ("note_zh", .ofOption (note.map Prod.fst)), ("note_en", .ofOption (note.map Prod.snd)),
      ("steps", steps t), ("revert_label_zh", .str (cat "退回" x.1)),
      ("revert_label_en", .str ("Revert to " ++ x.2)), ("keep_label_zh", .str (cat "保留" y.1)),
      ("keep_label_en", .str ("Keep " ++ y.2)), ("can_revert", .bool can),
      ("can_keep", .bool can), ("undo", undoView t later)])

end Ui

end Datad
