/-
  Datad/Ops/UndoViews.lean
  ========================
  **The two views of undo.**

  Whether a change can be undone is said twice: of the transactions in memory, by the
  engine (`St::view`), and of the lines in the journal, by the viewer (`decorate`).  The
  engine looks forwards through the recent transactions and compares values; the viewer
  goes backwards through the lines with a set of items, and gets phases and reasons from
  their names.  Both say the same of each transaction (`undo_views_agree`), as long as its
  line is written whole: the line of four values of 256 bytes may be too long for that.
-/
import Datad.Ops.Idempotence
import Datad.Ops.JournalView

namespace Datad

open Ubus Bytes

/-! ### The line as it is read back -/

namespace Record

variable (ryu : Ryu)

/-- The line is not reduced. -/
def Whole (secs : Nat) (line : Value) : Prop :=
  (toVec ryu (stamp secs (clipValue line))).length ≤ MAX_LINE

instance (secs : Nat) (line : Value) : Decidable (Whole ryu secs line) :=
  inferInstanceAs (Decidable (_ ≤ _))

def recorded (secs : Nat) (line : Value) : Value :=
  if Whole ryu secs line then stamp secs (clipValue line)
  else skeleton (stamp secs (clipValue line))

theorem encode_eq (secs : Nat) (line : Value) :
    encode ryu secs line = toVec ryu (recorded ryu secs line) := by
  by_cases h : Whole ryu secs line
  · rw [recorded, if_pos h]
    exact if_neg (not_lt.mpr h)
  · rw [recorded, if_neg h]
    exact if_pos (not_le.mp h)

theorem get_clipMembers (ms : List (String × Value)) (k : String) :
    (Value.obj (clipMembers ms)).get k = ((Value.obj ms).get k).map clipValue := by
  induction ms with
  | nil => rfl
  | cons m ms ih =>
      obtain ⟨l, v⟩ := m
      rw [clipMembers, get_obj_cons, get_obj_cons]
      split_ifs
      · rfl
      · exact ih

theorem get_clipValue (v : Value) (k : String) : (clipValue v).get k = (v.get k).map clipValue := by
  cases v with
  | obj ms => exact get_clipMembers ms k
  | null => rfl
  | bool b => rfl
  | num n => rfl
  | str s => rfl
  | arr items => rfl

theorem asStr_clipValue (v : Value) : (clipValue v).asStr = v.asStr.map clip := by
  cases v <;> rfl

/-- A value of at most 256 bytes. -/
def Short (s : String) : Prop := (utf8 s).length ≤ MAX_STRING

instance (s : String) : Decidable (Short s) := inferInstanceAs (Decidable (_ ≤ _))

theorem Short.clip {s : String} (h : Short s) : clip s = s := if_pos h

/-- A text of a line that is written whole. -/
theorem s_clipped (secs : Nat) (v : Value) {k : String} (hts : k ≠ "ts") (ht : k ≠ "t") :
    JournalView.s (stamp secs (clipValue v)) k = clip (JournalView.s v k) := by
  rw [JournalView.s_stamp _ _ hts ht, JournalView.s, get_clipValue, JournalView.s]
  cases v.get k with
  | none => rfl
  | some w =>
      rw [Option.map_some, Option.bind_some, Option.bind_some, asStr_clipValue]
      cases w.asStr with
      | none => rfl
      | some s => rfl

end Record

namespace JournalView

open Record (Short clipValue stamp txnLine)

/-! ### The line of a transaction -/

/-- What the action table says of an action fits in a line and is no account. -/
theorem specs_plain : ∀ spec ∈ SPECS, Short spec.action ∧ Short spec.item ∧ spec.item ≠ "" ∧
    BOOKKEEPING.contains spec.action = false := by
  decide

/-- A transaction of an action of the table, with values of at most 256 bytes. -/
structure Regular (t : Txn) : Prop where
  spec : ∃ spec, Spec.find t.action = some spec ∧ spec.item = t.item
  old : Short t.old
  target : Short t.target
  rollbackTo : Short t.rollbackTo
  readback : ∀ r ∈ t.readback, Short r

theorem Regular.plain {t : Txn} (h : Regular t) : Short t.action ∧ Short t.item ∧ t.item ≠ "" ∧
    BOOKKEEPING.contains t.action = false := by
  obtain ⟨spec, hfind, hitem⟩ := h.spec
  have haction : spec.action = t.action := by simpa using List.find?_some hfind
  rw [← haction, ← hitem]
  exact specs_plain spec (List.mem_of_find?_eq_some hfind)

theorem short_phase (p : Phase) : Short p.name := by cases p <;> decide

theorem short_reason (r : Reason) : Short r.name := by cases r <;> decide

section Whole

variable {t : Txn} (secs : Nat)

theorem s_whole {k x : String} (hts : k ≠ "ts") (ht : k ≠ "t") (hk : s (txnLine t) k = x)
    (hx : Short x) : s (stamp secs (clipValue (txnLine t))) k = x := by
  rw [Record.s_clipped _ _ hts ht, hk, hx.clip]

theorem s_action (h : Regular t) : s (stamp secs (clipValue (txnLine t))) "action" = t.action := by
  apply s_whole secs (by decide) (by decide) _ h.plain.1
  simp [s, txnLine, Value.get_ofMembers, Value.asStr]

theorem s_item (h : Regular t) : s (stamp secs (clipValue (txnLine t))) "item" = t.item := by
  apply s_whole secs (by decide) (by decide) _ h.plain.2.1
  simp [s, txnLine, Value.get_ofMembers, Value.asStr]

theorem s_old (h : Regular t) : s (stamp secs (clipValue (txnLine t))) "old" = t.old := by
  apply s_whole secs (by decide) (by decide) _ h.old
  simp [s, txnLine, Value.get_ofMembers, Value.asStr]

theorem s_new (h : Regular t) : s (stamp secs (clipValue (txnLine t))) "new" = t.target := by
  apply s_whole secs (by decide) (by decide) _ h.target
  simp [s, txnLine, Value.get_ofMembers, Value.asStr]

theorem parse_result : Phase.parse (s (stamp secs (clipValue (txnLine t))) "result") =
    some t.phase := by
  rw [s_whole secs (by decide) (by decide) _ (short_phase t.phase), Phase.parse_name]
  simp [s, txnLine, Value.get_ofMembers, Value.asStr]

theorem parse_reason : Reason.parse (s (stamp secs (clipValue (txnLine t))) "reason") =
    t.reason := by
  cases hr : t.reason with
  | none =>
      rw [@s_whole t secs "reason" "" (by decide) (by decide) _ (by decide)]
      · rfl
      · simp [s, txnLine, Value.get_ofMembers, Value.ofOption, hr, Value.asStr]
  | some r =>
      rw [s_whole secs (by decide) (by decide) _ (short_reason r), Reason.parse_name]
      simp [s, txnLine, Value.get_ofMembers, Value.ofOption, hr, Value.asStr]

theorem get_readback (h : Regular t) :
    ((stamp secs (clipValue (txnLine t))).get "readback").bind Value.asStr = t.readback := by
  have hget : (txnLine t).get "readback" = some (.ofOption t.readback) := by
    simp [txnLine, Value.get_ofMembers]
  rw [Record.get_stamp (by decide) (by decide), Record.get_clipValue, hget, Option.map_some,
    Option.bind_some, Record.asStr_clipValue]
  cases hr : t.readback with
  | none => rfl
  | some r =>
      have hshort := (h.readback r hr).clip
      rw [Value.ofOption, Value.asStr, Option.map_some, hshort]

theorem isTxn_whole : isTxn (stamp secs (clipValue (txnLine t))) = true := by
  rw [isTxn_stamp, isTxn, Record.get_clipValue, Record.get_clipValue]
  simp [txnLine, Value.get_ofMembers]

/-! ### Its undo -/

/-- **Both views give the same reason** why a change cannot be undone. -/
theorem denied_whole (h : Regular t) (later : Bool) :
    denied (stamp secs (clipValue (txnLine t))) later = Ui.undoDenied t later := by
  rw [denied, parse_result, parse_reason, get_readback secs h, s_new secs h, Ui.undoDenied]

/-- The write that undoes a change sets the old value. -/
theorem request_whole (h : Regular t) {spec : Spec} (hspec : Spec.find t.action = some spec) :
    request (stamp secs (clipValue (txnLine t))) =
      some (.ofMembers [("action", .str t.action), ("undo", .bool true),
        ("params", .ofMembers [(spec.param, .str t.old)])]) := by
  rw [request, s_action secs h, hspec, s_old secs h]
  rfl

end Whole

/-- `undo_view.ok` of a line, and the parameter of `undo_view.request`. -/
def lineUndo (param : String) (line : Value) : Option Value × Option Value :=
  let undo := line.get "undo_view"
  (undo.bind fun u => u.get "ok",
    ((undo.bind fun u => u.get "request").bind fun r => r.get "params").bind fun p => p.get param)

/-- `undo.ok` and `undo.value` of the engine's view. -/
def engineUndo (st : St) (now : Nat) (t : Txn) : Option Value × Option Value :=
  let undo := (Ui.view t now (st.laterChange t)).get "undo"
  (undo.bind fun u => u.get "ok", undo.bind fun u => u.get "value")

theorem engineUndo_eq {t : Txn} (hfinal : t.phase.isFinal = true) (st : St) (now : Nat) :
    engineUndo st now t =
      (some (.bool (Ui.undoDenied t (st.laterChange t)).isNone), some (.str t.old)) := by
  have hundo : (Ui.view t now (st.laterChange t)).get "undo" =
      some (Ui.undoView t (st.laterChange t)) := by
    rw [Ui.view, Value.get_ofMembers]
    simp
  rw [engineUndo, hundo, Ui.undoView, hfinal]
  simp [Value.get_ofMembers]

theorem lineUndo_eq {t : Txn} (h : Regular t) {secs : Nat} {seen : Seen} {d : Value}
    (hd : d.get "undo_view" =
      some (shown seen (stamp secs (clipValue (txnLine t)))).undo) {spec : Spec}
    (hspec : Spec.find t.action = some spec) :
    lineUndo spec.param d =
      (some (.bool (Ui.undoDenied t (seen.changedLater.contains t.item)).isNone),
        some (.str t.old)) := by
  rw [lineUndo, hd, shown, if_pos (isTxn_whole secs), txnEntry, s_item secs h, undoView,
    denied_whole secs h, request_whole secs h hspec]
  simp [Value.get_ofMembers]

/-! ### What was changed later -/

/-- The line says that its item was changed. -/
def changes (line : Value) : Bool :=
  decide (s line "item" ≠ "") && !BOOKKEEPING.contains (s line "action") &&
    (isTxn line || decide (s line "result" = "ok"))

theorem hide_of_change {seen : Seen} {line : Value}
    (h : isTxn line = true ∨ s line "result" = "ok") :
    (shown seen line).hide = BOOKKEEPING.contains (s line "action") := by
  unfold shown
  by_cases htxn : isTxn line = true
  · rw [if_pos htxn, txnEntry]
  · have hok : s line "result" = "ok" := h.resolve_left htxn
    rw [if_neg htxn, if_neg (by rw [hok]; decide), plainEntry]

theorem next_changedLater (seen : Seen) (line : Value) :
    (seen.next line).changedLater =
      if changes line then s line "item" :: seen.changedLater else seen.changedLater := by
  have hiff : (s line "item" ≠ "" ∧ (shown seen line).hide = false ∧
      (isTxn line = true ∨ s line "result" = "ok")) ↔ changes line = true := by
    rw [changes, Bool.and_eq_true, Bool.and_eq_true, Bool.or_eq_true, decide_eq_true_iff,
      decide_eq_true_iff, Bool.not_eq_true']
    constructor
    · rintro ⟨hitem, hhide, h⟩
      exact ⟨⟨hitem, by rw [← hide_of_change h, hhide]⟩, h⟩
    · rintro ⟨⟨hitem, hbook⟩, h⟩
      exact ⟨hitem, by rw [hide_of_change h, hbook], h⟩
  rw [Seen.next]
  simp only [hiff]

theorem mem_changedLater (lines : List Value) (seen : Seen) {x : String} :
    x ∈ (lines.foldl Seen.next seen).changedLater ↔
      x ∈ seen.changedLater ∨ ∃ line ∈ lines, changes line = true ∧ s line "item" = x := by
  induction lines generalizing seen with
  | nil => simp
  | cons line lines ih =>
      rw [List.foldl_cons, ih, next_changedLater, List.exists_mem_cons_iff]
      by_cases hc : changes line = true
      · rw [if_pos hc, List.mem_cons, eq_comm (a := x)]
        simp only [hc, true_and]
        tauto
      · rw [if_neg hc]
        simp only [hc]
        tauto

theorem changes_whole {t : Txn} (h : Regular t) (secs : Nat) :
    changes (stamp secs (clipValue (txnLine t))) = true := by
  obtain ⟨-, -, hitem, hbook⟩ := h.plain
  rw [changes, s_item secs h, s_action secs h, isTxn_whole, hbook]
  simp [hitem]

/-! ### The history of a process -/

/-- A line of the journal, of a transaction that ended or another. -/
inductive Row where
  | txn (t : Txn) (secs : Nat)
  | other (line : Value)

def Row.ended : Row → Option Txn
  | .txn t _ => some t
  | .other _ => none

def Row.line (ryu : Ryu) : Row → Value
  | .txn t secs => Record.recorded ryu secs (txnLine t)
  | .other line => line

def ends (rows : List Row) : List Txn := rows.filterMap Row.ended

/-- What the process wrote, the oldest first, and what it knows now: at most sixteen
    transactions have ended, none is active, and nothing else changed their items. -/
structure History (st : St) (rows : List Row) : Prop where
  active : st.active = none
  recent : st.recent = newest RECENT (ends rows)
  few : (ends rows).length ≤ RECENT
  ids : ((ends rows).map Txn.opId).Nodup
  final : ∀ t ∈ ends rows, t.phase.isFinal = true
  regular : ∀ t ∈ ends rows, Regular t
  object : ∀ line, .other line ∈ rows → line.isObject = true
  direct : ∀ line, .other line ∈ rows → changes line = true → ∀ t ∈ ends rows,
    s line "item" ≠ t.item

theorem ends_split {P Q : List Row} {t : Txn} {secs : Nat} :
    ends (P ++ .txn t secs :: Q) = ends P ++ t :: ends Q := by
  rw [ends, List.filterMap_append, List.filterMap_cons]
  rfl

theorem mem_ends {rows : List Row} {t : Txn} : t ∈ ends rows ↔ ∃ secs, .txn t secs ∈ rows := by
  rw [ends, List.mem_filterMap]
  constructor
  · rintro ⟨row, hrow, heq⟩
    cases row with
    | txn u secs =>
        cases heq
        exact ⟨secs, hrow⟩
    | other line => cases heq
  · rintro ⟨secs, h⟩
    exact ⟨_, h, rfl⟩

/-- In a run of the engine the process knows the transactions that ended since it started. -/
theorem History.of_run {cfg : Config} {w : World} {mark : Nat}
    (hrun : Transition.Exec (Transition.watched (World.next cfg) marks) (fun _ _ => True) ({}, 0)
      (w, mark))
    {rows : List Row} (hends : ends rows = endsOf (w.log.drop mark)) (hactive : w.st.active = none)
    (hfew : (ends rows).length ≤ RECENT) (hregular : ∀ t ∈ ends rows, Regular t)
    (hobject : ∀ line, .other line ∈ rows → line.isObject = true)
    (hdirect : ∀ line, .other line ∈ rows → changes line = true → ∀ t ∈ ends rows,
      s line "item" ≠ t.item) : History w.st rows := by
  obtain ⟨hok, hfiling⟩ := World.Filing.exec hrun
  have hrecent : w.st.recent = newest RECENT (ends rows) := by rw [hfiling.recent, hends]
  have hall : w.st.recent = ends rows := by
    rw [hrecent, newest, Nat.sub_eq_zero_of_le hfew, List.drop_zero]
  constructor
  · exact hactive
  · exact hrecent
  · exact hfew
  · have hids := hfiling.ids
    rw [hactive, hall] at hids
    simpa using hids
  · rw [← hall]
    exact hok.st.recent
  · exact hregular
  · exact hobject
  · exact hdirect

/-- The engine looks at the transactions behind it. -/
theorem laterChange_iff {st : St} {P Q : List Row} {t : Txn} {secs : Nat}
    (h : History st (P ++ .txn t secs :: Q)) :
    st.laterChange t = true ↔ ∃ u ∈ ends Q, u.item = t.item := by
  have hrecent : st.recent = ends P ++ t :: ends Q := by
    rw [h.recent, newest, Nat.sub_eq_zero_of_le h.few, List.drop_zero, ends_split]
  have hbefore : ∀ u ∈ ends P, decide (u.opId ≠ t.opId) = true := by
    intro u hu
    have hids := h.ids
    rw [ends_split, List.map_append, List.map_cons] at hids
    have hdisjoint := (List.nodup_append.mp hids).2.2
    exact decide_eq_true (hdisjoint _ (List.mem_map_of_mem hu) _ List.mem_cons_self)
  rw [St.laterChange, h.active, hrecent, List.dropWhile_append_of_pos hbefore,
    List.dropWhile_cons_of_neg (by simp)]
  simp

/-! ### The two views -/

variable {ryu : Ryu}

/-- The lines of the transactions are not reduced. -/
def AllWhole (ryu : Ryu) (rows : List Row) : Prop :=
  ∀ t secs, .txn t secs ∈ rows → Record.Whole ryu secs (txnLine t)

theorem AllWhole.line {rows : List Row} (h : AllWhole ryu rows) {t : Txn} {secs : Nat}
    (ht : .txn t secs ∈ rows) :
    Row.line ryu (.txn t secs) = stamp secs (clipValue (txnLine t)) := by
  rw [Row.line, Record.recorded, if_pos (h t secs ht)]

theorem isObject_txnLine (t : Txn) (secs : Nat) :
    (stamp secs (clipValue (txnLine t))).isObject = true := by
  rw [Record.isObject_stamp]
  rfl

theorem History.isObject {st : St} {rows : List Row} (h : History st rows) (ryu : Ryu)
    {older : List Value} (holder : ∀ line ∈ older, line.isObject = true) :
    ∀ line ∈ (rows.map (Row.line ryu)).reverse ++ older, line.isObject = true := by
  intro line hline
  rcases List.mem_append.mp hline with hline | hline
  · obtain ⟨row, hrow, rfl⟩ := List.mem_map.mp (List.mem_reverse.mp hline)
    cases row with
    | txn t secs =>
        rw [Row.line, Record.recorded]
        split_ifs
        · exact isObject_txnLine t secs
        · rfl
    | other line => exact h.object line hrow
  · exact holder line hline

/-- The viewer looks at the lines behind it. -/
theorem changedLater_iff {st : St} {P Q : List Row} {t : Txn} {secs : Nat}
    (h : History st (P ++ .txn t secs :: Q)) (hwhole : AllWhole ryu (P ++ .txn t secs :: Q)) :
    t.item ∈ ((Q.map (Row.line ryu)).reverse.foldl Seen.next {}).changedLater ↔
      ∃ u ∈ ends Q, u.item = t.item := by
  have hmem : ∀ row ∈ Q, row ∈ P ++ .txn t secs :: Q := fun row hrow =>
    List.mem_append_right _ (List.mem_cons_of_mem _ hrow)
  have ht : t ∈ ends (P ++ .txn t secs :: Q) := mem_ends.mpr ⟨secs, by simp⟩
  rw [mem_changedLater]
  constructor
  · rintro (hnone | ⟨line, hline, hchange, hitem⟩)
    · cases hnone
    · obtain ⟨row, hrow, rfl⟩ := List.mem_map.mp (List.mem_reverse.mp hline)
      cases row with
      | txn u s' =>
          have hu : u ∈ ends Q := mem_ends.mpr ⟨s', hrow⟩
          have hregular := h.regular u (mem_ends.mpr ⟨s', hmem _ hrow⟩)
          rw [hwhole.line (hmem _ hrow), s_item s' hregular] at hitem
          exact ⟨u, hu, hitem⟩
      | other line => exact absurd hitem (h.direct line (hmem _ hrow) hchange t ht)
  · rintro ⟨u, hu, hitem⟩
    obtain ⟨s', hrow⟩ := mem_ends.mp hu
    have hregular := h.regular u (mem_ends.mpr ⟨s', hmem _ hrow⟩)
    refine .inr ⟨Row.line ryu (.txn u s'), List.mem_reverse.mpr (List.mem_map_of_mem hrow), ?_⟩
    rw [hwhole.line (hmem _ hrow)]
    exact ⟨changes_whole hregular s', by rw [s_item s' hregular, hitem]⟩

/-- Of the transaction with `n` lines behind it one of the views says that it can be undone. -/
def Undoable (st : St) (ds : List Value) (t : Txn) (n : Nat) : Prop :=
  (∃ now, (engineUndo st now t).1 = some (.bool true)) ∨
    ∃ d param, ds[n]? = some d ∧ (lineUndo param d).1 = some (.bool true)

/-- What the engine says of the transactions of a history, and the decorated lines. -/
structure Agree (st : St) (rows : List Row) (ds : List Value) : Prop where
  same : ∀ P t secs Q, rows = P ++ .txn t secs :: Q → ∀ spec, Spec.find t.action = some spec →
    ∀ now, ∃ d, ds[Q.length]? = some d ∧ engineUndo st now t = lineUndo spec.param d
  latest : ∀ P t secs Q, rows = P ++ .txn t secs :: Q → Undoable st ds t Q.length →
    ∀ u ∈ ends Q, u.item ≠ t.item
  one : ∀ P t secs Q P' u secs' Q', rows = P ++ .txn t secs :: Q →
    rows = P' ++ .txn u secs' :: Q' → t.item = u.item → Undoable st ds t Q.length →
    Undoable st ds u Q'.length → P = P'

/-- Of the two rows one is behind the other, unless they are the same. -/
theorem split_cases {P P' Q Q' : List Row} {x y : Row} (h : P ++ x :: Q = P' ++ y :: Q') :
    P = P' ∨ y ∈ Q ∨ x ∈ Q' := by
  rcases List.append_eq_append_iff.mp h with ⟨R, rfl, hR⟩ | ⟨R, rfl, hR⟩
  · cases R with
    | nil => exact .inl (List.append_nil P).symm
    | cons z R =>
        obtain ⟨-, rfl⟩ := List.cons.inj (hR.trans (List.cons_append ..))
        exact .inr (.inl (by simp))
  · cases R with
    | nil => exact .inl (List.append_nil P')
    | cons z R =>
        obtain ⟨-, rfl⟩ := List.cons.inj (hR.trans (List.cons_append ..))
        exact .inr (.inr (by simp))

/-- What the viewer says of a transaction with the rows `Q` behind it. -/
theorem lineUndo_at {st : St} {P Q : List Row} {t : Txn} {secs : Nat}
    (h : History st (P ++ .txn t secs :: Q)) (hwhole : AllWhole ryu (P ++ .txn t secs :: Q))
    {d : Value} {spec : Spec} (hspec : Spec.find t.action = some spec)
    (hd : decorateLine ((Q.map (Row.line ryu)).reverse.foldl Seen.next {})
      (Row.line ryu (.txn t secs)) = some d) (now : Nat) :
    engineUndo st now t = lineUndo spec.param d := by
  have ht : t ∈ ends (P ++ .txn t secs :: Q) := mem_ends.mpr ⟨secs, by simp⟩
  rw [hwhole.line (by simp)] at hd
  have hlater : st.laterChange t =
      ((Q.map (Row.line ryu)).reverse.foldl Seen.next {}).changedLater.contains t.item := by
    rw [Bool.eq_iff_iff, laterChange_iff h, List.contains_iff_mem, changedLater_iff h hwhole]
  rw [engineUndo_eq (h.final t ht), lineUndo_eq (h.regular t ht) (get_undoView hd) hspec, hlater]

/-- A change that can be undone is the latest of its item. -/
theorem latest_of_engineUndo {st : St} {P Q : List Row} {t : Txn} {secs : Nat}
    (h : History st (P ++ .txn t secs :: Q)) {now : Nat}
    (hundo : (engineUndo st now t).1 = some (.bool true)) : ∀ u ∈ ends Q, u.item ≠ t.item := by
  intro u hu hitem
  have hlater : st.laterChange t = true := (laterChange_iff h).mpr ⟨u, hu, hitem⟩
  have ht : t ∈ ends (P ++ .txn t secs :: Q) := mem_ends.mpr ⟨secs, by simp⟩
  rw [engineUndo_eq (h.final t ht), hlater, Ui.undoDenied, if_pos rfl] at hundo
  cases hundo

/-- **The two undo views agree** on every transaction of a history whose lines are written
    whole, and what they say can be undone is the latest change of its item. -/
theorem undo_views_agree {st : St} {rows : List Row} (h : History st rows)
    (hwhole : AllWhole ryu rows) {older : List Value}
    (holder : ∀ line ∈ older, line.isObject = true) :
    ∃ ds, decorate ((rows.map (Row.line ryu)).reverse ++ older) = some ds ∧ Agree st rows ds := by
  obtain ⟨ds, hds, -, hat⟩ := decorateFrom_some (h.isObject ryu holder) {}
  have hsame : ∀ P t secs Q, rows = P ++ .txn t secs :: Q →
      ∀ spec, Spec.find t.action = some spec →
        ∀ now, ∃ d, ds[Q.length]? = some d ∧ engineUndo st now t = lineUndo spec.param d := by
    rintro P t secs Q rfl spec hspec now
    obtain ⟨d, hget, hd⟩ := hat (Q.map (Row.line ryu)).reverse
      ((P.map (Row.line ryu)).reverse ++ older) (Row.line ryu (.txn t secs)) (by simp)
    exact ⟨d, by simpa using hget, lineUndo_at h hwhole hspec hd now⟩
  have hlatest : ∀ P t secs Q, rows = P ++ .txn t secs :: Q → Undoable st ds t Q.length →
      ∀ u ∈ ends Q, u.item ≠ t.item := by
    rintro P t secs Q rfl (⟨now, hundo⟩ | ⟨d, param, hd, hundo⟩)
    · exact latest_of_engineUndo h hundo
    · obtain ⟨spec, hspec, -⟩ := (h.regular t (mem_ends.mpr ⟨secs, by simp⟩)).spec
      obtain ⟨d', hd', heq⟩ := hsame P t secs Q rfl spec hspec 0
      obtain rfl : d = d' := Option.some.inj (hd.symm.trans hd')
      -- whether it can be undone does not depend on the parameter
      have hok : (engineUndo st 0 t).1 = some (.bool true) := by
        rw [heq]
        exact hundo
      exact latest_of_engineUndo h hok
  refine ⟨ds, hds, hsame, hlatest, ?_⟩
  intro P t secs Q P' u secs' Q' hP hP' hitem ht hu
  rcases split_cases (hP.symm.trans hP') with heq | hbehind | hbehind
  · exact heq
  · exact absurd hitem.symm (hlatest P t secs Q hP ht u (mem_ends.mpr ⟨secs', hbehind⟩))
  · exact absurd hitem (hlatest P' u secs' Q' hP' hu t (mem_ends.mpr ⟨secs, hbehind⟩))

/-- A change of the network mode that was confirmed. -/
def changed (opId old target : String) : Txn :=
  { Txn.new { Txn.sampleNew with opId, old, target, rollbackTo := old } 0 with
    phase := .confirmed
    reason := some .verified
    readback := some target
    tookMs := some 4000 }

theorem regular_changed {opId old target : String} (hold : Short old) (htarget : Short target) :
    Regular (changed opId old target) := by
  constructor
  · exact ⟨_, rfl, rfl⟩
  · exact hold
  · exact htarget
  · exact hold
  · rintro r ⟨⟩
    exact htarget

/-- One change is a history. -/
theorem history_changed {old target : String} (hold : Short old) (htarget : Short target) :
    History { recent := [changed "a1" old target] } [.txn (changed "a1" old target) 0] := by
  constructor
  · rfl
  · rfl
  · exact Nat.le_of_ble_eq_true rfl
  · exact List.nodup_singleton _
  · intro t ht
    rw [List.mem_singleton.mp ht]
    rfl
  · intro t ht
    rw [List.mem_singleton.mp ht]
    exact regular_changed hold htarget
  · intro line hline
    cases List.mem_singleton.mp hline
  · intro line hline
    cases List.mem_singleton.mp hline

theorem undo_views_agree_one :
    ∃ ds, decorate (([.txn (changed "a1" "Only_5G" "Only_LTE") 0].map
        (Row.line fun _ => [])).reverse ++ []) = some ds ∧
      Agree { recent := [changed "a1" "Only_5G" "Only_LTE"] }
        [.txn (changed "a1" "Only_5G" "Only_LTE") 0] ds := by
  apply undo_views_agree (history_changed (by decide) (by decide))
  · intro t secs ht
    obtain ⟨rfl, rfl⟩ : t = changed "a1" "Only_5G" "Only_LTE" ∧ secs = 0 := by simpa using ht
    rw [Record.Whole, Record.length_toVec]
    decide +kernel
  · exact List.forall_mem_nil _

/-! ### Lines that are reduced -/

theorem size_member {ms : List (String × Value)} {k : String} {v : Value}
    (h : (Value.obj ms).get k = some v) : Record.size ryu v ≤ Record.fieldsSize ryu ms := by
  induction ms with
  | nil => cases h
  | cons m ms ih =>
      obtain ⟨l, w⟩ := m
      rw [get_obj_cons] at h
      rw [Record.fieldsSize]
      split_ifs at h with heq
      · cases h
        omega
      · have hle := ih h
        omega

theorem size_members {ms : List (String × Value)} {k l : String} (hne : k ≠ l) {v w : Value}
    (hv : (Value.obj ms).get k = some v) (hw : (Value.obj ms).get l = some w) :
    Record.size ryu v + Record.size ryu w ≤ Record.fieldsSize ryu ms := by
  induction ms with
  | nil => cases hv
  | cons m ms ih =>
      obtain ⟨j, x⟩ := m
      rw [get_obj_cons] at hv hw
      rw [Record.fieldsSize]
      by_cases hk : j = k
      · rw [if_pos hk] at hv
        rw [if_neg (hk ▸ hne)] at hw
        have hle : Record.size ryu w ≤ _ := size_member hw
        cases hv
        omega
      · rw [if_neg hk] at hv
        by_cases hl : j = l
        · rw [if_pos hl] at hw
          have hle : Record.size ryu v ≤ _ := size_member hv
          cases hw
          omega
        · rw [if_neg hl] at hw
          have hle := ih hv hw
          omega

/-- Two long values are too much for a line. -/
theorem not_whole {t : Txn} (h : Regular t) {secs : Nat}
    (hlong : Record.MAX_LINE < Record.quotedSize t.old + Record.quotedSize t.target) :
    ¬Record.Whole ryu secs (txnLine t) := by
  have hget : ∀ {k x}, k ≠ "ts" → k ≠ "t" → (txnLine t).get k = some (.str x) → Short x →
      (stamp secs (clipValue (txnLine t))).get k = some (.str x) := by
    intro k x hts ht hk hx
    rw [Record.get_stamp hts ht, Record.get_clipValue, hk, Option.map_some, clipValue, hx.clip]
  have hold := hget (k := "old") (by decide) (by decide)
    (by simp [txnLine, Value.get_ofMembers]) h.old
  have hnew := hget (k := "new") (by decide) (by decide)
    (by simp [txnLine, Value.get_ofMembers]) h.target
  obtain ⟨ms, hms⟩ : ∃ ms, stamp secs (clipValue (txnLine t)) = .obj ms := ⟨_, rfl⟩
  rw [hms] at hold hnew
  have hsum : Record.size ryu (.str t.old) + Record.size ryu (.str t.target) ≤ _ :=
    size_members (by decide) hold hnew
  have hne : ms ≠ [] := by
    rintro rfl
    cases hold
  rw [Record.Whole, Record.length_toVec, hms, Record.size_obj hne]
  rw [Record.size, Record.size] at hsum
  omega

/-- The viewer has no view of a change whose line was reduced. -/
theorem undo_of_not_txn {seen : Seen} {line : Value} (h : isTxn line = false) :
    (shown seen line).undo = .null := by
  unfold shown
  rw [if_neg (by simp [h])]
  split_ifs
  · unfold skipEntry
    split_ifs
    · rfl
    · rfl
  · rfl

theorem isTxn_skeleton (line : Value) : isTxn (Record.skeleton line) = false := by
  have hnone : (Record.kept line).reverse.find? (fun m => decide (m.1 = "new")) = none := by
    apply List.find?_eq_none.mpr
    intro m hm
    have hkey : m.1 ∈ Record.SKELETON :=
      (Record.kept_keys line).subset (List.mem_map_of_mem (List.mem_reverse.mp hm))
    rw [decide_eq_true_iff]
    intro heq
    rw [heq] at hkey
    exact absurd hkey (by decide)
  have hnew : (Record.skeleton line).get "new" = none := by
    rw [Record.skeleton, get_insertMember_of_ne (by decide), Value.get_foldl_insertMember, hnone]
    rfl
  rw [isTxn, hnew, Bool.and_eq_false_iff]
  exact .inr rfl

/-- **Only then**: if the views agree, no line was reduced. -/
theorem whole_of_agree {st : St} {rows : List Row} (h : History st rows) {older ds : List Value}
    (holder : ∀ line ∈ older, line.isObject = true)
    (hds : decorate ((rows.map (Row.line ryu)).reverse ++ older) = some ds)
    (hagree : Agree st rows ds) : AllWhole ryu rows := by
  intro t secs hrow
  by_contra hlong
  obtain ⟨P, Q, rfl⟩ := List.append_of_mem hrow
  have ht : t ∈ ends (P ++ .txn t secs :: Q) := mem_ends.mpr ⟨secs, hrow⟩
  obtain ⟨ds', hds', -, hat⟩ := decorateFrom_some (h.isObject ryu holder) {}
  obtain rfl : ds = ds' := Option.some.inj (hds.symm.trans hds')
  obtain ⟨d, hget, hd⟩ := hat (Q.map (Row.line ryu)).reverse
    ((P.map (Row.line ryu)).reverse ++ older) (Row.line ryu (.txn t secs)) (by simp)
  have hskeleton : Row.line ryu (.txn t secs) =
      Record.skeleton (stamp secs (clipValue (txnLine t))) := by
    rw [Row.line, Record.recorded, if_neg hlong]
  rw [hskeleton] at hd
  have hundo := get_undoView hd
  rw [undo_of_not_txn (isTxn_skeleton _)] at hundo
  rw [List.length_reverse, List.length_map] at hget
  obtain ⟨spec, hspec, -⟩ := (h.regular t ht).spec
  obtain ⟨d', hget', hsame⟩ := hagree.same P t secs Q rfl spec hspec 0
  obtain rfl : d = d' := Option.some.inj (hget.symm.trans hget')
  rw [engineUndo_eq (h.final t ht), lineUndo, hundo] at hsame
  cases congrArg Prod.fst hsame

theorem not_agree {x : String} (hx : Short x)
    (hlong : Record.MAX_LINE < Record.quotedSize x + Record.quotedSize x) {ds : List Value}
    (hds : decorate (([.txn (changed "a1" x x) 0].map (Row.line ryu)).reverse ++ []) = some ds) :
    ¬Agree { recent := [changed "a1" x x] } [.txn (changed "a1" x x) 0] ds := by
  intro hagree
  have hwhole := whole_of_agree (history_changed hx hx) (List.forall_mem_nil _) hds hagree
  exact not_whole (regular_changed hx hx) hlong (hwhole _ _ List.mem_cons_self)

theorem length_flatMap_replicate {α β : Type} (f : α → List β) (n : Nat) (a : α) :
    ((List.replicate n a).flatMap f).length = n * (f a).length := by
  induction n with
  | zero => simp
  | succ n ih =>
      rw [List.replicate_succ, List.flatMap_cons, List.length_append, ih, Nat.succ_mul,
        Nat.add_comm]

theorem quotedSize_replicate (n : Nat) (c : Char) :
    Record.quotedSize (String.ofList (List.replicate n c)) =
      2 + n * ((escape c).flatMap String.utf8EncodeChar).length := by
  have hquote : (String.utf8EncodeChar '"').length = 1 := by decide
  rw [Record.quotedSize, utf8, String.toList_ofList, quoted, String.toList_ofList,
    List.cons_append, List.flatMap_cons, List.flatMap_append, List.flatMap_singleton,
    List.flatMap_assoc, List.length_append, List.length_append, length_flatMap_replicate, hquote]
  omega

/-- 256 bytes, and six times as many in a line. -/
def controls : String := String.ofList (List.replicate 256 (Char.ofNat 1))

theorem short_controls : Short controls := by
  have hchar : (String.utf8EncodeChar (Char.ofNat 1)).length = 1 := by decide
  have hlength : (utf8 controls).length = 256 * 1 := by
    rw [utf8, show controls.toList = List.replicate 256 (Char.ofNat 1) from String.toList_ofList,
      length_flatMap_replicate, hchar]
  rw [Short, hlength]
  decide

theorem length_controls :
    Record.MAX_LINE < Record.quotedSize controls + Record.quotedSize controls := by
  have hescape : ((escape (Char.ofNat 1)).flatMap String.utf8EncodeChar).length = 6 := by decide
  have hsize : Record.quotedSize controls = 2 + 256 * 6 := by
    refine (quotedSize_replicate 256 (Char.ofNat 1)).trans ?_
    rw [hescape]
  rw [hsize]
  decide

/-- The line has no values any more, and the viewer no view of the change. -/
theorem reduced_line_disagrees :
    ¬∀ (ryu : Ryu) (st : St) (rows : List Row) (older : List Value), History st rows →
      (∀ line ∈ older, line.isObject = true) →
      ∃ ds, decorate ((rows.map (Row.line ryu)).reverse ++ older) = some ds ∧
        Agree st rows ds := by
  intro hall
  obtain ⟨ds, hds, hagree⟩ := hall (fun _ => []) { recent := [changed "a1" controls controls] }
    [.txn (changed "a1" controls controls) 0] [] (history_changed short_controls short_controls)
    (List.forall_mem_nil _)
  exact not_agree short_controls length_controls hds hagree

end JournalView

end Datad
