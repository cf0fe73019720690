/-
  Datad/Hub/Wire.lean
  ===================
  **Blocks on the wire** (`v2.rs`): what a subscriber is sent, as bytes, and the client at the
  other end.

  The stream is a snapshot and then a frame for each event, written once for all subscribers.
  The client reads `text/event-stream`, reads the JSON in it and folds the events in.
  `client_follows`: wherever its connection is cut off, it shows the hub as it was after one
  of the events sent, and it has every event of which all bytes arrived.
-/
import Datad.Hub.Feed
import Datad.Hub.Signal
import Datad.JsonText
import Datad.Lib.ByteLines
import Datad.Lib.EventStream
import Datad.Ops.DataPath
import Datad.Ops.Ui

namespace Datad

open Ubus

/-! ### The text of a value fits into one line -/

namespace Value

variable {ryu : Ryu}

theorem toNat_hexDigit : ∀ n < 16, 32 ≤ (hexDigit n).toNat := by decide

theorem printable_of_all {l : List Char} (h : (l.all fun c => decide (32 ≤ c.toNat)) = true) :
    ∀ c ∈ l, 32 ≤ c.toNat := fun c hc => of_decide_eq_true (List.all_eq_true.mp h c hc)

theorem printable_escape {c d : Char} (h : d ∈ escape c) : 32 ≤ d.toNat := by
  unfold escape at h
  iterate 7
    split at h
    · exact printable_of_all (by decide) d h
  split at h
  · simp only [List.mem_cons, List.not_mem_nil, or_false] at h
    rcases h with rfl | rfl | rfl | rfl | rfl | rfl
    · decide
    · decide
    · decide
    · decide
    · exact toNat_hexDigit _ (by omega)
    · exact toNat_hexDigit _ (by omega)
  · rw [List.mem_singleton.mp h]
    omega

theorem printable_quoted {s : String} {c : Char} (h : c ∈ quoted s) : 32 ≤ c.toNat := by
  rcases List.mem_append.mp h with h | h
  · rcases List.mem_cons.mp h with rfl | h
    · decide
    · obtain ⟨d, -, hd⟩ := List.mem_flatMap.mp h
      exact printable_escape hd
  · rw [List.mem_singleton.mp h]
    decide

theorem printable_numChar {c : Char} (h : numChar c = true) : 32 ≤ c.toNat := by
  unfold numChar at h
  rcases (Bool.or_eq_true _ _).mp h with h | h
  · simp only [Char.isDigit, Bool.and_eq_true, decide_eq_true_iff] at h
    exact le_trans (by decide) (UInt32.le_iff_toNat_le.mp h.1)
  · have hmark : ∀ c ∈ ['-', '+', '.', 'e', 'E'], 32 ≤ c.toNat := printable_of_all (by decide)
    exact hmark c (List.contains_iff_mem.mp h)

mutual

/-- **The text of a value has no control characters.** -/
theorem printable_chars (hryu : ryu.Lawful) : ∀ (v : Value), v.Finite →
    ∀ c ∈ chars ryu v, 32 ≤ c.toNat
  | .null, _ => printable_of_all rfl
  | .bool true, _ => printable_of_all rfl
  | .bool false, _ => printable_of_all rfl
  | .num n, hv => fun c hc => printable_numChar (numChar_numText hryu hv hc)
  | .str s, _ => fun c hc => printable_quoted hc
  | .arr [], _ => printable_of_all rfl
  | .arr (v :: vs), hv => by
      intro c hc
      rcases List.mem_cons.mp hc with rfl | hc
      · decide
      · rcases List.mem_append.mp hc with hc | hc
        · exact printable_chars hryu v hv.1 c hc
        · exact printable_itemsRest hryu vs hv.2 c hc
  | .obj [], _ => printable_of_all rfl
  | .obj ((k, v) :: ms), hv => by
      intro c hc
      rcases List.mem_cons.mp hc with rfl | hc
      · decide
      · rcases List.mem_append.mp hc with hc | hc
        · exact printable_quoted hc
        · rcases List.mem_cons.mp hc with rfl | hc
          · decide
          · rcases List.mem_append.mp hc with hc | hc
            · exact printable_chars hryu v hv.1 c hc
            · exact printable_membersRest hryu ms hv.2 c hc

theorem printable_itemsRest (hryu : ryu.Lawful) : ∀ (vs : List Value), FiniteItems vs →
    ∀ c ∈ itemsRest ryu vs, 32 ≤ c.toNat
  | [], _ => printable_of_all rfl
  | v :: vs, hv => by
      intro c hc
      rcases List.mem_cons.mp hc with rfl | hc
      · decide
      · rcases List.mem_append.mp hc with hc | hc
        · exact printable_chars hryu v hv.1 c hc
        · exact printable_itemsRest hryu vs hv.2 c hc

theorem printable_membersRest (hryu : ryu.Lawful) : ∀ (ms : List (String × Value)),
    FiniteMembers ms → ∀ c ∈ membersRest ryu ms, 32 ≤ c.toNat
  | [], _ => printable_of_all rfl
  | (k, v) :: ms, hv => by
      intro c hc
      rcases List.mem_cons.mp hc with rfl | hc
      · decide
      · rcases List.mem_append.mp hc with hc | hc
        · exact printable_quoted hc
        · rcases List.mem_cons.mp hc with rfl | hc
          · decide
          · rcases List.mem_append.mp hc with hc | hc
            · exact printable_chars hryu v hv.1 c hc
            · exact printable_membersRest hryu ms hv.2 c hc

end

/-- A value is read off its text. -/
noncomputable def ofText (ryu : Ryu) (text : String) : Option Value :=
  open Classical in
  if h : ∃ v : Value, v.Finite ∧ v.toText ryu = text then some h.choose else none

theorem ofText_toText (hryu : ryu.Lawful) {v : Value} (hv : v.Finite) :
    ofText ryu (v.toText ryu) = some v := by
  have h : ∃ w : Value, w.Finite ∧ w.toText ryu = v.toText ryu := ⟨v, hv, rfl⟩
  rw [ofText, dif_pos h]
  exact congrArg some (toText_inj hryu h.choose_spec.1 hv h.choose_spec.2)

end Value

/-! ### Members of an object that is built up -/

theorem insertMember_perm {k : String} {v : Value} {ms : List (String × Value)}
    (h : ∀ m ∈ ms, m.1 ≠ k) : (insertMember k v ms).Perm ((k, v) :: ms) := by
  induction ms with
  | nil => exact .refl _
  | cons m ms ih =>
    have hm : k ≠ m.1 := fun heq => h m List.mem_cons_self heq.symm
    rw [insertMember]
    split
    · exact .refl _
    · exact ((ih fun n hn => h n (List.mem_cons_of_mem _ hn)).cons m).trans (.swap _ _ _)

theorem foldl_insertMember_perm {fs acc : List (String × Value)} (hfs : (fs.map Prod.fst).Nodup)
    (hacc : ∀ m ∈ acc, m.1 ∉ fs.map Prod.fst) :
    (fs.foldl (fun ms m => insertMember m.1 m.2 ms) acc).Perm (fs ++ acc) := by
  induction fs generalizing acc with
  | nil => exact .refl _
  | cons f fs ih =>
    obtain ⟨hf, hnodup⟩ := List.nodup_cons.mp hfs
    have hnew : ∀ m ∈ acc, m.1 ≠ f.1 := fun m hm heq =>
      hacc m hm (heq ▸ List.mem_cons_self)
    have hperm := insertMember_perm (v := f.2) hnew
    have hacc' : ∀ m ∈ insertMember f.1 f.2 acc, m.1 ∉ fs.map Prod.fst := by
      intro m hm
      rcases List.mem_cons.mp (hperm.mem_iff.mp hm) with rfl | hm
      · exact hf
      · exact fun hmem => hacc m hm (List.mem_cons_of_mem _ hmem)
    refine (ih hnodup hacc').trans ((hperm.append_left fs).trans ?_)
    exact List.perm_middle

namespace Hub

open Bytes Trace

/-! ### Frames (`v2.rs`) -/

section

variable (ryu : Ryu) (epoch : String)

def blockMsg (e : BlockEvent) : Value :=
  .obj [("epoch", .str epoch), ("seq", .ofNat e.seq), ("name", .str e.name),
    ("revision", .ofNat e.revision), ("observed_at", .ofNat e.observedAt),
    ("stale", .bool e.stale), ("data", e.data)]

/-- The blocks of a message are a `BTreeMap`. -/
def heartbeatMsg (hb : Heartbeat) : Value :=
  .obj [("epoch", .str epoch), ("seq", .ofNat hb.seq),
    ("blocks", .ofMembers (hb.blocks.map fun b => (b.1, .ofNat b.2))),
    ("exec_age_ms", .ofNat hb.execAgeMs)]

def blockBody (v : BlockView) : Value :=
  .obj [("revision", .ofNat v.revision), ("observed_at", .ofNat v.observedAt),
    ("stale", .bool v.stale), ("data", v.data)]

def snapshotMsg (cut : Nat) (views : List BlockView) : Value :=
  .obj [("epoch", .str epoch), ("seq", .ofNat cut),
    ("blocks", .ofMembers (views.map fun v => (v.name, blockBody v)))]

def sse (event json : String) : List UInt8 :=
  utf8 ("event: " ++ event ++ "\ndata: " ++ json ++ "\n\n")

def frame : Event → List UInt8
  | .block e => sse "block" ((blockMsg epoch e).toText ryu)
  | .heartbeat hb => sse "heartbeat" ((heartbeatMsg epoch hb).toText ryu)

/-- `/v2/state`. -/
def snapshotJson (cut : Nat) (views : List BlockView) : String :=
  (snapshotMsg epoch cut views).toText ryu

/-- The body of `/v2/events`. -/
def body (cut : Nat) (views : List BlockView) (events : List Event) : List UInt8 :=
  sse "snapshot" (snapshotJson ryu epoch cut views) ++ events.flatMap (frame ryu epoch)

end

/-! ### The client -/

structure Client where
  epoch : String
  seq : Nat
  views : List BlockView

def natOf (v : Value) : Option Nat :=
  match v with
  | .num (.int (.ofNat n)) => some n
  | _ => none

def membersOf (v : Value) : Option (List (String × Value)) :=
  match v with
  | .obj ms => some ms
  | _ => none

def readView (name : String) (v : Value) : Option BlockView := do
  let revision ← (v.get "revision").bind natOf
  let observedAt ← (v.get "observed_at").bind natOf
  let stale ← (v.get "stale").bind Value.asBool
  let data ← v.get "data"
  return { name, revision, observedAt, stale, data }

def readBlock (v : Value) : Option Event := do
  let seq ← (v.get "seq").bind natOf
  let name ← (v.get "name").bind Value.asStr
  let view ← readView name v
  return .block { view with seq }

def readHeartbeat (v : Value) : Option Event := do
  let seq ← (v.get "seq").bind natOf
  let blocks ← (v.get "blocks").bind membersOf
  let execAgeMs ← (v.get "exec_age_ms").bind natOf
  return .heartbeat
    { seq, blocks := blocks.filterMap fun m => (natOf m.2).map fun n => (m.1, n), execAgeMs }

def readSnapshot (v : Value) : Option Client := do
  let epoch ← (v.get "epoch").bind Value.asStr
  let seq ← (v.get "seq").bind natOf
  let blocks ← (v.get "blocks").bind membersOf
  return { epoch, seq, views := blocks.filterMap fun m => readView m.1 m.2 }

/-- Nothing is left of a client that is sent what it cannot read, or another process's. -/
def Client.fold (c : Client) (v : Value) (e : Event) : Option Client :=
  if (v.get "epoch").bind Value.asStr = some c.epoch then
    some { c with seq := e.seq, views := receive c.views e }
  else none

def Client.next (c : Option Client) (event : String) (v : Value) : Option Client :=
  if event = "snapshot" then readSnapshot v
  else if event = "block" then do (← c).fold v (← readBlock v)
  else if event = "heartbeat" then do (← c).fold v (← readHeartbeat v)
  else c

section

variable (ryu : Ryu)

noncomputable def Client.message (c : Option Client) (m : EventStream.Message) :
    Option Client := do
  let event ← BufRead.fromUtf8 m.event
  let json ← BufRead.fromUtf8 m.data
  let v ← Value.ofText ryu json
  Client.next c event v

/-- The client that has received the bytes. -/
noncomputable def client (bs : List UInt8) : Option Client :=
  (EventStream.parse bs).foldl (Client.message ryu) none

end

/-! ### A frame is one message -/

section

variable {ryu : Ryu} {epoch : String}

def Event.Finite : Event → Prop
  | .block e => e.data.Finite
  | .heartbeat _ => True

/-- A heartbeat names each block once. -/
def Event.Tidy : Event → Prop
  | .block _ => True
  | .heartbeat hb => (hb.blocks.map Prod.fst).Nodup

theorem sse_eq_frame (event json : String) :
    sse event json = EventStream.frame ⟨utf8 event, utf8 json⟩ := by
  have hevent : utf8 "event: " = EventStream.EVENT ++ [EventStream.COLON, EventStream.SPACE] := by
    decide
  have hdata : utf8 "\ndata: " = [EventStream.LF] ++ EventStream.DATA ++
      [EventStream.COLON, EventStream.SPACE] := by
    decide
  have hend : utf8 "\n\n" = [EventStream.LF, EventStream.LF] := by decide
  rw [sse, utf8_append, utf8_append, utf8_append, utf8_append, hevent, hdata, hend,
    EventStream.frame]
  simp only [List.append_assoc, List.cons_append, List.nil_append]

theorem oneLine_utf8 {s : String} (h : ∀ c ∈ s.toList, 32 ≤ c.toNat) :
    EventStream.OneLine (utf8 s) := by
  constructor
  · intro hmem
    have hc := h '\n' ((mem_utf8_ascii (by decide) s).mp hmem)
    exact absurd hc (by decide)
  · intro hmem
    have hc := h '\r' ((mem_utf8_ascii (by decide) s).mp hmem)
    exact absurd hc (by decide)

/-- The message of a value. -/
def messageOf (ryu : Ryu) (event : String) (v : Value) : EventStream.Message :=
  ⟨utf8 event, utf8 (v.toText ryu)⟩

theorem utf8_ne_nil {s : String} (h : s.toList ≠ []) : utf8 s ≠ [] := by
  intro hnil
  rw [utf8, List.flatMap_eq_nil_iff] at hnil
  obtain ⟨c, cs, hcs⟩ := List.exists_cons_of_ne_nil h
  have hlen := congrArg List.length (hnil c (hcs ▸ List.mem_cons_self))
  rw [String.length_utf8EncodeChar, List.length_nil] at hlen
  exact absurd hlen c.utf8Size_pos.ne'

theorem messageOf_plain (hryu : ryu.Lawful) {event : String}
    (hevent : (event.toList.all fun c => decide (32 ≤ c.toNat)) = true) (hne : event.toList ≠ [])
    {v : Value} (hv : v.Finite) : (messageOf ryu event v).Plain where
  event := ⟨oneLine_utf8 (Value.printable_of_all hevent), utf8_ne_nil hne⟩
  data := by
    have hchars : (v.toText ryu).toList = Value.chars ryu v := String.toList_ofList
    refine ⟨oneLine_utf8 (hchars ▸ Value.printable_chars hryu v hv), utf8_ne_nil ?_⟩
    rw [hchars]
    obtain ⟨c, l, hcl, -⟩ := Value.kind_head hryu hv []
    rw [List.append_nil] at hcl
    rw [hcl]
    exact List.cons_ne_nil _ _

theorem message_messageOf (hryu : ryu.Lawful) (c : Option Client) (event : String) {v : Value}
    (hv : v.Finite) : Client.message ryu c (messageOf ryu event v) = Client.next c event v := by
  have hevent : BufRead.fromUtf8 (utf8 event) = some event := BufRead.fromUtf8_eq_some.mpr rfl
  have hjson : BufRead.fromUtf8 (utf8 (v.toText ryu)) = some (v.toText ryu) :=
    BufRead.fromUtf8_eq_some.mpr rfl
  rw [Client.message, messageOf, hevent, hjson]
  simp only [Option.bind_eq_bind, Option.bind_some, Value.ofText_toText hryu hv]

/-! ### What is written is read -/

theorem finiteMembers_iff {ms : List (String × Value)} :
    Value.FiniteMembers ms ↔ ∀ m ∈ ms, m.2.Finite := by
  induction ms with
  | nil => exact iff_of_true trivial fun m hm => absurd hm List.not_mem_nil
  | cons m ms ih =>
    rw [List.forall_mem_cons, ← ih]
    exact Iff.rfl

theorem finite_ofMembers {fs : List (String × Value)} (h : ∀ m ∈ fs, m.2.Finite) :
    (Value.ofMembers fs).Finite := by
  refine finiteMembers_iff.mpr fun m hm => ?_
  rcases Record.mem_foldl_insertMember hm with hm | hm
  · exact h m hm
  · exact absurd hm List.not_mem_nil

theorem finite_blockMsg {e : BlockEvent} (h : e.data.Finite) : (blockMsg epoch e).Finite :=
  ⟨trivial, trivial, trivial, trivial, trivial, trivial, h, trivial⟩

theorem finite_heartbeatMsg (hb : Heartbeat) : (heartbeatMsg epoch hb).Finite := by
  refine ⟨trivial, trivial, finite_ofMembers fun m hm => ?_, trivial, trivial⟩
  obtain ⟨b, -, rfl⟩ := List.mem_map.mp hm
  trivial

theorem finite_snapshotMsg {cut : Nat} {views : List BlockView} (h : ∀ v ∈ views, v.data.Finite) :
    (snapshotMsg epoch cut views).Finite := by
  refine ⟨trivial, trivial, finite_ofMembers fun m hm => ?_, trivial⟩
  obtain ⟨v, hv, rfl⟩ := List.mem_map.mp hm
  exact ⟨trivial, trivial, trivial, h v hv, trivial⟩

theorem readBlock_blockMsg (e : BlockEvent) : readBlock (blockMsg epoch e) = some (.block e) := rfl

/-- The members of an object with each name once, in some order. -/
theorem membersOf_ofMembers {fs : List (String × Value)} (h : (fs.map Prod.fst).Nodup) :
    ∃ ms, Value.ofMembers fs = .obj ms ∧ ms.Perm fs := by
  refine ⟨_, rfl, ?_⟩
  have hacc : ∀ m ∈ ([] : List (String × Value)), m.1 ∉ fs.map Prod.fst :=
    fun m hm => absurd hm List.not_mem_nil
  have hperm := foldl_insertMember_perm h hacc
  rwa [List.append_nil] at hperm

theorem lookup_perm {l l' : List (String × Nat)} (h : l.Perm l') (hn : (l.map Prod.fst).Nodup)
    (k : String) : l.lookup k = l'.lookup k := by
  induction h with
  | nil => rfl
  | cons x h ih =>
    obtain ⟨-, hn⟩ := List.nodup_cons.mp hn
    rw [List.lookup_cons, List.lookup_cons, ih hn]
  | swap x y l =>
    obtain ⟨hy, -⟩ := List.nodup_cons.mp hn
    have hxy : y.1 ≠ x.1 := fun heq => hy (heq ▸ List.mem_cons_self)
    rw [List.lookup_cons, List.lookup_cons, List.lookup_cons, List.lookup_cons]
    by_cases hk : k = y.1
    · have hx : (k == x.1) = false := beq_false_of_ne (hk ▸ hxy)
      rw [hx]
    · rw [beq_false_of_ne hk]
  | trans h₁ h₂ ih₁ ih₂ => exact (ih₁ hn).trans (ih₂ ((h₁.map Prod.fst).nodup hn))

/-- A heartbeat is read with its blocks in another order, which is no difference. -/
theorem readHeartbeat_heartbeatMsg {hb : Heartbeat} (h : (hb.blocks.map Prod.fst).Nodup) :
    ∃ blocks, readHeartbeat (heartbeatMsg epoch hb) = some (.heartbeat { hb with blocks }) ∧
      ∀ k, blocks.lookup k = hb.blocks.lookup k := by
  have hnodup : ((hb.blocks.map fun b => (b.1, Value.ofNat b.2)).map Prod.fst).Nodup := by
    rw [List.map_map]
    exact h
  obtain ⟨ms, hms, hperm⟩ := membersOf_ofMembers hnodup
  have hread : ((hb.blocks.map fun b => (b.1, Value.ofNat b.2)).filterMap fun m =>
      (natOf m.2).map fun n => (m.1, n)) = hb.blocks := by
    rw [List.filterMap_map]
    exact List.filterMap_some
  have hblocks := hperm.filterMap fun m => (natOf m.2).map fun n => (m.1, n)
  rw [hread] at hblocks
  refine ⟨_, ?_, fun k => (lookup_perm hblocks.symm h k).symm⟩
  unfold heartbeatMsg
  rw [hms]
  rfl

theorem readSnapshot_snapshotMsg {cut : Nat} {views : List BlockView}
    (h : (views.map BlockView.name).Nodup) :
    ∃ vs, readSnapshot (snapshotMsg epoch cut views) = some ⟨epoch, cut, vs⟩ ∧
      vs.Perm views := by
  have hnodup : ((views.map fun v => (v.name, blockBody v)).map Prod.fst).Nodup := by
    rw [List.map_map]
    exact h
  obtain ⟨ms, hms, hperm⟩ := membersOf_ofMembers hnodup
  have hread : ((views.map fun v => (v.name, blockBody v)).filterMap fun m =>
      readView m.1 m.2) = views := by
    rw [List.filterMap_map]
    exact List.filterMap_some
  have hviews := hperm.filterMap fun m => readView m.1 m.2
  rw [hread] at hviews
  refine ⟨_, ?_, hviews⟩
  unfold snapshotMsg
  rw [hms]
  rfl

/-! ### Folding in what arrives -/

def Event.message (ryu : Ryu) (epoch : String) : Event → EventStream.Message
  | .block e => messageOf ryu "block" (blockMsg epoch e)
  | .heartbeat hb => messageOf ryu "heartbeat" (heartbeatMsg epoch hb)

theorem frame_eq (e : Event) : frame ryu epoch e = EventStream.frame (e.message ryu epoch) := by
  cases e with
  | block e => exact sse_eq_frame _ _
  | heartbeat hb => exact sse_eq_frame _ _

theorem Event.message_plain (hryu : ryu.Lawful) {e : Event} (h : e.Finite) :
    (e.message ryu epoch).Plain := by
  cases e with
  | block e => exact messageOf_plain hryu (by decide) (by decide) (finite_blockMsg h)
  | heartbeat hb => exact messageOf_plain hryu (by decide) (by decide) (finite_heartbeatMsg hb)

theorem message_event (hryu : ryu.Lawful) {e : Event} (h : e.Finite) (ht : e.Tidy) (c : Client) :
    Client.message ryu (some c) (e.message ryu c.epoch) =
      some { c with seq := e.seq, views := receive c.views e } := by
  cases e with
  | block e =>
    rw [Event.message, message_messageOf hryu _ _ (finite_blockMsg h), Client.next,
      if_neg (by decide), if_pos rfl, readBlock_blockMsg]
    exact if_pos rfl
  | heartbeat hb =>
    obtain ⟨blocks, hread, hlook⟩ := @readHeartbeat_heartbeatMsg c.epoch hb ht
    have hreceive : receive c.views (.heartbeat { hb with blocks }) =
        receive c.views (.heartbeat hb) := by
      simp only [receive, hlook]
    rw [Event.message, message_messageOf hryu _ _ (finite_heartbeatMsg hb), Client.next,
      if_neg (by decide), if_neg (by decide), if_pos rfl, hread, ← hreceive]
    exact if_pos rfl

theorem foldl_events (hryu : ryu.Lawful) {es : List Event} (h : ∀ e ∈ es, e.Finite ∧ e.Tidy)
    (c : Client) : (es.map (Event.message ryu c.epoch)).foldl (Client.message ryu) (some c) =
      some ⟨c.epoch, es.foldl (fun _ e => e.seq) c.seq, es.foldl receive c.views⟩ := by
  induction es generalizing c with
  | nil => rfl
  | cons e es ih =>
    obtain ⟨he, hes⟩ := List.forall_mem_cons.mp h
    rw [List.map_cons, List.foldl_cons, message_event hryu he.1 he.2]
    exact ih hes { c with seq := e.seq, views := receive c.views e }

theorem receive_perm {vs ws : List BlockView} (h : vs.Perm ws) (e : Event) :
    (receive vs e).Perm (receive ws e) := by
  cases e with
  | block e => exact h.map _
  | heartbeat hb => exact h.map _

theorem foldl_receive_perm {vs ws : List BlockView} (h : vs.Perm ws) (es : List Event) :
    (es.foldl receive vs).Perm (es.foldl receive ws) := by
  induction es generalizing vs ws with
  | nil => exact h
  | cons e es ih => exact ih (receive_perm h e)

/-- The number of the last event. -/
theorem foldl_seq {cut : Nat} {es : List Event}
    (h : es.map Event.seq = List.range' (cut + 1) es.length) :
    es.foldl (fun _ e => e.seq) cut = cut + es.length := by
  induction es generalizing cut with
  | nil => rfl
  | cons e es ih =>
    rw [List.map_cons, List.length_cons, List.range'_succ] at h
    obtain ⟨he, hes⟩ := List.cons.inj h
    rw [List.foldl_cons, he, ih hes, List.length_cons]
    omega

/-- The first message of a stream. -/
theorem message_snapshot (hryu : ryu.Lawful) {cut : Nat} {views : List BlockView}
    (hviews : ∀ v ∈ views, v.data.Finite) (hn : (views.map BlockView.name).Nodup) :
    ∃ vs, Client.message ryu none (messageOf ryu "snapshot" (snapshotMsg epoch cut views)) =
      some ⟨epoch, cut, vs⟩ ∧ vs.Perm views := by
  obtain ⟨vs, hread, hperm⟩ := @readSnapshot_snapshotMsg epoch cut views hn
  refine ⟨vs, ?_, hperm⟩
  rw [message_messageOf hryu _ _ (finite_snapshotMsg hviews), Client.next, if_pos rfl, hread]

/-- The messages of a stream. -/
def messages (ryu : Ryu) (epoch : String) (cut : Nat) (views : List BlockView)
    (es : List Event) : List EventStream.Message :=
  messageOf ryu "snapshot" (snapshotMsg epoch cut views) :: es.map (Event.message ryu epoch)

theorem body_eq (cut : Nat) (views : List BlockView) (es : List Event) :
    body ryu epoch cut views es =
      (messages ryu epoch cut views es).flatMap EventStream.frame := by
  have hframes : es.flatMap (frame ryu epoch) =
      (es.map (Event.message ryu epoch)).flatMap EventStream.frame := by
    rw [List.flatMap_map]
    exact List.flatMap_congr fun e _ => frame_eq e
  rw [body, messages, List.flatMap_cons, hframes, sse_eq_frame, snapshotJson, messageOf]

theorem messages_plain (hryu : ryu.Lawful) {cut : Nat} {views : List BlockView}
    {es : List Event} (hviews : ∀ v ∈ views, v.data.Finite) (hes : ∀ e ∈ es, e.Finite) :
    ∀ m ∈ messages ryu epoch cut views es, m.Plain := by
  intro m hm
  rcases List.mem_cons.mp hm with rfl | hm
  · exact messageOf_plain hryu (by decide) (by decide) (finite_snapshotMsg hviews)
  · obtain ⟨e, he, rfl⟩ := List.mem_map.mp hm
    exact Event.message_plain hryu (hes e he)

/-- **A stream, cut off anywhere**: the client has read no snapshot yet, or the snapshot and
    the first of the events, all that arrived whole. -/
theorem client_cut (hryu : ryu.Lawful) {cut : Nat} {views : List BlockView} {es : List Event}
    (hviews : ∀ v ∈ views, v.data.Finite) (hn : (views.map BlockView.name).Nodup)
    (hes : ∀ e ∈ es, e.Finite ∧ e.Tidy) {bs : List UInt8}
    (hbs : bs <+: body ryu epoch cut views es) :
    (client ryu bs = none ∧ ¬body ryu epoch cut views [] <+: bs) ∨
      ∃ n ≤ es.length, ∃ vs, vs.Perm views ∧
        client ryu bs = some ⟨epoch, (es.take n).foldl (fun _ e => e.seq) cut,
          (es.take n).foldl receive vs⟩ ∧
        ∀ k ≤ es.length, body ryu epoch cut views (es.take k) <+: bs → k ≤ n := by
  rw [body_eq] at hbs
  have hplain := @messages_plain ryu epoch hryu cut views es hviews fun e he => (hes e he).1
  obtain ⟨n, hn', hparse, hwhole⟩ := EventStream.parse_cut hplain hbs
  have hwhole' : ∀ k ≤ es.length, body ryu epoch cut views (es.take k) <+: bs → k + 1 ≤ n := by
    intro k hk hpre
    refine hwhole (k + 1) (by simpa [messages] using hk) ?_
    rw [messages, List.take_succ_cons, ← List.map_take]
    rw [body_eq, messages] at hpre
    exact hpre
  cases n with
  | zero =>
    refine Or.inl ⟨?_, fun h => absurd (hwhole' 0 (Nat.zero_le _) h) (by omega)⟩
    rw [client, hparse, List.take_zero, List.foldl_nil]
  | succ n =>
    obtain ⟨vs, hread, hperm⟩ := @message_snapshot ryu epoch hryu cut views hviews hn
    refine Or.inr ⟨n, by simpa [messages] using hn', vs, hperm, ?_, fun k hk h => by
      have := hwhole' k hk h
      omega⟩
    rw [client, hparse, messages, List.take_succ_cons, List.foldl_cons, hread, ← List.map_take]
    exact foldl_events hryu (fun e he => hes e (List.mem_of_mem_take he)) ⟨epoch, cut, vs⟩

/-! ### Whatever the hub does -/

/-- The heartbeats of a run name each block once. -/
theorem tidy_of_emits {fresh : Nat → Value → Prop} {beat : Prop} {g g' : Inner}
    {es : List Event} (h : Emits (Micro fresh beat) g es g') (hn : (names g).Nodup) :
    ∀ e ∈ es, e.Tidy := by
  have hinv := h.invariant (fun l g => (names g).Nodup ∧ ∀ e ∈ l, e.Tidy) (l := [])
    (fun {l s o s'} hl hm => ?_) ⟨hn, nofun⟩
  · exact hinv.2
  · refine ⟨hm.names_eq ▸ hl.1, fun e he => ?_⟩
    rcases List.mem_append.mp he with he | he
    · exact hl.2 e he
    · cases hm with
      | touch hseq hface hs => exact absurd he List.not_mem_nil
      | publish hb hname hrev ht hs =>
        rw [List.mem_singleton.mp he]
        trivial
      | beat hbeat now age =>
        rw [List.mem_singleton.mp he]
        show ((s.blocks.map fun b => (b.spec.name, b.observedAt)).map Prod.fst).Nodup
        rw [List.map_map]
        exact hl.1

/-- **The client follows the hub.**  Wherever its connection is cut off and however far it has
    fallen behind, it has no snapshot yet, or shows revision, stale flag and data of every
    block as the hub had them after one of the events that were sent; and it has every event
    of which all bytes have arrived. -/
theorem client_follows (hryu : ryu.Lawful) (specs : List BlockSpec)
    (hn : (specs.map BlockSpec.name).Nodup) (ops₁ ops₂ : List Op)
    (hviews : ∀ v ∈ views (run (new specs) ops₁).1, v.data.Finite)
    (hevents : ∀ e ∈ (run (run (new specs) ops₁).1 ops₂).2, e.Finite)
    (received : List (Except Nat Event))
    (hreceived : Received (run (run (new specs) ops₁).1 ops₂).2 received) (bs : List UInt8)
    (hbs : bs <+: body ryu epoch (snapshot (run (new specs) ops₁).1).1
      (snapshot (run (new specs) ops₁).1).2 (stream received)) :
    let before := (run (new specs) ops₁).1
    let sent := body ryu epoch (snapshot before).1 (snapshot before).2
    (client ryu bs = none ∧ ¬sent [] <+: bs) ∨
      ∃ n ≤ (stream received).length, ∃ c g, client ryu bs = some c ∧ c.epoch = epoch ∧
        Emits (Micro (fun _ _ => True) True) before ((stream received).take n) g ∧
        c.seq = g.seq ∧ (c.views.map BlockView.state).Perm ((views g).map BlockView.state) ∧
        ∀ k ≤ (stream received).length, sent ((stream received).take k) <+: bs → k ≤ n := by
  intro before sent
  have hs := new_sound specs
  have hs₁ : Sound before := run_sound hs ops₁
  have hn₁ : (names before).Nodup := ((Synced.start (names_new specs ▸ hn)).run hs ops₁).names
  have hemits : Emits (Micro (fun _ _ => True) True) before (run before ops₂).2
      (run before ops₂).1 := run_emits hs₁ ops₂
  have htidy := tidy_of_emits hemits hn₁
  have hpre := stream_prefix hreceived
  have hnames : ((snapshot before).2.map BlockView.name).Nodup := by
    have heq : (views before).map BlockView.name = names before := client_names rfl
    exact heq ▸ hn₁
  rcases client_cut hryu hviews hnames
    (fun e he => ⟨hevents e (hpre.subset he), htidy e (hpre.subset he)⟩) hbs with
    hnone | ⟨n, hle, vs, hperm, hclient, hwhole⟩
  · exact Or.inl hnone
  · obtain ⟨g, hg⟩ := hemits.take n
    have htake : (run before ops₂).2.take n = (stream received).take n := by
      rw [List.prefix_iff_eq_take.mp hpre, List.take_take, Nat.min_eq_left hle]
    rw [htake] at hg
    have hsynced := (Synced.start hn₁).emits hg
    rw [List.nil_append] at hsynced
    refine Or.inr ⟨n, hle, _, g, hclient, rfl, hg, ?_, ?_, hwhole⟩
    · exact (foldl_seq hsynced.numbered).trans hsynced.seq.symm
    · rw [← hsynced.agree]
      exact (foldl_receive_perm hperm _).map _

end

theorem received_all : ∀ es : List Event, Received es (es.map .ok)
  | [] => .nil []
  | e :: es => .next e (received_all es)

theorem stream_all : ∀ es : List Event, stream (es.map .ok) = es
  | [] => rfl
  | e :: es => congrArg (e :: ·) (stream_all es)

/-- One block, read once. -/
def batteryHub : Inner := (run (new (sampleSpecs.take 1)) [.recordRead 0 (.ok (.obj [])) 1 100]).1

/-- What it sends when its read has expired. -/
def batterySent : List Event := (run batteryHub [.roundEnd (secs 20) (secs 1)]).2

theorem batterySent_eq : batterySent =
    [.block ⟨⟨"battery", 2, 100, true, .obj []⟩, 2⟩, .heartbeat ⟨3, [("battery", 100)], 0⟩] := by
  decide +kernel

theorem client_follows_battery : ∃ c n, 2 ≤ n ∧
    client Signal.bitsText (body Signal.bitsText "0f" 1 (views batteryHub) batterySent) = some c ∧
      c.epoch = "0f" ∧ n ≤ batterySent.length := by
  have hbefore : (run (new (sampleSpecs.take 1)) [.recordRead 0 (.ok (.obj [])) 1 100]).1 =
      batteryHub := rfl
  have hsent : (run batteryHub [.roundEnd (secs 20) (secs 1)]).2 = batterySent := rfl
  have hviews : views batteryHub = [⟨"battery", 1, 100, false, .obj []⟩] := by decide +kernel
  have hfinite : ∀ v ∈ views batteryHub, v.data.Finite := by
    intro v hv
    rw [hviews, List.mem_singleton] at hv
    rw [hv]
    trivial
  have hevents : ∀ e ∈ batterySent, e.Finite := by
    intro e he
    rw [batterySent_eq] at he
    rcases List.mem_cons.mp he with rfl | he
    · trivial
    · rw [List.mem_singleton.mp he]
      trivial
  have hsnapshot : snapshot batteryHub = (1, views batteryHub) := by decide +kernel
  have hall : batterySent.take 2 = batterySent := by
    rw [batterySent_eq]
    rfl
  have h := @client_follows _ "0f" Signal.bitsText_lawful (sampleSpecs.take 1)
    (by decide) [.recordRead 0 (.ok (.obj [])) 1 100] [.roundEnd (secs 20) (secs 1)]
  rw [hbefore, hsent, hsnapshot] at h
  specialize h hfinite hevents (batterySent.map .ok) (received_all batterySent) _ List.prefix_rfl
  rw [stream_all] at h
  rcases h with ⟨-, hno⟩ | ⟨n, hle, c, g, hc, hepoch, -, -, -, hwhole⟩
  · refine absurd ?_ hno
    rw [body, List.flatMap_nil, List.append_nil]
    exact List.prefix_append _ _
  · have htwo : 2 ≤ batterySent.length := by
      rw [batterySent_eq]
      decide
    refine ⟨c, n, hwhole 2 htwo ?_, hc, hepoch, hle⟩
    rw [hall, hsnapshot]

end Hub

end Datad
