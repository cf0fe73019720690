/-
  Datad/Server/Cellular.lean
  ==========================
  **`cellular.set`** (`cellular_set` of `control.rs`): what is classified as switching
  data off, and what then reaches the device.

  `is_safety` reads the switches with `boolean`, `cellular_set` with `integer`.  Both
  take the number 0; only the first takes `false`.  A request to switch off that is
  written with a boolean is let past everything and then refused.
-/
import Datad.Server.Control
import Datad.Ubus.Blob
import Datad.Ubus.Call

namespace Datad

open Ubus

/-! ### Parameters (`control.rs`) -/

namespace Value

/-- `as_i64` of a number. -/
def asI64 : Num → Option Int
  | .int i => if -2 ^ 63 ≤ i ∧ i < 2 ^ 63 then some i else none
  | .float _ => none

def integer (params : Value) (name : String) (required : Bool) : Except String (Option Int) :=
  match params.get name with
  | some (.num n) =>
      match asI64 n with
      | some i => .ok (some i)
      | none => .error (name ++ " must be an integer")
  | some _ => .error (name ++ " must be an integer")
  | none => if required then .error ("missing parameter: " ++ name) else .ok none

/-- `string`; `Value.string` is the case of a required parameter. -/
def text (params : Value) (name : String) (required : Bool) : Except String (Option String) :=
  match params.get name with
  | some (.str v) =>
      if v.utf8ByteSize ≤ 8192 then .ok (some v) else .error (name ++ " must be a string")
  | some _ => .error (name ++ " must be a string")
  | none => if required then .error ("missing parameter: " ++ name) else .ok none

theorem string_eq_text (params : Value) (name : String) :
    params.string name = (params.text name true).map (·.getD "") := by
  unfold string text
  rcases params.get name with _ | v
  · rfl
  · cases v with
    | str s =>
        dsimp only
        split_ifs
        · rfl
        · rfl
    | null => rfl
    | bool b => rfl
    | num n => rfl
    | arr items => rfl
    | obj members => rfl

end Value

/-- A parameter of `mapped`: its name in the request and in the call. -/
structure Field where
  input : String
  output : String
  required : Bool
  isInt : Bool

/-- The argument that a field gives, if it is supplied. -/
def Field.read (f : Field) (params : Value) : Except String (Option Value) :=
  if f.isInt then (params.integer f.input f.required).map (·.map fun i => .num (.int i))
  else (params.text f.input f.required).map (·.map .str)

def mapped (params : Value) :
    List Field → List (String × Value) → Except String (List (String × Value))
  | [], args => .ok args
  | f :: fs, args =>
      match f.read params with
      | .error e => .error e
      | .ok none => mapped params fs args
      | .ok (some v) => mapped params fs (insertMember f.output v args)

/-! ### The action -/

inductive Outcome where
  | notHandled
  | invalid (message : String)
  | failed (message : String)
  | ok (v : Value)
deriving DecidableEq, Repr

/-- A write that is answered with nothing has succeeded. -/
def writeReply : CallAnswer → CallAnswer
  | .error (.client (.noData ..)) => .ok (.obj [])
  | reply => reply

def writeOutcome (reply : CallAnswer) : Outcome :=
  match writeReply reply with
  | .ok v => .ok v
  | .error e => .failed e.text

def getWwaniface : Invocation :=
  { service := "zwrt_data"
    method := "get_wwaniface"
    args :=
      .obj [("cid", .num (.int 1)), ("connect_status", .str ""), ("source_module", .str "web")] }

def setWwaniface (args : Value) : Invocation :=
  { service := "zwrt_data", method := "set_wwaniface", args }

def removeMember (k : String) (map : List (String × Value)) : List (String × Value) :=
  map.filter fun m => decide (m.1 ≠ k)

def extendMembers (map : List (String × Value)) : List (String × Value) → List (String × Value)
  | [] => map
  | (k, v) :: more => extendMembers (insertMember k v map) more

/-- The `enable` that was read is not written back. -/
def cellularArgs (current overrides : List (String × Value)) : Value :=
  .obj
    (insertMember "cid" (.num (.int 1))
      (insertMember "source_module" (.str "WEBUI")
        (extendMembers (removeMember "enable" current) overrides)))

def CELLULAR_FIELDS : List Field :=
  [⟨"enabled", "enable", false, true⟩, ⟨"roaming", "roam_enable", false, true⟩,
    ⟨"connect_mode", "connect_mode", false, false⟩]

/-- The answer to the request, and the calls made for it in their order. -/
def cellularSet (device : Invocation → CallAnswer) (params : Value) : Outcome × List Invocation :=
  match mapped params CELLULAR_FIELDS [] with
  | .error e => (.invalid e, [])
  | .ok [] => (.invalid "no cellular fields supplied", [])
  | .ok overrides =>
      match device getWwaniface with
      | .error e => (.failed e.text, [getWwaniface])
      | .ok (.obj current) =>
          let write := setWwaniface (cellularArgs current overrides)
          (writeOutcome (device write), [getWwaniface, write])
      | .ok _ => (.failed "invalid get_wwaniface response", [getWwaniface])

/-! ### Members of an object -/

theorem get_obj_cons {k name : String} {v : Value} {map : List (String × Value)} :
    (Value.obj ((k, v) :: map)).get name =
      if k = name then some v else (Value.obj map).get name := by
  by_cases h : k = name
  · simp [Value.get, h]
  · simp [Value.get, h]

theorem get_insertMember_self (k : String) (v : Value) (map : List (String × Value)) :
    (Value.obj (insertMember k v map)).get k = some v := by
  induction map with
  | nil => simp [insertMember, Value.get]
  | cons m map ih =>
    obtain ⟨l, w⟩ := m
    rw [insertMember]
    split_ifs with hlt heq
    · rw [get_obj_cons, if_pos rfl]
    · rw [get_obj_cons, if_pos rfl]
    · rw [get_obj_cons, if_neg (Ne.symm heq), ih]

theorem get_insertMember_of_ne {k name : String} (h : k ≠ name) (v : Value)
    (map : List (String × Value)) :
    (Value.obj (insertMember k v map)).get name = (Value.obj map).get name := by
  induction map with
  | nil => rw [insertMember, get_obj_cons, if_neg h]
  | cons m map ih =>
    obtain ⟨l, w⟩ := m
    rw [insertMember]
    split_ifs with hlt heq
    · rw [get_obj_cons, if_neg h]
    · rw [get_obj_cons, get_obj_cons, if_neg h, ← heq, if_neg h]
    · rw [get_obj_cons, get_obj_cons, ih]

/-! ### Switching off -/

/-- The values that `is_safety` takes for a switch that is off. -/
def Off (v : Value) : Prop := v = .bool false ∨ v = .num (.int 0)

theorem off_of_boolean {params : Value} {name : String} {v : Value}
    (hv : params.get name = some v) (h : params.boolean name = .ok false) : Off v := by
  rw [Value.boolean, hv] at h
  split at h
  · rename_i b heq
    cases heq
    cases h
    exact .inl rfl
  · rename_i heq
    cases heq
    exact .inr rfl
  · cases h
  · cases h

/-- What `is_safety` has seen of the parameters. -/
structure Safe (params : Value) : Prop where
  supplied : (params.get "enabled").isSome ∨ (params.get "roaming").isSome
  only : ∀ name v, params.get name = some v → name = "enabled" ∨ name = "roaming"
  off : ∀ name v, params.get name = some v → Off v

theorem mem_of_get {members : List (String × Value)} {name : String} {v : Value}
    (h : (Value.obj members).get name = some v) : (name, v) ∈ members := by
  rw [Value.get, Option.map_eq_some_iff] at h
  obtain ⟨m, hm, rfl⟩ := h
  obtain rfl : m.1 = name := by simpa using List.find?_some hm
  exact List.mem_of_find?_eq_some hm

theorem get_isSome_of_mem {members : List (String × Value)} {m : String × Value}
    (h : m ∈ members) : ((Value.obj members).get m.1).isSome := by
  rw [Value.get, Option.isSome_map, List.find?_isSome]
  exact ⟨m, h, decide_eq_true rfl⟩

theorem safe_of_isSafety {action : String} {params : Value}
    (h : isSafety action params = true) : Safe params := by
  cases params with
  | obj members =>
    simp only [isSafety, Bool.and_eq_true, List.all_eq_true, Bool.or_eq_true, decide_eq_true_eq,
      Bool.not_eq_true', List.isEmpty_eq_false_iff] at h
    obtain ⟨-, ⟨hne, honly⟩, hoff⟩ := h
    obtain ⟨m, hm⟩ := List.exists_mem_of_ne_nil members hne
    have hfalse : ∀ m ∈ members, (Value.obj members).boolean m.1 = .ok false := by
      intro m hm
      have := hoff m hm
      split at this
      · rename_i b hb
        rw [hb, (Bool.not_eq_true' b).mp this]
      · cases this
    constructor
    · rcases honly m hm with hk | hk
      · exact .inl (hk ▸ get_isSome_of_mem hm)
      · exact .inr (hk ▸ get_isSome_of_mem hm)
    · intro name v hv
      exact honly (name, v) (mem_of_get hv)
    · intro name v hv
      exact off_of_boolean hv (hfalse (name, v) (mem_of_get hv))
  | null => simp [isSafety] at h
  | bool b => simp [isSafety] at h
  | num n => simp [isSafety] at h
  | str s => simp [isSafety] at h
  | arr items => simp [isSafety] at h

/-! ### Reading the switches again -/

section

variable {params : Value} {input : String} (output : String)

theorem switch_read_none (h : params.get input = none) :
    (⟨input, output, false, true⟩ : Field).read params = .ok none := by
  simp [Field.read, Value.integer, h, Except.map]

theorem switch_read_zero (h : params.get input = some (.num (.int 0))) :
    (⟨input, output, false, true⟩ : Field).read params = .ok (some (.num (.int 0))) := by
  simp [Field.read, Value.integer, h, Value.asI64, Except.map]

theorem switch_read_bool {b : Bool} (h : params.get input = some (.bool b)) :
    (⟨input, output, false, true⟩ : Field).read params =
      .error (input ++ " must be an integer") := by
  simp [Field.read, Value.integer, h, Except.map]

end

theorem connectMode_read {params : Value} (h : Safe params) :
    (⟨"connect_mode", "connect_mode", false, false⟩ : Field).read params = .ok none := by
  have hnone : params.get "connect_mode" = none := by
    rw [← Option.not_isSome_iff_eq_none, Option.isSome_iff_exists]
    rintro ⟨v, hv⟩
    rcases h.only "connect_mode" v hv with hk | hk
    · exact absurd hk (by decide)
    · exact absurd hk (by decide)
  simp [Field.read, Value.text, hnone, Except.map]

/-- One field that cannot be read spoils the request. -/
theorem mapped_error {params : Value} {f : Field} {e : String} {fs : List Field}
    (hf : f ∈ fs) (he : f.read params = .error e) (args : List (String × Value)) :
    ∃ e', mapped params fs args = .error e' := by
  induction fs generalizing args with
  | nil => exact absurd hf List.not_mem_nil
  | cons g fs ih =>
    rw [mapped]
    rcases List.mem_cons.mp hf with rfl | hf
    · rw [he]
      exact ⟨e, rfl⟩
    · split
      · exact ⟨_, rfl⟩
      · exact ih hf args
      · exact ih hf _

/-- The switches of the action. -/
def SWITCHES : List (String × String) := [("enabled", "enable"), ("roaming", "roam_enable")]

/-- The switches that the request supplies, all off. -/
def offs (params : Value) : List (String × Value) :=
  SWITCHES.filterMap fun w => (params.get w.1).map fun _ => (w.2, .num (.int 0))

theorem zero_of_safe {params : Value} (h : Safe params)
    (hb : ∀ name b, params.get name ≠ some (.bool b)) (name : String) :
    params.get name = none ∨ params.get name = some (.num (.int 0)) := by
  rcases hv : params.get name with _ | v
  · exact .inl rfl
  · rcases h.off name v hv with rfl | rfl
    · exact absurd hv (hb name false)
    · exact .inr rfl

/-- Without booleans, the fields are read as `is_safety` has read them. -/
theorem mapped_offs {params : Value} (h : Safe params)
    (hb : ∀ name b, params.get name ≠ some (.bool b)) :
    mapped params CELLULAR_FIELDS [] = .ok (offs params) := by
  have hc := connectMode_read h
  have hord : ¬ ("roam_enable" < "enable") := by decide
  rcases zero_of_safe h hb "enabled" with he | he
  · rcases zero_of_safe h hb "roaming" with hr | hr
    · simp [mapped, CELLULAR_FIELDS, offs, SWITCHES, he, hr, switch_read_none _ he,
        switch_read_none _ hr, hc]
    · simp [mapped, CELLULAR_FIELDS, offs, SWITCHES, insertMember, he, hr,
        switch_read_none _ he, switch_read_zero _ hr, hc]
  · rcases zero_of_safe h hb "roaming" with hr | hr
    · simp [mapped, CELLULAR_FIELDS, offs, SWITCHES, insertMember, he, hr,
        switch_read_zero _ he, switch_read_none _ hr, hc]
    · simp [mapped, CELLULAR_FIELDS, offs, SWITCHES, insertMember, he, hr,
        switch_read_zero _ he, switch_read_zero _ hr, hc, hord]

/-! ### What reaches the device -/

/-- The request is not refused and, once the device is read, every switch it supplies is
    written off. -/
structure SwitchesOff (device : Invocation → CallAnswer) (params : Value) : Prop where
  accepted : ∀ e, (cellularSet device params).1 ≠ .invalid e
  written : ∀ current, device getWwaniface = .ok (.obj current) →
    ∃ args, (cellularSet device params).2 = [getWwaniface, setWwaniface args] ∧
      ∀ w ∈ SWITCHES, (params.get w.1).isSome → args.get w.2 = some (.num (.int 0))

theorem get_extendMembers_of_not_mem {k : String} {more : List (String × Value)}
    (hm : ∀ m ∈ more, m.1 ≠ k) (map : List (String × Value)) :
    (Value.obj (extendMembers map more)).get k = (Value.obj map).get k := by
  induction more generalizing map with
  | nil => rfl
  | cons m more ih =>
    rw [extendMembers, ih fun m' h' => hm m' (List.mem_cons_of_mem _ h')]
    exact get_insertMember_of_ne (hm m List.mem_cons_self) _ _

/-- The last of equal settings stands, whatever was there. -/
theorem get_extendMembers_of_mem {k : String} {v : Value} {more : List (String × Value)}
    (hm : (k, v) ∈ more) (hall : ∀ m ∈ more, m.2 = v) (map : List (String × Value)) :
    (Value.obj (extendMembers map more)).get k = some v := by
  induction more generalizing map with
  | nil => exact absurd hm List.not_mem_nil
  | cons m more ih =>
    have hall' : ∀ m ∈ more, m.2 = v := fun m' h' => hall m' (List.mem_cons_of_mem _ h')
    by_cases hk : ∃ m' ∈ more, m'.1 = k
    · obtain ⟨m', hm', rfl⟩ := hk
      exact ih (hall' m' hm' ▸ hm') hall' _
    · rcases List.mem_cons.mp hm with rfl | hm
      · rw [extendMembers, get_extendMembers_of_not_mem fun m' h' he => hk ⟨m', h', he⟩]
        exact get_insertMember_self _ _ _
      · exact absurd ⟨(k, v), hm, rfl⟩ hk

theorem mem_offs {params : Value} {w : String × String} (hw : w ∈ SWITCHES)
    (hs : (params.get w.1).isSome) : (w.2, .num (.int 0)) ∈ offs params := by
  obtain ⟨v, hv⟩ := Option.isSome_iff_exists.mp hs
  rw [offs, List.mem_filterMap]
  exact ⟨w, hw, by rw [hv, Option.map_some]⟩

theorem offs_zero {params : Value} {m : String × Value} (hm : m ∈ offs params) :
    m.2 = .num (.int 0) := by
  rw [offs, List.mem_filterMap] at hm
  obtain ⟨w, -, hw⟩ := hm
  obtain ⟨-, -, rfl⟩ := Option.map_eq_some_iff.mp hw
  rfl

theorem offs_ne_nil {params : Value} (h : Safe params) : offs params ≠ [] := by
  rcases h.supplied with hs | hs
  · exact List.ne_nil_of_mem (mem_offs (w := ("enabled", "enable")) (by decide) hs)
  · exact List.ne_nil_of_mem (mem_offs (w := ("roaming", "roam_enable")) (by decide) hs)

theorem cellularArgs_offs {params : Value} (current : List (String × Value))
    {w : String × String} (hw : w ∈ SWITCHES) (hs : (params.get w.1).isSome) :
    (cellularArgs current (offs params)).get w.2 = some (.num (.int 0)) := by
  have hnames : ∀ w ∈ SWITCHES, "cid" ≠ w.2 ∧ "source_module" ≠ w.2 := by decide
  obtain ⟨hcid, hsource⟩ := hnames w hw
  rw [cellularArgs, get_insertMember_of_ne hcid, get_insertMember_of_ne hsource]
  exact get_extendMembers_of_mem (mem_offs hw hs) (fun m hm => offs_zero hm) _

/-- Once the fields are mapped, the settings are read and written back as a whole. -/
theorem cellularSet_mapped {params : Value} {overrides : List (String × Value)}
    (hm : mapped params CELLULAR_FIELDS [] = .ok overrides) (hne : overrides ≠ [])
    (device : Invocation → CallAnswer) :
    cellularSet device params =
      match device getWwaniface with
      | .error e => (.failed e.text, [getWwaniface])
      | .ok (.obj current) =>
          (writeOutcome (device (setWwaniface (cellularArgs current overrides))),
            [getWwaniface, setWwaniface (cellularArgs current overrides)])
      | .ok _ => (.failed "invalid get_wwaniface response", [getWwaniface]) := by
  unfold cellularSet
  rw [hm]
  split
  · rename_i h
    cases h
  · rename_i h
    cases h
    exact absurd rfl hne
  · rename_i h
    cases h
    rfl

theorem cellularSet_ne_invalid {params : Value} {overrides : List (String × Value)}
    (hm : mapped params CELLULAR_FIELDS [] = .ok overrides) (hne : overrides ≠ [])
    (device : Invocation → CallAnswer) (e : String) :
    (cellularSet device params).1 ≠ .invalid e := by
  have hwrite : ∀ reply, writeOutcome reply ≠ .invalid e := by
    intro reply h
    unfold writeOutcome at h
    split at h
    · cases h
    · cases h
  rw [cellularSet_mapped hm hne]
  split
  · exact nofun
  · exact hwrite _
  · exact nofun

theorem cellularSet_calls {params : Value} {overrides : List (String × Value)}
    (hm : mapped params CELLULAR_FIELDS [] = .ok overrides) (hne : overrides ≠ [])
    {device : Invocation → CallAnswer} {current : List (String × Value)}
    (hr : device getWwaniface = .ok (.obj current)) :
    (cellularSet device params).2 =
      [getWwaniface, setWwaniface (cellularArgs current overrides)] := by
  rw [cellularSet_mapped hm hne, hr]

/-- A request to switch off does so exactly if none of its values is a JSON boolean. -/
theorem isSafety_switchesOff_iff (params : Value) (device : Invocation → CallAnswer)
    (h : isSafety "cellular.set" params = true) :
    SwitchesOff device params ↔ ∀ name b, params.get name ≠ some (.bool b) := by
  have hsafe := safe_of_isSafety h
  constructor
  · intro hoff name b hb
    have hread : ∃ f ∈ CELLULAR_FIELDS, ∃ e, f.read params = .error e := by
      rcases hsafe.only name _ hb with rfl | rfl
      · exact ⟨⟨"enabled", "enable", false, true⟩, by simp [CELLULAR_FIELDS], _,
          switch_read_bool _ hb⟩
      · exact ⟨⟨"roaming", "roam_enable", false, true⟩, by simp [CELLULAR_FIELDS], _,
          switch_read_bool _ hb⟩
    obtain ⟨f, hf, e, he⟩ := hread
    obtain ⟨e', he'⟩ := mapped_error hf he []
    apply hoff.accepted e'
    simp [cellularSet, he']
  · intro hb
    have hm := mapped_offs hsafe hb
    constructor
    · exact cellularSet_ne_invalid hm (offs_ne_nil hsafe) device
    · intro current hr
      exact ⟨cellularArgs current (offs params), cellularSet_calls hm (offs_ne_nil hsafe) hr,
        fun w hw hs => cellularArgs_offs current hw hs⟩

theorem isSafety_switchesOff_zero :
    isSafety "cellular.set" (.obj [("enabled", .num (.int 0))]) = true ∧
      SwitchesOff (fun _ => .ok (.obj [("connect_mode", .num (.int 1)), ("enable", .num (.int 1))]))
        (.obj [("enabled", .num (.int 0))]) := by
  have hs : isSafety "cellular.set" (.obj [("enabled", .num (.int 0))]) = true := by decide
  refine ⟨hs, (isSafety_switchesOff_iff _ _ hs).mpr ?_⟩
  intro name b h
  rw [get_obj_cons] at h
  split_ifs at h
  · cases h
  · cases h

/-- `{"enabled": false}` is a request to switch off, and is refused. -/
theorem isSafety_refused :
    isSafety "cellular.set" (.obj [("enabled", .bool false)]) = true ∧
      ∀ device, cellularSet device (.obj [("enabled", .bool false)]) =
          (.invalid "enabled must be an integer", []) ∧
        ¬ SwitchesOff device (.obj [("enabled", .bool false)]) := by
  refine ⟨by decide, fun device => ?_⟩
  have hset : cellularSet device (.obj [("enabled", .bool false)]) =
      (.invalid "enabled must be an integer", []) := rfl
  refine ⟨hset, fun h => ?_⟩
  apply h.accepted "enabled must be an integer"
  rw [hset]

end Datad
