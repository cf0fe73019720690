/-
  Datad/Server/WifiApply.lean
  ===========================
  **`wifi.apply`** (`control.rs`, with `uci_write` of `state.rs`): several Wi-Fi options at
  once.

  The options are checked first, then staged one by one, then committed.  An option that
  cannot be staged ends the request and drops what was staged, or is skipped where the
  request asks for that.  A commit that fails ends the request too, but drops nothing: the
  values stay staged, and the next commit of the package applies them (`wifiApply_exact`).
-/
import Datad.Lib.Staging
import Datad.Ops.DataPath
import Datad.Ops.Ui
import Datad.Server.Cellular

namespace Datad

namespace Wifi

open Staging

variable (ryu : Ryu)

/-! ### `uci` -/

abbrev Uci := Store String String

/-- A path is of the package that stands before its first point. -/
def inPackage (package path : String) : Bool :=
  decide (path.toList.takeWhile (· ≠ '.') = package.toList)

/-- The calls of `uci` that are made here. -/
inductive Mutation where
  | set (path value : String)
  | commit (package : String)
  | revert (package : String)
deriving DecidableEq

def Mutation.path : Mutation → String
  | .set path _ => path
  | .commit package => package
  | .revert package => package

def Mutation.value : Mutation → Option String
  | .set _ value => some value
  | _ => none

def Mutation.run (s : Uci) : Mutation → Uci
  | .set path value => s.set path value
  | .commit package => s.commit (inPackage package)
  | .revert package => s.revert (inPackage package)

def pathChar (c : Char) : Bool := c.isAlphanum || ['.', '_', '-', '@', '[', ']'].contains c

/-- What `uci_write` refuses by itself. -/
def Mutation.wellFormed (m : Mutation) : Bool :=
  decide (m.path ≠ "") && decide (m.path.utf8ByteSize ≤ 256) && m.path.toList.all pathChar &&
    m.value.all fun v =>
      decide (v.utf8ByteSize ≤ 8192) && v.toList.all fun c => !(['\x00', '\r', '\n'].contains c)

/-- How the calls of `uci` end. -/
abbrev Outcomes := Mutation → Except String Unit

/-- `uci_write`: a call takes full effect, or fails without effect. -/
def uciWrite (uci : Outcomes) (m : Mutation) (s : Uci) : Except String Unit × Uci :=
  if !m.wellFormed then (.error "invalid UCI mutation", s)
  else
    match uci m with
    | .ok () => (.ok (), m.run s)
    | .error e => (.error e, s)

/-! ### The options -/

def AP_SECTIONS : List String := ["main_2g", "main_5g", "guest_2g", "guest_5g"]

def AP_OPTIONS : List String :=
  ["ssid", "key", "encryption", "hidden", "isolate", "disabled", "guest_active_time"]

def RADIO_OPTIONS : List String := ["country", "channel", "txpowerpercent", "htmode", "disabled"]

/-- Accepted and never written. -/
def DEAD_KEYS : List String := ["zte_mbb.wifi.wifi_onoff", "zte_mbb.wifi.wifi6_switch"]

/-- Before the first point, and behind it. -/
def cut (s : List Char) : List Char × Option (List Char) :=
  (s.takeWhile (· ≠ '.'), ((s.dropWhile (· ≠ '.')).head?.map fun _ =>
    (s.dropWhile (· ≠ '.')).tail))

def wifiApplyKeyOk (path : String) (radios : String × String) : Bool :=
  if DEAD_KEYS.contains path then true
  else
    match cut path.toList with
    | (package, some rest) =>
        match cut rest with
        | (sec, some opt) =>
            let sec := String.ofList sec
            let opt := String.ofList opt
            decide (package = "wireless".toList) &&
              ((AP_SECTIONS.contains sec && AP_OPTIONS.contains opt) ||
                ((["wifi0", "wifi1", radios.1, radios.2].contains sec) &&
                  RADIO_OPTIONS.contains opt))
        | _ => false
    | _ => false

/-- The text that is written for a value. -/
def valueText : Value → Option String
  | .str s => some s
  | .num n => some (String.ofList (Value.numText ryu n))
  | .bool b => some (if b then "1" else "0")
  | _ => none

/-- The checks of one option. -/
def checked (radios : String × String) (path : String) (v : Value) : Except String String :=
  if !wifiApplyKeyOk path radios then
    .error ("not a Wi-Fi option this action sets: " ++ path)
  else
    match valueText ryu v with
    | none => .error (path ++ ": value must be a string, number or boolean")
    | some value =>
        if 128 < value.utf8ByteSize ∨ value.toList.any (['\x00', '\r', '\n'].contains ·) then
          .error (path ++ ": invalid value")
        else .ok value

/-- The options to write, and the ones that are skipped from the start. -/
def gather (radios : String × String) :
    List (String × Value) → Except String (List (String × String) × List String)
  | [] => .ok ([], [])
  | (path, v) :: more =>
      match checked ryu radios path v with
      | .error e => .error e
      | .ok value =>
          (gather radios more).map fun r =>
            if DEAD_KEYS.contains path then (r.1, path :: r.2) else ((path, value) :: r.1, r.2)

/-! ### The request -/

/-- The request as it passed the checks. -/
structure Plan where
  updates : List (String × String)
  dead : List String
  reload : Bool
  bestEffort : Bool

def options (params : Value) : List (String × Value) :=
  match params.get "set" with
  | some (.obj set) => set
  | _ => []

def reloadOf (params : Value) : Except String Bool :=
  match params.get "reload" with
  | none => .ok true
  | some (.bool b) => .ok b
  | some _ => .error "reload must be boolean"

def plan (radios : String × String) (params : Value) : Except String Plan :=
  match params.get "set" with
  | some (.obj set) =>
      if set = [] ∨ 32 < set.length then .error "set must have 1-32 options"
      else
        match reloadOf params with
        | .error e => .error e
        | .ok reload =>
            (gather ryu radios set).map fun r =>
              { updates := r.1
                dead := r.2
                reload
                bestEffort := ((params.get "best_effort").bind Value.asBool).getD false }
  | _ => .error "missing parameter: set"

/-- Stage one option after the other: the options that were skipped, and whether any was
    staged. -/
def stage (uci : Outcomes) (bestEffort : Bool) :
    List (String × String) → Uci → Except String (List String × Bool) × Uci
  | [], s => (.ok ([], false), s)
  | (path, value) :: more, s =>
      match uciWrite uci (.set path value) s with
      | (.ok (), s) =>
          let (r, s) := stage uci bestEffort more s
          (r.map fun r => (r.1, true), s)
      | (.error e, s) =>
          if bestEffort then
            let (r, s) := stage uci bestEffort more s
            (r.map fun r => (path :: r.1, r.2), s)
          else (.error (path ++ ": " ++ e), (uciWrite uci (.revert "wireless") s).2)

def reply (packages skipped : List String) (reload : Bool) (reloadError : Option String) : Value :=
  .ofMembers
    [("committed", .arr (packages.map .str)), ("skipped", .arr (skipped.map .str)),
      ("reloaded", .bool (reload && decide (packages ≠ []) && reloadError.isNone)),
      ("reload_error", .ofOption reloadError)]

/-- What the request is answered, and what it leaves. -/
def wifiApply (uci : Outcomes) (radios : String × String) (reloaded : Except String Value)
    (params : Value) (s : Uci) : Outcome × Uci :=
  match plan ryu radios params with
  | .error e => (.invalid e, s)
  | .ok p =>
      match stage uci p.bestEffort p.updates s with
      | (.error e, s) => (.failed e, s)
      | (.ok (failed, false), s) => (.ok (reply [] (p.dead ++ failed) p.reload none), s)
      | (.ok (failed, true), s) =>
          match uciWrite uci (.commit "wireless") s with
          | (.error e, s) => (.failed ("commit wireless: " ++ e), s)
          | (.ok (), s) =>
              let reloadError :=
                match p.reload, reloaded with
                | true, .error e => some e
                | _, _ => none
              (.ok (reply ["wireless"] (p.dead ++ failed) p.reload reloadError), s)

/-! ### The options are options of the package -/

def Mutation.succeeds (uci : Outcomes) (m : Mutation) : Bool :=
  m.wellFormed && match uci m with
    | .ok () => true
    | .error _ => false

theorem uciWrite_of_succeeds {uci : Outcomes} {m : Mutation} (h : m.succeeds uci = true)
    (s : Uci) : uciWrite uci m s = (.ok (), m.run s) := by
  obtain ⟨hw, hok⟩ := (Bool.and_eq_true _ _).mp h
  rw [uciWrite, if_neg (by simp [hw])]
  cases huci : uci m with
  | ok u => rfl
  | error e => simp [huci] at hok

theorem uciWrite_of_fails {uci : Outcomes} {m : Mutation} (h : m.succeeds uci = false)
    (s : Uci) : ∃ e, uciWrite uci m s = (.error e, s) := by
  rw [uciWrite]
  split_ifs with hw
  · exact ⟨_, rfl⟩
  · cases huci : uci m with
    | error e => exact ⟨e, rfl⟩
    | ok u =>
        rw [Bool.not_eq_true, Bool.not_eq_false'] at hw
        simp [Mutation.succeeds, hw, huci] at h

theorem inPackage_of_keyOk {path : String} {radios : String × String}
    (h : wifiApplyKeyOk path radios = true) (hdead : DEAD_KEYS.contains path = false) :
    inPackage "wireless" path = true := by
  rw [wifiApplyKeyOk, hdead, if_neg Bool.false_ne_true] at h
  split at h
  · rename_i package rest hcut
    split at h
    · rw [Bool.and_eq_true, decide_eq_true_iff] at h
      rw [inPackage, decide_eq_true_iff, ← h.1]
      exact congrArg Prod.fst hcut
    · cases h
  · cases h

/-! ### What the checks let through -/

/-- `us` are the options to write, and `dead` the others. -/
structure Gathered (set : List (String × Value)) (us : List (String × String))
    (dead : List String) : Prop where
  keys : (us.map Prod.fst).Sublist (set.map Prod.fst)
  package : ∀ u ∈ us, inPackage "wireless" u.1 = true ∧ DEAD_KEYS.contains u.1 = false
  dead_keys : ∀ path ∈ dead, DEAD_KEYS.contains path = true
  asked : ∀ u ∈ us, ∃ v, (u.1, v) ∈ set ∧ valueText ryu v = some u.2
  all : ∀ path v, (path, v) ∈ set → path ∈ dead ∨
    ∃ value, valueText ryu v = some value ∧ (path, value) ∈ us

theorem checked_ok {radios : String × String} {path : String} {v : Value} {value : String}
    (h : checked ryu radios path v = .ok value) :
    wifiApplyKeyOk path radios = true ∧ valueText ryu v = some value := by
  unfold checked at h
  split_ifs at h with hkey
  rw [Bool.not_eq_true, Bool.not_eq_false'] at hkey
  split at h
  · cases h
  · rename_i text htext
    split_ifs at h
    cases h
    exact ⟨hkey, htext⟩

theorem Gathered.skip {set : List (String × Value)} {us : List (String × String)}
    {dead : List String} (h : Gathered ryu set us dead) {path : String} (v : Value)
    (hdead : DEAD_KEYS.contains path = true) :
    Gathered ryu ((path, v) :: set) us (path :: dead) := by
  refine ⟨h.keys.cons _, h.package, ?_, ?_, ?_⟩
  · intro q hq
    rcases List.mem_cons.mp hq with rfl | hq
    · exact hdead
    · exact h.dead_keys q hq
  · intro u hu
    obtain ⟨w, hw, ht⟩ := h.asked u hu
    exact ⟨w, List.mem_cons_of_mem _ hw, ht⟩
  · intro q w hq
    rcases List.mem_cons.mp hq with heq | hq
    · cases heq
      exact .inl List.mem_cons_self
    · exact (h.all q w hq).imp_left (List.mem_cons_of_mem _)

theorem Gathered.write {set : List (String × Value)} {us : List (String × String)}
    {dead : List String} (h : Gathered ryu set us dead) {path value : String} {v : Value}
    (hpackage : inPackage "wireless" path = true) (hdead : DEAD_KEYS.contains path = false)
    (htext : valueText ryu v = some value) :
    Gathered ryu ((path, v) :: set) ((path, value) :: us) dead := by
  refine ⟨h.keys.cons_cons _, ?_, h.dead_keys, ?_, ?_⟩
  · intro u hu
    rcases List.mem_cons.mp hu with rfl | hu
    · exact ⟨hpackage, hdead⟩
    · exact h.package u hu
  · intro u hu
    rcases List.mem_cons.mp hu with rfl | hu
    · exact ⟨v, List.mem_cons_self, htext⟩
    · obtain ⟨w, hw, ht⟩ := h.asked u hu
      exact ⟨w, List.mem_cons_of_mem _ hw, ht⟩
  · intro q w hq
    rcases List.mem_cons.mp hq with heq | hq
    · cases heq
      exact .inr ⟨value, htext, List.mem_cons_self⟩
    · rcases h.all q w hq with hq | ⟨text, hw, hq⟩
      · exact .inl hq
      · exact .inr ⟨text, hw, List.mem_cons_of_mem _ hq⟩

theorem gather_ok {radios : String × String} : ∀ {set : List (String × Value)}
    {r : List (String × String) × List String}, gather ryu radios set = .ok r →
      Gathered ryu set r.1 r.2
  | [], _, h => by
      cases h
      exact ⟨.refl _, nofun, nofun, nofun, nofun⟩
  | (path, v) :: more, r, h => by
      rw [gather] at h
      split at h
      · cases h
      · rename_i value hchecked
        obtain ⟨hkey, htext⟩ := checked_ok ryu hchecked
        cases hmore : gather ryu radios more with
        | error e =>
            rw [hmore] at h
            cases h
        | ok r' =>
            have ih := gather_ok hmore
            rw [hmore, Except.map, Except.ok.injEq] at h
            by_cases hdead : DEAD_KEYS.contains path = true
            · rw [if_pos hdead] at h
              subst h
              exact ih.skip ryu v hdead
            · rw [if_neg hdead] at h
              subst h
              rw [Bool.not_eq_true] at hdead
              exact ih.write ryu (inPackage_of_keyOk hkey hdead) hdead htext

theorem plan_ok {radios : String × String} {params : Value} {p : Plan}
    (h : plan ryu radios params = .ok p) : Gathered ryu (options params) p.updates p.dead := by
  unfold plan at h
  unfold options
  split at h
  · rename_i set hset
    split_ifs at h
    split at h
    · cases h
    · cases hg : gather ryu radios set with
      | error e =>
          rw [hg] at h
          cases h
      | ok r =>
          rw [hg] at h
          cases h
          exact gather_ok ryu hg
  · cases h

/-! ### Staging -/

/-- The options that can be staged. -/
def takes (uci : Outcomes) (u : String × String) : Bool := Mutation.succeeds uci (.set u.1 u.2)

/-- Where every option can be staged or be skipped, the others are what is skipped. -/
theorem stage_ok {uci : Outcomes} {best : Bool} : ∀ {us : List (String × String)}
    (s : Uci), (best = true ∨ ∀ u ∈ us, takes uci u = true) →
      stage uci best us s =
        (.ok ((us.filter fun u => !takes uci u).map Prod.fst, us.any (takes uci)),
          s.setAll (us.filter (takes uci)))
  | [], s, _ => rfl
  | (path, value) :: more, s, h => by
      have hmore : best = true ∨ ∀ u ∈ more, takes uci u = true :=
        h.imp_right fun h u hu => h u (List.mem_cons_of_mem _ hu)
      rw [stage]
      by_cases ht : takes uci (path, value) = true
      · rw [uciWrite_of_succeeds ht]
        dsimp only
        rw [stage_ok _ hmore]
        simp [ht, Except.map, Store.setAll_cons, Mutation.run]
      · have hb : best = true := h.resolve_right fun h => ht (h _ List.mem_cons_self)
        rw [Bool.not_eq_true] at ht
        obtain ⟨e, he⟩ := uciWrite_of_fails ht s
        rw [he]
        dsimp only
        rw [if_pos hb, stage_ok _ hmore]
        simp [ht, Except.map]

/-- Otherwise everything that was staged of the package is dropped. -/
theorem stage_error {uci : Outcomes} (hrevert : Mutation.succeeds uci (.revert "wireless") = true) :
    ∀ {us : List (String × String)} (s : Uci), (¬ ∀ u ∈ us, takes uci u = true) →
      ∃ (e : String) (s' : Uci),
        stage uci false us s = (.error e, s'.revert (inPackage "wireless")) ∧
        s'.committed = s.committed ∧ ∀ k, k ∉ us.map Prod.fst → s'.staged k = s.staged k
  | [], _, h => absurd nofun h
  | (path, value) :: more, s, h => by
      rw [stage]
      by_cases ht : takes uci (path, value) = true
      · have hmore : ¬ ∀ u ∈ more, takes uci u = true := by
          intro hall
          refine h fun u hu => ?_
          rcases List.mem_cons.mp hu with rfl | hu
          · exact ht
          · exact hall u hu
        obtain ⟨e, s', he, hcom, hst⟩ := stage_error hrevert (s.set path value) hmore
        rw [uciWrite_of_succeeds ht]
        dsimp only [Mutation.run]
        rw [he]
        refine ⟨e, s', rfl, hcom, ?_⟩
        intro k hk
        rw [List.map_cons, List.mem_cons, not_or] at hk
        rw [hst k hk.2]
        exact Function.update_of_ne hk.1 _ _
      · rw [Bool.not_eq_true] at ht
        obtain ⟨e, he⟩ := uciWrite_of_fails ht s
        rw [he]
        dsimp only
        rw [if_neg (by simp), uciWrite_of_succeeds hrevert]
        exact ⟨_, s, rfl, rfl, fun _ _ => rfl⟩

/-! ### All or nothing -/

/-- The options of a request, as they are to be written. -/
def Requested (params : Value) (path value : String) : Prop :=
  ∃ v, (path, v) ∈ options params ∧ valueText ryu v = some value

def skippedOf (v : Value) : List String :=
  (((v.get "skipped").bind Value.asArray).getD []).filterMap Value.asStr

/-- A request that is done has committed its options but for those it lists as skipped; of
    the others only what was staged before.  A request that is not done has committed
    nothing, and staged nothing. -/
def Atomic (params : Value) (s : Uci) (r : Outcome × Uci) : Prop :=
  match r.1 with
  | .ok v =>
      (∀ path value, Requested ryu params path value → path ∉ skippedOf v →
        r.2.committed path = some value) ∧
      ∀ path, (path ∈ skippedOf v ∨ path ∉ (options params).map Prod.fst) →
        r.2.committed path = s.committed path ∨
          s.staged path ≠ none ∧ r.2.committed path = s.staged path
  | _ =>
      r.2.committed = s.committed ∧
        ∀ path value, Requested ryu params path value → r.2.staged path = some value →
          s.staged path = some value

/-- The request is in order and none of its options ends it, one is staged that was not,
    and the commit fails. -/
def Stranded (uci : Outcomes) (radios : String × String) (params : Value) (s : Uci) : Prop :=
  ∃ p, plan ryu radios params = .ok p ∧
    (p.bestEffort = true ∨ ∀ u ∈ p.updates, takes uci u = true) ∧
    (∃ u ∈ p.updates, takes uci u = true ∧ s.staged u.1 ≠ some u.2) ∧
    Mutation.succeeds uci (.commit "wireless") = false

theorem skippedOf_reply (packages skipped : List String) (reload : Bool)
    (reloadError : Option String) :
    skippedOf (reply packages skipped reload reloadError) = skipped := by
  have hget : (reply packages skipped reload reloadError).get "skipped" =
      some (.arr (skipped.map .str)) := by
    rw [reply, Value.get_ofMembers]
    rfl
  rw [skippedOf, hget, Option.bind_some, Value.asArray, Option.getD_some, List.filterMap_map]
  exact List.filterMap_some

/-- A value that is asked for is written, unless its option is skipped from the start. -/
theorem Gathered.written {params : Value} {us : List (String × String)} {dead : List String}
    (h : Gathered ryu (options params) us dead) {path value : String}
    (hreq : Requested ryu params path value) : path ∈ dead ∨ (path, value) ∈ us := by
  obtain ⟨v, hv, htext⟩ := hreq
  rcases h.all path v hv with hd | ⟨text, ht, hu⟩
  · exact .inl hd
  · rw [htext] at ht
    cases ht
    exact .inr hu

def failedKeys (uci : Outcomes) (us : List (String × String)) : List String :=
  (us.filter fun u => !takes uci u).map Prod.fst

/-- An option that is skipped, or not asked for, is not staged. -/
theorem Gathered.spared {set : List (String × Value)} {us : List (String × String)}
    {dead : List String} (h : Gathered ryu set us dead) (hkeys : (set.map Prod.fst).Nodup)
    {uci : Outcomes} {path : String}
    (hpath : path ∈ dead ++ failedKeys uci us ∨ path ∉ set.map Prod.fst) :
    path ∉ (us.filter (takes uci)).map Prod.fst := by
  intro hmem
  obtain ⟨u, hu, rfl⟩ := List.mem_map.mp hmem
  obtain ⟨hus, ht⟩ := List.mem_filter.mp hu
  rcases hpath with hskip | hout
  · rcases List.mem_append.mp hskip with hdead | hfailed
    · have := h.dead_keys _ hdead
      rw [(h.package u hus).2] at this
      cases this
    · obtain ⟨w, hw, heq⟩ := List.mem_map.mp hfailed
      obtain ⟨hws, hf⟩ := List.mem_filter.mp hw
      have hwu : w = u := List.inj_on_of_nodup_map (hkeys.sublist h.keys) hws hus heq
      rw [hwu, ht] at hf
      cases hf
  · exact hout (h.keys.subset (List.mem_map_of_mem hus))

/-- What a request leaves that could stage none of its options. -/
theorem atomic_untouched {params : Value} {s : Uci} {v : Value}
    {us : List (String × String)} {dead : List String} {uci : Outcomes}
    (hg : Gathered ryu (options params) us dead) (hnone : us.any (takes uci) = false)
    (hv : skippedOf v = dead ++ failedKeys uci us) : Atomic ryu params s (.ok v, s) := by
  constructor
  · intro path value hreq hskip
    rw [hv, List.mem_append, not_or] at hskip
    have hu := (hg.written ryu hreq).resolve_left hskip.1
    have hfail : takes uci (path, value) = false := by
      have := List.any_eq_false.mp hnone _ hu
      simpa using this
    refine absurd (List.mem_map_of_mem (f := Prod.fst) (List.mem_filter.mpr ⟨hu, ?_⟩)) hskip.2
    rw [hfail]
    rfl
  · intro path _
    exact .inl rfl

/-- What a request leaves that was committed. -/
theorem atomic_committed {params : Value} {s : Uci} {v : Value}
    {us : List (String × String)} {dead : List String} {uci : Outcomes}
    (hkeys : ((options params).map Prod.fst).Nodup)
    (hg : Gathered ryu (options params) us dead)
    (hv : skippedOf v = dead ++ failedKeys uci us) :
    Atomic ryu params s
      (.ok v, (s.setAll (us.filter (takes uci))).commit (inPackage "wireless")) := by
  have hnodup : ((us.filter (takes uci)).map Prod.fst).Nodup :=
    (hkeys.sublist hg.keys).sublist (List.filter_sublist.map _)
  constructor
  · intro path value hreq hskip
    rw [hv, List.mem_append, not_or] at hskip
    have hu := (hg.written ryu hreq).resolve_left hskip.1
    have ht : takes uci (path, value) = true := by
      by_contra hf
      refine hskip.2 (List.mem_map_of_mem (f := Prod.fst) (List.mem_filter.mpr ⟨hu, ?_⟩))
      simpa using hf
    have hstaged := s.setAll_staged hnodup (List.mem_filter.mpr ⟨hu, ht⟩)
    dsimp only [Store.commit]
    rw [if_pos (hg.package _ hu).1, hstaged, Option.some_or]
  · intro path hpath
    rw [hv] at hpath
    have hstaged := s.setAll_staged_of_notMem (hg.spared ryu hkeys hpath)
    dsimp only [Store.commit]
    rw [hstaged, Store.setAll_committed]
    split_ifs
    · cases hs : s.staged path with
      | none => exact .inl rfl
      | some w => exact .inr ⟨nofun, rfl⟩
    · exact .inl rfl

/-- What a request leaves whose options were staged, and not committed. -/
theorem atomic_staged_iff {params : Value} {s : Uci} {e : String}
    {us : List (String × String)} {dead : List String} {uci : Outcomes}
    (hkeys : ((options params).map Prod.fst).Nodup)
    (hg : Gathered ryu (options params) us dead) :
    Atomic ryu params s (.failed e, s.setAll (us.filter (takes uci))) ↔
      ¬∃ u ∈ us, takes uci u = true ∧ s.staged u.1 ≠ some u.2 := by
  have hnodup : ((us.filter (takes uci)).map Prod.fst).Nodup :=
    (hkeys.sublist hg.keys).sublist (List.filter_sublist.map _)
  constructor
  · rintro ⟨-, h⟩ ⟨u, hu, ht, hne⟩
    exact hne (h u.1 u.2 (hg.asked u hu)
      (s.setAll_staged hnodup (List.mem_filter.mpr ⟨hu, ht⟩)))
  · intro h
    refine ⟨s.setAll_committed _, ?_⟩
    intro path value hreq hstaged
    by_cases hmem : path ∈ (us.filter (takes uci)).map Prod.fst
    · obtain ⟨u, hu, rfl⟩ := List.mem_map.mp hmem
      obtain ⟨hus, ht⟩ := List.mem_filter.mp hu
      have hu2 := s.setAll_staged hnodup hu
      rw [hstaged, Option.some.injEq] at hu2
      by_contra hne
      exact h ⟨u, hus, ht, by rwa [← hu2]⟩
    · rwa [s.setAll_staged_of_notMem hmem] at hstaged

/-- What a request leaves that ended at an option. -/
theorem atomic_reverted {params : Value} {s s' : Uci} {e : String}
    {us : List (String × String)} {dead : List String}
    (hg : Gathered ryu (options params) us dead) (hcom : s'.committed = s.committed)
    (hst : ∀ k, k ∉ us.map Prod.fst → s'.staged k = s.staged k) :
    Atomic ryu params s (.failed e, s'.revert (inPackage "wireless")) := by
  refine ⟨hcom, ?_⟩
  intro path value _ hstaged
  dsimp only [Store.revert] at hstaged
  by_cases hpackage : inPackage "wireless" path = true
  · rw [if_pos hpackage] at hstaged
    cases hstaged
  · rw [if_neg hpackage, hst] at hstaged
    · exact hstaged
    · intro hmem
      obtain ⟨u, hu, rfl⟩ := List.mem_map.mp hmem
      exact hpackage (hg.package u hu).1

/-- **When `wifi.apply` is all or nothing**: exactly where it does not come to a commit of
    newly staged values that fails. -/
theorem wifiApply_exact (uci : Outcomes) (radios : String × String)
    (reloaded : Except String Value) (params : Value) (s : Uci)
    (hkeys : ((options params).map Prod.fst).Nodup)
    (hrevert : Mutation.succeeds uci (.revert "wireless") = true) :
    Atomic ryu params s (wifiApply ryu uci radios reloaded params s) ↔
      ¬Stranded ryu uci radios params s := by
  unfold wifiApply Stranded
  cases hp : plan ryu radios params with
  | error e =>
      refine iff_of_true ⟨rfl, fun _ _ _ h => h⟩ ?_
      rintro ⟨p, hp', -⟩
      cases hp'
  | ok p =>
      have hg := plan_ok ryu hp
      have hplan : (∃ q, (Except.ok p : Except String Plan) = .ok q ∧
          (q.bestEffort = true ∨ ∀ u ∈ q.updates, takes uci u = true) ∧
          (∃ u ∈ q.updates, takes uci u = true ∧ s.staged u.1 ≠ some u.2) ∧
          Mutation.succeeds uci (.commit "wireless") = false) ↔
          (p.bestEffort = true ∨ ∀ u ∈ p.updates, takes uci u = true) ∧
            (∃ u ∈ p.updates, takes uci u = true ∧ s.staged u.1 ≠ some u.2) ∧
            Mutation.succeeds uci (.commit "wireless") = false := by
        simp only [Except.ok.injEq, exists_eq_left']
      rw [hplan]
      dsimp only
      by_cases hpass : p.bestEffort = true ∨ ∀ u ∈ p.updates, takes uci u = true
      · rw [stage_ok s hpass]
        cases hany : p.updates.any (takes uci) with
        | false =>
            have hnone : p.updates.filter (takes uci) = [] :=
              List.filter_eq_nil_iff.mpr (List.any_eq_false.mp hany)
            rw [hnone]
            refine iff_of_true (atomic_untouched ryu hg hany (skippedOf_reply _ _ _ _)) ?_
            rintro ⟨-, ⟨u, hu, ht, -⟩, -⟩
            exact List.any_eq_false.mp hany u hu ht
        | true =>
            dsimp only
            cases hcommit : Mutation.succeeds uci (.commit "wireless") with
            | true =>
                rw [uciWrite_of_succeeds hcommit]
                refine iff_of_true (atomic_committed ryu hkeys hg (skippedOf_reply _ _ _ _)) ?_
                rintro ⟨-, -, h⟩
                cases h
            | false =>
                obtain ⟨e, he⟩ :=
                  uciWrite_of_fails hcommit (s.setAll (p.updates.filter (takes uci)))
                rw [he]
                refine (atomic_staged_iff ryu hkeys hg).trans (not_congr ?_)
                exact ⟨fun h => ⟨hpass, h, rfl⟩, fun h => h.2.1⟩
      · obtain ⟨hbest, hall⟩ := not_or.mp hpass
        rw [Bool.not_eq_true] at hbest
        obtain ⟨e, s', he, hcom, hst⟩ := stage_error hrevert s hall
        rw [hbest, he]
        refine iff_of_true (atomic_reverted ryu hg hcom hst) ?_
        rintro ⟨h, -⟩
        exact hpass (by rwa [hbest])

def ssidParams : Value := .obj [("set", .obj [("wireless.main_2g.ssid", .str "home")])]

def freshUci : Uci := { committed := fun _ => none, staged := fun _ => none }

/-- `uci` with a commit that ends as given. -/
def committing (ending : Except String Unit) : Outcomes
  | .commit _ => ending
  | _ => .ok ()

def applied (ending : Except String Unit) : Outcome × Uci :=
  wifiApply (fun _ => []) (committing ending) ("wifi0", "wifi1") (.ok .null) ssidParams freshUci

theorem wifiApply_exact_ssid :
    Atomic (fun _ => []) ssidParams freshUci (applied (.ok ())) := by
  refine (wifiApply_exact (fun _ => []) (committing (.ok ())) ("wifi0", "wifi1") (.ok .null)
    ssidParams freshUci (by decide +kernel) (by decide +kernel)).mpr ?_
  rintro ⟨p, -, -, -, hcommit⟩
  exact absurd hcommit (by decide +kernel)

/-- The commit fails, and the next one that somebody makes applies the failed request. -/
theorem failed_commit_strands :
    (applied (.error "killed")).1 = .failed "commit wireless: killed" ∧
      (applied (.error "killed")).2.staged "wireless.main_2g.ssid" = some "home" ∧
      ((applied (.error "killed")).2.commit (inPackage "wireless")).committed
        "wireless.main_2g.ssid" = some "home" ∧
      ¬Atomic (fun _ => []) ssidParams freshUci (applied (.error "killed")) := by
  have hfailed : (applied (.error "killed")).1 = .failed "commit wireless: killed" := by
    decide +kernel
  have hstaged : (applied (.error "killed")).2.staged "wireless.main_2g.ssid" = some "home" := by
    decide +kernel
  refine ⟨hfailed, hstaged, by decide +kernel, ?_⟩
  intro h
  rw [Atomic, hfailed] at h
  have hbefore := h.2 "wireless.main_2g.ssid" "home"
    ⟨.str "home", List.mem_singleton.mpr rfl, rfl⟩ hstaged
  cases hbefore

end Wifi

end Datad
