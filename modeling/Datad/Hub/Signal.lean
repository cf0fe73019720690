/-
  Datad/Hub/Signal.lean
  =====================
  **Which changes of the signal are published at once** (`signal_key`, `ca_key` and
  `signal_crosses` of `block.rs`).

  Both objects are flattened into a list of texts that have to be equal and a list of dB
  values that have to be near, and the lists are compared position by position.  The count
  in front of each carrier aggregation field keeps the fields apart, whatever else is in the
  objects.  Within a field nothing keeps the carriers apart: a record that cannot be read is
  one text, and one that can be read may be none, so the two can change places unseen
  (`signalCrosses_exact`).

  Numbers are the rationals that their texts stand for.
-/
import Datad.JsonText
import Datad.Lib.Decimals
import Datad.Sms.ListAfter
import Datad.Ubus.BlobRoundTrip
import Mathlib.Data.String.Basic

namespace Datad

namespace Signal

open Codes Decimals

variable (ryu : Ryu)

def SIGNAL_DB_FIELDS : List String :=
  ["nr_rsrp", "nr_rsrq", "nr_snr", "lte_rsrp", "lte_rsrq", "lte_snr"]

def SIGNAL_QUIET_FIELDS : List String := ["bars", "rssi", "nr_rssi", "lte_rssi"]

def SIGNAL_CA_FIELDS : List String := ["nrca", "lteca", "ltecasig"]

/-! ### The key of an object -/

structure SignalKey where
  ident : List String
  db : List (Option Number)
deriving DecidableEq

/-- The value of a finite double. -/
def doubleValue (bits : Nat) : ℚ :=
  let e : Nat := bits / 2 ^ 52 % 2 ^ 11
  let m : Nat := bits % 2 ^ 52
  (if bits < 2 ^ 63 then 1 else -1) *
    (if e = 0 then (m : ℚ) / 2 ^ 1074 else (2 ^ 52 + m : ℚ) * 2 ^ e / 2 ^ 1075)

def dbValue : Value → Option Number
  | .num (.int i) => some (.fin i)
  | .num (.float bits) => some (.fin (doubleValue bits.toNat))
  | .str s => parse (Sms.trim s)
  | _ => none

def split (sep : Char) (s : String) : List String := (s.toList.splitOn sep).map String.ofList

def records (s : String) : List String :=
  (split ';' s).filter fun r => decide (Sms.trim r ≠ [])

/-- The numbers of a record, and which of them are dB values. -/
def caNumbers (field : String) : Nat := if field = "ltecasig" then 4 else 11

def caDb (field : String) (i : Nat) : Bool :=
  if field = "ltecasig" then decide (i < 3) else decide (7 ≤ i ∧ i < 10)

/-- The numbers that have to be equal; the last one is a signal strength too. -/
def caIdent (field : String) (i : Nat) : Bool :=
  !caDb field i && decide (i < caNumbers field - 1)

def readRecord (field r : String) : Option (List Number) :=
  let fields := split ',' r
  let nums := fields.filterMap fun x => parse (Sms.trim x)
  if nums.length ≠ caNumbers field ∨ fields.length ≠ caNumbers field then none else some nums

def numberText : Number → List Char
  | .fin q => display q
  | .inf neg => (if neg then "-inf" else "inf").toList
  | .nan => "NaN".toList

def natText (n : Nat) : String := String.ofList (Nat.toDigits 10 n)

def entry (field : String) (x : Number × Nat) : String :=
  field ++ ":" ++ natText x.2 ++ "=" ++ String.ofList (numberText x.1)

/-- What one record adds to the key. -/
def recordKey (field r : String) : SignalKey :=
  match readRecord field r with
  | none => { ident := [field ++ ":" ++ r], db := [] }
  | some nums =>
      { ident := (pick (caIdent field) nums 0).map (entry field)
        db := (pick (caDb field) nums 0).map fun x => some x.1 }

def caKey (field s : String) : SignalKey where
  ident := (field ++ "#" ++ natText (records s).length) ::
    (records s).flatMap fun r => (recordKey field r).ident
  db := (records s).flatMap fun r => (recordKey field r).db

def caText (v : Value) : String := v.asStr.getD ""

/-- What one field adds to the key. -/
def fieldKey (k : String) (v : Value) : SignalKey :=
  if k ∈ SIGNAL_DB_FIELDS then { ident := [], db := [dbValue v] }
  else if k ∈ SIGNAL_QUIET_FIELDS then { ident := [], db := [] }
  else if k ∈ SIGNAL_CA_FIELDS then caKey k (caText v)
  else { ident := [k ++ "=" ++ v.toText ryu], db := [] }

def signalKey : Value → SignalKey
  | .obj members =>
      { ident := members.flatMap fun m => (fieldKey ryu m.1 m.2).ident
        db := members.flatMap fun m => (fieldKey ryu m.1 m.2).db }
  | net => { ident := [net.toText ryu], db := [] }

/-! ### The comparison -/

def SIGNAL_THRESHOLD_DB : ℚ := 1

/-- `|a - b| ≥ SIGNAL_THRESHOLD_DB`; a difference that is not a number is not. -/
def far : Number → Number → Bool
  | .fin a, .fin b => decide (SIGNAL_THRESHOLD_DB ≤ |a - b|)
  | .inf s, .inf t => s != t
  | .nan, _ | _, .nan => false
  | _, _ => true

def dbCrosses : Option Number → Option Number → Bool
  | some a, some b => far a b
  | a, b => decide (a ≠ b)

def signalCrosses (published current : Value) : Bool :=
  let p := signalKey ryu published
  let c := signalKey ryu current
  if p.ident ≠ c.ident ∨ p.db.length ≠ c.db.length then true
  else (p.db.zip c.db).any fun x => dbCrosses x.1 x.2

/-! ### What counts as a change -/

/-- Numbers less than the threshold apart, or no numbers. -/
def Near : Option Number → Option Number → Prop
  | none, none => True
  | some (.fin a), some (.fin b) => |a - b| < SIGNAL_THRESHOLD_DB
  | _, _ => False

/-- Two records at one position: the same text, or numbers of which the levels are near and
    the others but the last are equal. -/
def RecordUnchanged (field r s : String) : Prop :=
  match readRecord field r, readRecord field s with
  | none, none => r = s
  | some xs, some ys =>
      (∀ i x y, xs[i]? = some x → ys[i]? = some y → caIdent field i = true → x = y) ∧
        ∀ i x y, xs[i]? = some x → ys[i]? = some y → caDb field i = true →
          Near (some x) (some y)
  | _, _ => False

def CaUnchanged (field s t : String) : Prop :=
  List.Forall₂ (RecordUnchanged field) (records s) (records t)

def FieldUnchanged (k : String) (v w : Value) : Prop :=
  if k ∈ SIGNAL_DB_FIELDS then Near (dbValue v) (dbValue w)
  else if k ∈ SIGNAL_QUIET_FIELDS then True
  else if k ∈ SIGNAL_CA_FIELDS then CaUnchanged k (caText v) (caText w)
  else v = w

/-- Which records of a text can be read. -/
def readable (field s : String) : List Bool :=
  (records s).map fun r => (readRecord field r).isSome

/-- Records that can be read and records that cannot have changed places, and nothing of it
    is seen. -/
structure Slipped (field s t : String) : Prop where
  ident : (caKey field s).ident = (caKey field t).ident
  db : List.Forall₂ Near (caKey field s).db (caKey field t).db
  moved : readable field s ≠ readable field t

/-- Fields of one name in both objects. -/
def Both (ps cs : List (String × Value)) (k : String) (v w : Value) : Prop :=
  (k, v) ∈ ps ∧ (k, w) ∈ cs

def Unchanged (ps cs : List (String × Value)) : Prop :=
  ∀ k v w, Both ps cs k v w → FieldUnchanged k v w

/-- Nothing has changed but for carriers that changed places unseen, and some did. -/
def Hidden (ps cs : List (String × Value)) : Prop :=
  (∀ k v w, Both ps cs k v w → FieldUnchanged k v w ∨
      k ∈ SIGNAL_CA_FIELDS ∧ Slipped k (caText v) (caText w)) ∧
    ∃ k v w, Both ps cs k v w ∧ k ∈ SIGNAL_CA_FIELDS ∧ Slipped k (caText v) (caText w)

/-- An object whose numbers are decimals. -/
structure Net (members : List (String × Value)) : Prop where
  keyed : Ubus.keyed members = true
  finite : (Value.obj members).Finite
  level : ∀ k v, (k, v) ∈ members → k ∈ SIGNAL_DB_FIELDS → ∀ x, dbValue v = some x →
    ∃ q, x = .fin q
  carriers : ∀ k v, (k, v) ∈ members → k ∈ SIGNAL_CA_FIELDS → ∃ s, v = .str s ∧
    ∀ r ∈ records s, ∀ nums, readRecord k r = some nums → ∀ x ∈ nums, ∃ q, x = .fin q

/-! ### Near values -/

/-- No value, or a number. -/
def Finite (a : Option Number) : Prop := ∀ x, a = some x → ∃ q, x = .fin q

theorem dbCrosses_iff {a b : Option Number} (ha : Finite a) (hb : Finite b) :
    dbCrosses a b = false ↔ Near a b := by
  cases a with
  | none =>
      cases b with
      | none => simp [dbCrosses, Near]
      | some y => simp [dbCrosses, Near]
  | some x =>
      obtain ⟨p, rfl⟩ := ha x rfl
      cases b with
      | none => simp [dbCrosses, Near]
      | some y =>
          obtain ⟨q, rfl⟩ := hb y rfl
          simp [dbCrosses, Near, far]

theorem any_dbCrosses_iff {as bs : List (Option Number)} (ha : ∀ a ∈ as, Finite a)
    (hb : ∀ b ∈ bs, Finite b) :
    (as.length = bs.length ∧ (as.zip bs).any (fun x => dbCrosses x.1 x.2) = false) ↔
      List.Forall₂ Near as bs := by
  rw [List.forall₂_iff_zip]
  refine and_congr_right fun _ => ?_
  rw [List.any_eq_false]
  constructor
  · intro h a b hab
    have hmem := List.of_mem_zip hab
    have := h (a, b) hab
    rw [Bool.not_eq_true] at this
    exact (dbCrosses_iff (ha a hmem.1) (hb b hmem.2)).mp this
  · rintro h ⟨a, b⟩ hab
    have hmem := List.of_mem_zip hab
    rw [Bool.not_eq_true]
    exact (dbCrosses_iff (ha a hmem.1) (hb b hmem.2)).mpr (h hab)

/-! ### One record -/

/-- Numbers that were read from decimals. -/
def Read (nums : List Number) : Prop := ∀ x ∈ nums, ∃ q, x = .fin q ∧ IsDecimal q

theorem readRecord_some {field r : String} {nums : List Number}
    (h : readRecord field r = some nums) :
    nums.length = caNumbers field ∧ ∀ x ∈ nums, ∃ s, parse s = some x := by
  unfold readRecord at h
  dsimp only at h
  split_ifs at h with hlen
  cases h
  rw [not_or, not_ne_iff] at hlen
  refine ⟨hlen.1, ?_⟩
  intro x hx
  obtain ⟨s, -, hs⟩ := List.mem_filterMap.mp hx
  exact ⟨_, hs⟩

theorem entry_inj {field : String} {i : Nat} {x y : Number} (hx : ∃ q, x = .fin q ∧ IsDecimal q)
    (hy : ∃ q, y = .fin q ∧ IsDecimal q) : entry field (x, i) = entry field (y, i) ↔ x = y := by
  obtain ⟨p, rfl, hp⟩ := hx
  obtain ⟨q, rfl, hq⟩ := hy
  constructor
  · intro h
    have htext : display p = display q := by
      simpa [entry, numberText, ← String.toList_inj] using h
    rw [display_inj hp hq htext]
  · intro h
    rw [h]

theorem map_entry_iff {field : String} {xs ys : List Number} (hlen : xs.length = ys.length)
    (hx : Read xs) (hy : Read ys) :
    (pick (caIdent field) xs 0).map (entry field) = (pick (caIdent field) ys 0).map (entry field) ↔
      ∀ i x y, xs[i]? = some x → ys[i]? = some y → caIdent field i = true → x = y := by
  rw [map_eq_map_iff, forall₂_pick_iff hlen]
  simp only [Nat.zero_add]
  refine forall_congr' fun i => forall_congr' fun x => forall_congr' fun y => ?_
  refine forall_congr' fun hxi => forall_congr' fun hyi => forall_congr' fun _ => ?_
  exact entry_inj (hx x (List.mem_of_getElem? hxi)) (hy y (List.mem_of_getElem? hyi))

theorem forall₂_db_iff {field : String} {xs ys : List Number} (hlen : xs.length = ys.length) :
    List.Forall₂ Near ((pick (caDb field) xs 0).map fun x => some x.1)
        ((pick (caDb field) ys 0).map fun x => some x.1) ↔
      ∀ i x y, xs[i]? = some x → ys[i]? = some y → caDb field i = true →
        Near (some x) (some y) := by
  rw [List.forall₂_map_left_iff, List.forall₂_map_right_iff, forall₂_pick_iff hlen]
  simp only [Nat.zero_add]

/-- The numbers of the records that can be read are decimals. -/
def Legible (field r : String) : Prop := ∀ nums, readRecord field r = some nums → Read nums

/-- Of two records that can both be read, or both not, the key shows what has changed. -/
theorem recordUnchanged_iff {field r s : String} (hr : Legible field r) (hs : Legible field s)
    (h : (readRecord field r).isSome = (readRecord field s).isSome) :
    ((recordKey field r).ident = (recordKey field s).ident ∧
        List.Forall₂ Near (recordKey field r).db (recordKey field s).db) ↔
      RecordUnchanged field r s := by
  unfold recordKey RecordUnchanged
  cases hxs : readRecord field r with
  | none =>
      cases hys : readRecord field s with
      | some ys => simp [hxs, hys] at h
      | none => simp [← String.toList_inj]
  | some xs =>
      cases hys : readRecord field s with
      | none => simp [hxs, hys] at h
      | some ys =>
          have hlen : xs.length = ys.length :=
            (readRecord_some hxs).1.trans (readRecord_some hys).1.symm
          exact and_congr (map_entry_iff hlen (hr xs hxs) (hs ys hys)) (forall₂_db_iff hlen)

theorem RecordUnchanged.isSome_eq {field r s : String} (h : RecordUnchanged field r s) :
    (readRecord field r).isSome = (readRecord field s).isSome := by
  unfold RecordUnchanged at h
  split at h
  · simp_all
  · simp_all
  · exact h.elim

/-! ### One field of carriers -/

/-- What a record that can be read adds to the texts. -/
def identCount (field : String) : Nat := if field = "ltecasig" then 0 else 7

theorem length_ident (field r : String) : (recordKey field r).ident.length =
    if (readRecord field r).isSome then identCount field else 1 := by
  unfold recordKey
  cases h : readRecord field r with
  | none => rfl
  | some nums =>
      dsimp only [Option.isSome]
      rw [if_pos rfl, List.length_map, length_pick, (readRecord_some h).1]
      unfold caNumbers caIdent caDb identCount caNumbers
      by_cases hf : field = "ltecasig"
      · subst hf
        decide
      · simp only [if_neg hf]
        decide

theorem length_db (field r : String) : (recordKey field r).db.length =
    if (readRecord field r).isSome then 3 else 0 := by
  unfold recordKey
  cases h : readRecord field r with
  | none => rfl
  | some nums =>
      dsimp only [Option.isSome]
      rw [if_pos rfl, List.length_map, length_pick, (readRecord_some h).1]
      unfold caNumbers caDb
      by_cases hf : field = "ltecasig"
      · subst hf
        decide
      · simp only [if_neg hf]
        decide

def readCount (field : String) (rs : List String) : Nat :=
  rs.countP fun r => (readRecord field r).isSome

theorem length_idents (field : String) (rs : List String) :
    (rs.flatMap fun r => (recordKey field r).ident).length + readCount field rs =
      identCount field * readCount field rs + rs.length := by
  induction rs with
  | nil => simp [readCount]
  | cons r rs ih =>
      simp only [readCount, List.flatMap_cons, List.length_append, length_ident,
        List.countP_cons, List.length_cons] at ih ⊢
      cases (readRecord field r).isSome with
      | false =>
          simp only [Bool.false_eq_true, if_false, Nat.add_zero]
          omega
      | true =>
          simp only [if_true, Nat.mul_add, Nat.mul_one]
          omega

theorem length_dbs (field : String) (rs : List String) :
    (rs.flatMap fun r => (recordKey field r).db).length = 3 * readCount field rs := by
  induction rs with
  | nil => simp [readCount]
  | cons r rs ih =>
      simp only [readCount, List.flatMap_cons, List.length_append, length_db,
        List.countP_cons] at ih ⊢
      cases (readRecord field r).isSome with
      | false =>
          simp only [Bool.false_eq_true, if_false]
          omega
      | true =>
          simp only [if_true]
          omega

theorem natText_inj {m n : Nat} (h : natText m = natText n) : m = n :=
  toDigits_inj (String.ofList_injective h)

theorem caKey_ident_iff {field s t : String} :
    (caKey field s).ident = (caKey field t).ident ↔ (records s).length = (records t).length ∧
      ((records s).flatMap fun r => (recordKey field r).ident) =
        (records t).flatMap fun r => (recordKey field r).ident := by
  rw [caKey, caKey, List.cons.injEq]
  refine and_congr_left fun _ => ?_
  constructor
  · intro h
    refine natText_inj (String.toList_inj.mp ?_)
    simpa [← String.toList_inj] using h
  · intro h
    rw [h]

/-- As many texts from as many records: as many of them can be read. -/
theorem length_db_eq {field s t : String} (h : (caKey field s).ident = (caKey field t).ident) :
    (caKey field s).db.length = (caKey field t).db.length := by
  obtain ⟨hlen, htexts⟩ := caKey_ident_iff.mp h
  have hs := length_idents field (records s)
  have ht := length_idents field (records t)
  rw [htexts] at hs
  rw [caKey, caKey, length_dbs, length_dbs]
  unfold identCount at hs ht
  split_ifs at hs ht
  · omega
  · omega

theorem recordsUnchanged_iff {field : String} {rs rs' : List String}
    (h : List.Forall₂ (fun r r' => (readRecord field r).isSome = (readRecord field r').isSome)
      rs rs') (hrs : ∀ r ∈ rs, Legible field r) (hrs' : ∀ r ∈ rs', Legible field r) :
    (((rs.flatMap fun r => (recordKey field r).ident) =
          rs'.flatMap fun r => (recordKey field r).ident) ∧
        List.Forall₂ Near (rs.flatMap fun r => (recordKey field r).db)
          (rs'.flatMap fun r => (recordKey field r).db)) ↔
      List.Forall₂ (RecordUnchanged field) rs rs' := by
  induction h with
  | nil => simp
  | @cons r r' rs rs' hr hrest ih =>
      have ih := ih (fun q hq => hrs q (List.mem_cons_of_mem _ hq))
        (fun q hq => hrs' q (List.mem_cons_of_mem _ hq))
      have hhead := recordUnchanged_iff (hrs r List.mem_cons_self) (hrs' r' List.mem_cons_self) hr
      have hident : (recordKey field r).ident.length = (recordKey field r').ident.length := by
        rw [length_ident, length_ident, hr]
      have hdb : (recordKey field r).db.length = (recordKey field r').db.length := by
        rw [length_db, length_db, hr]
      rw [← List.forall₂_eq_eq_eq] at ih hhead ⊢
      simp only [List.flatMap_cons]
      rw [forall₂_append_iff hident, forall₂_append_iff hdb, List.forall₂_cons, ← hhead, ← ih]
      exact and_and_and_comm

/-- Where the same records can be read, the key shows what has changed. -/
theorem caUnchanged_iff {field s t : String} (hs : ∀ r ∈ records s, Legible field r)
    (ht : ∀ r ∈ records t, Legible field r) (h : readable field s = readable field t) :
    ((caKey field s).ident = (caKey field t).ident ∧
        List.Forall₂ Near (caKey field s).db (caKey field t).db) ↔ CaUnchanged field s t := by
  have hsame : List.Forall₂ (fun r r' => (readRecord field r).isSome =
      (readRecord field r').isSome) (records s) (records t) := map_eq_map_iff.mp h
  rw [caKey_ident_iff, CaUnchanged, ← recordsUnchanged_iff hsame hs ht]
  exact ⟨fun h => ⟨h.1.2, h.2⟩, fun h => ⟨⟨hsame.length_eq, h.1⟩, h.2⟩⟩

theorem CaUnchanged.readable_eq {field s t : String} (h : CaUnchanged field s t) :
    readable field s = readable field t := by
  exact map_eq_map_iff.mpr (h.imp fun _ _ h => h.isSome_eq)

/-- **What the key shows of a field of carriers**: its records one by one, unless some that
    can be read have changed places with some that cannot. -/
theorem caKey_iff {field s t : String} (hs : ∀ r ∈ records s, Legible field r)
    (ht : ∀ r ∈ records t, Legible field r) :
    ((caKey field s).ident = (caKey field t).ident ∧
        List.Forall₂ Near (caKey field s).db (caKey field t).db) ↔
      CaUnchanged field s t ∨ Slipped field s t := by
  constructor
  · rintro ⟨hident, hdb⟩
    by_cases h : readable field s = readable field t
    · exact .inl ((caUnchanged_iff hs ht h).mp ⟨hident, hdb⟩)
    · exact .inr ⟨hident, hdb, h⟩
  · rintro (h | h)
    · exact (caUnchanged_iff hs ht h.readable_eq).mpr h
    · exact ⟨h.ident, h.db⟩

/-! ### The fields apart -/

/-- The count in front of a field of carriers. -/
def mark (x : String) : Bool :=
  (SIGNAL_CA_FIELDS.any fun f => (f.toList ++ ['#']).isPrefixOf x.toList) &&
    !x.toList.contains '='

theorem mark_count {field : String} (h : field ∈ SIGNAL_CA_FIELDS) (n : Nat) :
    mark (field ++ "#" ++ natText n) = true := by
  have hdigits : '=' ∉ Nat.toDigits 10 n := fun hmem =>
    absurd (isDigit_toDigits hmem) (by decide)
  simp only [SIGNAL_CA_FIELDS, List.mem_cons, List.not_mem_nil, or_false] at h
  rcases h with rfl | rfl | rfl
  · simp [mark, SIGNAL_CA_FIELDS, natText, hdigits]
  · simp [mark, SIGNAL_CA_FIELDS, natText, hdigits]
  · simp [mark, SIGNAL_CA_FIELDS, natText, hdigits]

theorem mark_entry {field : String} (h : field ∈ SIGNAL_CA_FIELDS) (s : String) :
    mark (field ++ ":" ++ s) = false := by
  simp only [SIGNAL_CA_FIELDS, List.mem_cons, List.not_mem_nil, or_false] at h
  rcases h with rfl | rfl | rfl
  · simp [mark, SIGNAL_CA_FIELDS]
  · simp [mark, SIGNAL_CA_FIELDS]
  · simp [mark, SIGNAL_CA_FIELDS]

theorem mark_field (k s : String) : mark (k ++ "=" ++ s) = false := by
  simp [mark]

theorem mark_record {field : String} (h : field ∈ SIGNAL_CA_FIELDS) (r : String) :
    ∀ x ∈ (recordKey field r).ident, mark x = false := by
  intro x hx
  unfold recordKey at hx
  split at hx
  · rw [List.mem_singleton.mp hx]
    exact mark_entry h r
  · obtain ⟨y, -, rfl⟩ := List.mem_map.mp hx
    have hentry : entry field y =
        field ++ ":" ++ (natText y.2 ++ "=" ++ String.ofList (numberText y.1)) := by
      simp only [entry, String.append_assoc]
    rw [hentry]
    exact mark_entry h _

/-- Both objects have the same fields in the same order. -/
abbrev SameKeys (ps cs : List (String × Value)) : Prop :=
  List.Forall₂ (fun a b => a.1 = b.1) ps cs

theorem segments_fields {ps cs : List (String × Value)} (h : SameKeys ps cs) :
    Segments mark (ps.map fun m => (fieldKey ryu m.1 m.2).ident)
      (cs.map fun m => (fieldKey ryu m.1 m.2).ident) := by
  induction h with
  | nil => exact .nil
  | @cons a b ps cs hab _ ih =>
      obtain ⟨k, v⟩ := a
      obtain ⟨l, w⟩ := b
      obtain rfl : k = l := hab
      rw [List.map_cons, List.map_cons]
      unfold fieldKey
      by_cases hdb : k ∈ SIGNAL_DB_FIELDS
      · simp only [if_pos hdb]
        exact .plain [] [] _ _ rfl nofun nofun ih
      · by_cases hquiet : k ∈ SIGNAL_QUIET_FIELDS
        · simp only [if_neg hdb, if_pos hquiet]
          exact .plain [] [] _ _ rfl nofun nofun ih
        · by_cases hca : k ∈ SIGNAL_CA_FIELDS
          · have hrecords : ∀ s, ∀ x ∈ (records s).flatMap fun r => (recordKey k r).ident,
                mark x = false := by
              intro s x hx
              obtain ⟨r, -, hr⟩ := List.mem_flatMap.mp hx
              exact mark_record hca r x hr
            simp only [if_neg hdb, if_neg hquiet, if_pos hca]
            exact .marked _ _ _ _ _ _ (mark_count hca _) (mark_count hca _) (hrecords _)
              (hrecords _) ih
          · have hplain : ∀ u : Value, ∀ x ∈ [k ++ "=" ++ u.toText ryu], mark x = false := by
              intro u x hx
              rw [List.mem_singleton.mp hx]
              exact mark_field k _
            simp only [if_neg hdb, if_neg hquiet, if_neg hca]
            exact .plain _ _ _ _ rfl (hplain v) (hplain w) ih

/-! ### The fields one by one -/

theorem finite_of_mem {ms : List (String × Value)} (h : (Value.obj ms).Finite) {k : String}
    {v : Value} (hm : (k, v) ∈ ms) : v.Finite := by
  rw [Value.Finite] at h
  induction ms with
  | nil => cases hm
  | cons m ms ih =>
      rw [Value.FiniteMembers] at h
      rcases List.mem_cons.mp hm with rfl | hm
      · exact h.1
      · exact ih h.2 hm

theorem Net.legible {ms : List (String × Value)} (h : Net ms) {k : String} {v : Value}
    (hm : (k, v) ∈ ms) (hk : k ∈ SIGNAL_CA_FIELDS) : ∀ r ∈ records (caText v), Legible k r := by
  obtain ⟨s, rfl, hs⟩ := h.carriers k v hm hk
  intro r hr nums hnums x hx
  obtain ⟨q, rfl⟩ := hs r hr nums hnums x hx
  obtain ⟨text, htext⟩ := (readRecord_some hnums).2 _ hx
  exact ⟨q, rfl, parse_isDecimal htext⟩

theorem not_carriers {k : String} (h : k ∈ SIGNAL_DB_FIELDS ∨ k ∈ SIGNAL_QUIET_FIELDS) :
    k ∉ SIGNAL_CA_FIELDS := by
  have hall : ∀ k ∈ SIGNAL_DB_FIELDS ++ SIGNAL_QUIET_FIELDS, k ∉ SIGNAL_CA_FIELDS := by
    decide +kernel
  exact hall k (List.mem_append.mpr h)

/-- What has changed of a field, or slipped, is what the key shows of it. -/
theorem fieldKey_iff (hryu : ryu.Lawful) {ps cs : List (String × Value)} (hp : Net ps)
    (hc : Net cs) {k : String} {v w : Value} (h : Both ps cs k v w) :
    ((fieldKey ryu k v).ident = (fieldKey ryu k w).ident ∧
        List.Forall₂ Near (fieldKey ryu k v).db (fieldKey ryu k w).db) ↔
      FieldUnchanged k v w ∨ k ∈ SIGNAL_CA_FIELDS ∧ Slipped k (caText v) (caText w) := by
  unfold fieldKey FieldUnchanged
  by_cases hdb : k ∈ SIGNAL_DB_FIELDS
  · simp [if_pos hdb, not_carriers (.inl hdb)]
  · by_cases hquiet : k ∈ SIGNAL_QUIET_FIELDS
    · simp [if_neg hdb, if_pos hquiet]
    · by_cases hca : k ∈ SIGNAL_CA_FIELDS
      · simp only [if_neg hdb, if_neg hquiet, if_pos hca]
        rw [caKey_iff (hp.legible h.1 hca) (hc.legible h.2 hca)]
        exact or_congr_right ⟨fun h => ⟨hca, h⟩, fun h => h.2⟩
      · have htext : k ++ "=" ++ v.toText ryu = k ++ "=" ++ w.toText ryu ↔ v = w := by
          constructor
          · intro heq
            refine Value.toText_inj hryu (finite_of_mem hp.finite h.1)
              (finite_of_mem hc.finite h.2) (String.toList_inj.mp ?_)
            simpa [← String.toList_inj] using heq
          · intro heq
            rw [heq]
        simp [if_neg hdb, if_neg hquiet, htext, hca]

/-- As long as the texts agree, the levels of a field are as many. -/
theorem length_field_db {k : String} {v w : Value}
    (h : (fieldKey ryu k v).ident = (fieldKey ryu k w).ident) :
    (fieldKey ryu k v).db.length = (fieldKey ryu k w).db.length := by
  unfold fieldKey at h ⊢
  split_ifs at h ⊢
  · rfl
  · rfl
  · exact length_db_eq h
  · rfl

theorem finite_db {ms : List (String × Value)} (h : Net ms) :
    ∀ a ∈ (signalKey ryu (.obj ms)).db, Finite a := by
  intro a ha
  obtain ⟨⟨k, v⟩, hm, ha⟩ := List.mem_flatMap.mp ha
  unfold fieldKey at ha
  dsimp only at ha
  split_ifs at ha with hdb hquiet hca
  · rw [List.mem_singleton.mp ha]
    exact h.level k v hm hdb
  · cases ha
  · obtain ⟨r, hr, ha⟩ := List.mem_flatMap.mp ha
    unfold recordKey at ha
    split at ha
    · cases ha
    · rename_i nums hnums
      obtain ⟨x, hx, rfl⟩ := List.mem_map.mp ha
      have hmem : x.1 ∈ nums :=
        (List.mem_zipIdx' (List.mem_filter.mp hx).1).2 ▸ List.getElem_mem _
      obtain ⟨q, hq, -⟩ := h.legible hm hca r hr nums hnums x.1 hmem
      rintro y hy
      cases hy
      exact ⟨q, hq⟩
  · cases ha

theorem signalKey_ident (ms : List (String × Value)) : (signalKey ryu (.obj ms)).ident =
    (ms.map fun m => (fieldKey ryu m.1 m.2).ident).flatten :=
  List.flatMap_def

theorem signalKey_db (ms : List (String × Value)) : (signalKey ryu (.obj ms)).db =
    (ms.map fun m => (fieldKey ryu m.1 m.2).db).flatten :=
  List.flatMap_def

theorem ident_iff {ps cs : List (String × Value)} (hkeys : SameKeys ps cs) :
    (signalKey ryu (.obj ps)).ident = (signalKey ryu (.obj cs)).ident ↔
      List.Forall₂ (fun a b => (fieldKey ryu a.1 a.2).ident = (fieldKey ryu b.1 b.2).ident)
        ps cs := by
  rw [← map_eq_map_iff, signalKey_ident, signalKey_ident]
  constructor
  · intro h
    have hnil : ∀ x ∈ ([] : List String), mark x = false := nofun
    exact ((segments_fields ryu hkeys).flatten_inj hnil hnil h).2
  · intro h
    rw [h]

theorem db_iff {ps cs : List (String × Value)} (hkeys : SameKeys ps cs)
    (h : List.Forall₂ (fun a b => (fieldKey ryu a.1 a.2).ident = (fieldKey ryu b.1 b.2).ident)
      ps cs) :
    List.Forall₂ Near (signalKey ryu (.obj ps)).db (signalKey ryu (.obj cs)).db ↔
      List.Forall₂ (fun a b => List.Forall₂ Near (fieldKey ryu a.1 a.2).db
        (fieldKey ryu b.1 b.2).db) ps cs := by
  have hlen : List.Forall₂ (fun as bs => as.length = bs.length)
      (ps.map fun m => (fieldKey ryu m.1 m.2).db) (cs.map fun m => (fieldKey ryu m.1 m.2).db) := by
    rw [List.forall₂_map_left_iff, List.forall₂_map_right_iff]
    refine (forall₂_and_iff.mpr ⟨hkeys, h⟩).imp ?_
    rintro ⟨k, v⟩ ⟨l, w⟩ ⟨hkl, hident⟩
    obtain rfl : k = l := hkl
    exact length_field_db ryu hident
  rw [signalKey_db, signalKey_db, forall₂_flatten_iff hlen,
    List.forall₂_map_left_iff, List.forall₂_map_right_iff]

/-- **The comparison is a comparison of the fields.** -/
theorem signalCrosses_iff {ps cs : List (String × Value)} (hp : Net ps) (hc : Net cs)
    (hkeys : SameKeys ps cs) :
    signalCrosses ryu (.obj ps) (.obj cs) = false ↔
      List.Forall₂ (fun a b => (fieldKey ryu a.1 a.2).ident = (fieldKey ryu b.1 b.2).ident ∧
        List.Forall₂ Near (fieldKey ryu a.1 a.2).db (fieldKey ryu b.1 b.2).db) ps cs := by
  have hcross : signalCrosses ryu (.obj ps) (.obj cs) = false ↔
      (signalKey ryu (.obj ps)).ident = (signalKey ryu (.obj cs)).ident ∧
        List.Forall₂ Near (signalKey ryu (.obj ps)).db (signalKey ryu (.obj cs)).db := by
    rw [← any_dbCrosses_iff (finite_db ryu hp) (finite_db ryu hc), signalCrosses]
    split_ifs with h
    · refine iff_of_false (by simp) ?_
      rintro ⟨hident, hlen, -⟩
      exact h.elim (fun h => h hident) (fun h => h hlen)
    · rw [not_or, not_ne_iff, not_ne_iff] at h
      exact ⟨fun hany => ⟨h.1, h.2, hany⟩, fun hall => hall.2.2⟩
  rw [hcross, ident_iff ryu hkeys, forall₂_and_iff]
  exact and_congr_right fun hident => db_iff ryu hkeys hident

/-! ### Fields by their names -/

theorem sameKeys_of_keyed {ps cs : List (String × Value)} (hp : Ubus.keyed ps = true)
    (hc : Ubus.keyed cs = true)
    (h : ∀ k, k ∈ ps.map Prod.fst ↔ k ∈ cs.map Prod.fst) : SameKeys ps cs := by
  have hsorted : ∀ {ms : List (String × Value)}, Ubus.keyed ms = true →
      (ms.map Prod.fst).Pairwise (· < ·) := by
    intro ms hms
    rw [List.pairwise_map]
    exact Ubus.keyed_iff.mp hms
  have hperm : (ps.map Prod.fst).Perm (cs.map Prod.fst) :=
    (List.perm_ext_iff_of_nodup ((hsorted hp).imp ne_of_lt) ((hsorted hc).imp ne_of_lt)).mpr h
  refine map_eq_map_iff.mp (List.Perm.eq_of_pairwise ?_ (hsorted hp) (hsorted hc) hperm)
  intro a b _ _ hab hba
  exact absurd hba (lt_asymm hab)

/-- Objects with the same keys, once each, are compared field by field. -/
theorem both_iff {ps cs : List (String × Value)} {P : String → Value → Value → Prop}
    (hkeys : SameKeys ps cs) (hnodup : (ps.map Prod.fst).Nodup) :
    (∀ k v w, Both ps cs k v w → P k v w) ↔
      List.Forall₂ (fun a b => P a.1 a.2 b.2) ps cs := by
  induction hkeys with
  | nil => simp [Both]
  | @cons a b ps cs hab hrest ih =>
      obtain ⟨k, v⟩ := a
      obtain ⟨l, w⟩ := b
      obtain rfl : k = l := hab
      obtain ⟨hk, hnodup⟩ := List.nodup_cons.mp hnodup
      have hk' : k ∉ cs.map Prod.fst := by
        rwa [← map_eq_map_iff.mpr hrest]
      rw [List.forall₂_cons, ← ih hnodup]
      constructor
      · intro h
        refine ⟨h k v w ⟨List.mem_cons_self, List.mem_cons_self⟩, ?_⟩
        intro l v' w' hb
        exact h l v' w' ⟨List.mem_cons_of_mem _ hb.1, List.mem_cons_of_mem _ hb.2⟩
      · rintro ⟨hhead, htail⟩ l v' w' ⟨hv, hw⟩
        rcases List.mem_cons.mp hv with hv | hv
        · cases hv
          rcases List.mem_cons.mp hw with hw | hw
          · cases hw
            exact hhead
          · exact absurd (List.mem_map_of_mem (f := Prod.fst) hw) hk'
        · rcases List.mem_cons.mp hw with hw | hw
          · cases hw
            exact absurd (List.mem_map_of_mem (f := Prod.fst) hv) hk
          · exact htail l v' w' ⟨hv, hw⟩

theorem FieldUnchanged.readable_eq {k : String} {v w : Value} (h : FieldUnchanged k v w)
    (hca : k ∈ SIGNAL_CA_FIELDS) : readable k (caText v) = readable k (caText w) := by
  unfold FieldUnchanged at h
  rw [if_neg (fun hk => not_carriers (.inl hk) hca), if_neg (fun hk => not_carriers (.inr hk) hca),
    if_pos hca] at h
  exact CaUnchanged.readable_eq h

/-- **What the threshold test sees.**  For objects with the same keys it answers as the
    fields have changed or not, exactly unless all that has changed is that carriers which
    can be read have changed places with some that cannot. -/
theorem signalCrosses_exact (hryu : ryu.Lawful) (ps cs : List (String × Value)) (hp : Net ps)
    (hc : Net cs) (hkeys : ∀ k, k ∈ ps.map Prod.fst ↔ k ∈ cs.map Prod.fst) :
    (signalCrosses ryu (.obj ps) (.obj cs) = false ↔ Unchanged ps cs) ↔ ¬Hidden ps cs := by
  have hsame := sameKeys_of_keyed hp.keyed hc.keyed hkeys
  have hnodup : (ps.map Prod.fst).Nodup :=
    List.pairwise_map.mpr ((Ubus.keyed_iff.mp hp.keyed).imp ne_of_lt)
  have hcross : signalCrosses ryu (.obj ps) (.obj cs) = false ↔
      ∀ k v w, Both ps cs k v w → FieldUnchanged k v w ∨
        k ∈ SIGNAL_CA_FIELDS ∧ Slipped k (caText v) (caText w) := by
    have hname : List.Forall₂ (fun a b : String × Value =>
        (fieldKey ryu a.1 a.2).ident = (fieldKey ryu b.1 b.2).ident ∧
          List.Forall₂ Near (fieldKey ryu a.1 a.2).db (fieldKey ryu b.1 b.2).db) ps cs ↔
        List.Forall₂ (fun a b : String × Value =>
          (fieldKey ryu a.1 a.2).ident = (fieldKey ryu a.1 b.2).ident ∧
            List.Forall₂ Near (fieldKey ryu a.1 a.2).db (fieldKey ryu a.1 b.2).db) ps cs := by
      constructor
      · intro h
        refine (forall₂_and_iff.mpr ⟨hsame, h⟩).imp ?_
        rintro a b ⟨hab, h⟩
        rwa [← hab] at h
      · intro h
        refine (forall₂_and_iff.mpr ⟨hsame, h⟩).imp ?_
        rintro a b ⟨hab, h⟩
        rwa [← hab]
    rw [signalCrosses_iff ryu hp hc hsame, hname, ← both_iff (P := fun k v w =>
      (fieldKey ryu k v).ident = (fieldKey ryu k w).ident ∧
        List.Forall₂ Near (fieldKey ryu k v).db (fieldKey ryu k w).db) hsame hnodup]
    exact forall_congr' fun k => forall_congr' fun v => forall_congr' fun w =>
      forall_congr' fun hb => fieldKey_iff ryu hryu hp hc hb
  rw [hcross]
  constructor
  · rintro h ⟨hall, k, v, w, hb, hca, hslip⟩
    exact hslip.moved ((h.mp hall k v w hb).readable_eq hca)
  · intro hhidden
    constructor
    · intro hall k v w hb
      refine (hall k v w hb).resolve_right ?_
      rintro ⟨hca, hslip⟩
      exact hhidden ⟨hall, k, v, w, hb, hca, hslip⟩
    · intro h k v w hb
      exact .inl (h k v w hb)

/-- Doubles written by their bits. -/
def bitsText : Ryu := fun bits => Nat.toDigits 10 bits.toNat ++ ['.']

theorem bitsText_lawful : bitsText.Lawful where
  chars bits _ c hc := by
    rcases List.mem_append.mp hc with hc | hc
    · simp [numChar, isDigit_toDigits hc]
    · rw [List.mem_singleton.mp hc]
      rfl
  mark bits _ := .inl (List.mem_append_right _ (List.mem_singleton.mpr rfl))
  inj a b _ _ h := UInt64.toNat_inj.mp (toDigits_inj (List.append_cancel_right h))

def netSample (rsrp ltecasig : String) : List (String × Value) :=
  [("lte_rsrp", .str rsrp), ("ltecasig", .str ltecasig), ("network_type", .str "LTE")]

/-- The numbers of an object can be checked. -/
def isDecimals (members : List (String × Value)) : Bool :=
  let fin : Number → Bool := fun x => match x with
    | .fin _ => true
    | _ => false
  members.all fun m =>
    (dbValue m.2).all fin && (m.2.asStr.isSome || decide (m.1 ∉ SIGNAL_CA_FIELDS)) &&
      (records (caText m.2)).all fun r => ((readRecord m.1 r).getD []).all fin

theorem net_of_isDecimals {members : List (String × Value)} (hkeyed : Ubus.keyed members = true)
    (hfinite : (Value.obj members).Finite) (h : isDecimals members = true) : Net members := by
  have hfin : ∀ x : Number, (match x with
      | .fin _ => true
      | _ => false) = true → ∃ q, x = .fin q := by
    intro x hx
    cases x with
    | fin q => exact ⟨q, rfl⟩
    | inf neg => cases hx
    | nan => cases hx
  unfold isDecimals at h
  simp only [List.all_eq_true, Bool.and_eq_true, Bool.or_eq_true, decide_eq_true_iff] at h
  refine ⟨hkeyed, hfinite, ?_, ?_⟩
  · intro k v hm _ x hx
    have := (h (k, v) hm).1.1
    dsimp only at this
    rw [hx] at this
    exact hfin x this
  · intro k v hm hk
    obtain ⟨⟨-, htext⟩, hrecords⟩ := h (k, v) hm
    have hsome := htext.resolve_right fun hno => hno hk
    cases v with
    | str s =>
        refine ⟨s, rfl, ?_⟩
        intro r hr nums hnums x hx
        have := hrecords r hr
        dsimp only at this
        rw [hnums] at this
        exact hfin x (this x hx)
    | null => cases hsome
    | bool b => cases hsome
    | num n => cases hsome
    | arr items => cases hsome
    | obj ms => cases hsome

theorem signalCrosses_exact_sample :
    signalCrosses bitsText (.obj (netSample "-80" "-80,-10,5,-60"))
        (.obj (netSample "-80.5" "-80,-10,5,-61")) = false ↔
      Unchanged (netSample "-80" "-80,-10,5,-60") (netSample "-80.5" "-80,-10,5,-61") := by
  refine (signalCrosses_exact bitsText bitsText_lawful _ _
    (net_of_isDecimals (by decide +kernel) (by simp [netSample, Value.Finite, Value.FiniteMembers])
      (by decide +kernel))
    (net_of_isDecimals (by decide +kernel) (by simp [netSample, Value.Finite, Value.FiniteMembers])
      (by decide +kernel)) (fun k => by simp [netSample])).mpr ?_
  rintro ⟨-, k, v, w, ⟨hv, hw⟩, hca, hslip⟩
  have hsame : ∀ p ∈ netSample "-80" "-80,-10,5,-60", ∀ c ∈ netSample "-80.5" "-80,-10,5,-61",
      p.1 = c.1 → readable p.1 (caText p.2) = readable c.1 (caText c.2) := by
    decide +kernel
  exact hslip.moved (hsame (k, v) hv (k, w) hw rfl)

/-- A record that cannot be read, first before the carrier and then behind it. -/
theorem carrier_hidden :
    Ubus.keyed (netSample "-80" "x;-80,-10,5,-60") = true ∧
      isDecimals (netSample "-80" "x;-80,-10,5,-60") = true ∧
      isDecimals (netSample "-80" "-80,-10,5,-60;x") = true ∧
      signalCrosses bitsText (.obj (netSample "-80" "x;-80,-10,5,-60"))
        (.obj (netSample "-80" "-80,-10,5,-60;x")) = false ∧
      ¬Unchanged (netSample "-80" "x;-80,-10,5,-60") (netSample "-80" "-80,-10,5,-60;x") := by
  refine ⟨by decide +kernel, by decide +kernel, by decide +kernel, by decide +kernel, ?_⟩
  intro h
  have := h "ltecasig" (.str "x;-80,-10,5,-60") (.str "-80,-10,5,-60;x")
    ⟨by simp [netSample], by simp [netSample]⟩
  exact absurd (this.readable_eq (by decide)) (by decide +kernel)

end Signal

end Datad
