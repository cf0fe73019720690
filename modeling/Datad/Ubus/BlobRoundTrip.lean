/-
  Datad/Ubus/BlobRoundTrip.lean
  =============================
  **What is encoded is decoded to itself** (`blobmsg_table`, `blobmsg_object`).

  An attribute that fits is read back with whatever follows it (`parseAttrs_append`), and
  a field with its name and data (`decodeAt_*`).  The encoder and the decoder then meet,
  value by value: by induction on the value, the field that is written decodes to it, as
  long as no more levels are left in the value than the decoder allows.
-/
import Datad.Ubus.Blob

namespace Datad

namespace Ubus

open Bytes

/-! ### Attributes -/

/-- The header as one number. -/
def headerOf (a : Attr) : Nat :=
  a.id * 2 ^ BLOB_ATTR_ID_SHIFT + (BLOB_HDR_LEN + a.data.length) +
    if a.extended then BLOB_ATTR_EXTENDED else 0

/-- An attribute as it is written. -/
def attrBytes (a : Attr) : List UInt8 :=
  let rawLen := BLOB_HDR_LEN + a.data.length
  beBytes 4 (headerOf a) ++ a.data ++ List.replicate (align rawLen - rawLen) 0

/-- Type and length have their bits to themselves. -/
structure Fits (a : Attr) : Prop where
  id : a.id ≤ 0x7f
  length : BLOB_HDR_LEN + a.data.length ≤ BLOB_ATTR_LEN_MASK

theorem le_align (n : Nat) : n ≤ align n := by
  simp only [align, BLOB_ATTR_ALIGN]
  omega

@[simp] theorem length_attrBytes (a : Attr) :
    (attrBytes a).length = align (BLOB_HDR_LEN + a.data.length) := by
  have := le_align (BLOB_HDR_LEN + a.data.length)
  simp only [attrBytes, List.length_append, length_beBytes, List.length_replicate]
  simp only [BLOB_HDR_LEN] at this ⊢
  omega

theorem putAttr_eq {a : Attr} (h : Fits a) (out : List UInt8) :
    putAttr out a.id a.extended a.data = some (out ++ attrBytes a) := by
  have hraw : (BLOB_HDR_LEN + a.data.length) % 2 ^ 32 = BLOB_HDR_LEN + a.data.length := by
    refine Nat.mod_eq_of_lt (lt_of_le_of_lt h.length ?_)
    decide
  rw [putAttr]
  simp only [hraw]
  rw [if_pos ⟨h.length, h.id⟩]
  rfl

section Header

variable {a : Attr}

theorem headerOf_lt (h : Fits a) : headerOf a < 256 ^ 4 := by
  have := h.id
  have := h.length
  simp only [headerOf, BLOB_ATTR_ID_SHIFT, BLOB_HDR_LEN, BLOB_ATTR_EXTENDED,
    BLOB_ATTR_LEN_MASK] at *
  split <;> omega

theorem headerOf_length (h : Fits a) :
    headerOf a % (BLOB_ATTR_LEN_MASK + 1) = BLOB_HDR_LEN + a.data.length := by
  have := h.length
  simp only [headerOf, BLOB_ATTR_ID_SHIFT, BLOB_HDR_LEN, BLOB_ATTR_EXTENDED,
    BLOB_ATTR_LEN_MASK] at *
  split <;> omega

theorem headerOf_id (h : Fits a) : headerOf a / 2 ^ BLOB_ATTR_ID_SHIFT % 128 = a.id := by
  have := h.id
  have := h.length
  simp only [headerOf, BLOB_ATTR_ID_SHIFT, BLOB_HDR_LEN, BLOB_ATTR_EXTENDED,
    BLOB_ATTR_LEN_MASK] at *
  split <;> omega

theorem headerOf_extended (h : Fits a) :
    decide (BLOB_ATTR_EXTENDED ≤ headerOf a) = a.extended := by
  rw [Bool.eq_iff_iff, decide_eq_true_iff]
  have := h.id
  have := h.length
  simp only [headerOf, BLOB_ATTR_ID_SHIFT, BLOB_HDR_LEN, BLOB_ATTR_EXTENDED,
    BLOB_ATTR_LEN_MASK] at *
  split
  · exact iff_of_true (by omega) ‹_›
  · exact iff_of_false (by omega) ‹_›

end Header

/-- **An attribute is read back**, and what follows it is read next. -/
theorem parseAttrs_append {a : Attr} (h : Fits a) {rest : List UInt8} {as : List Attr}
    (hrest : parseAttrs rest = .ok as) : parseAttrs (attrBytes a ++ rest) = .ok (a :: as) := by
  have hfull := length_attrBytes a
  have hal := le_align (BLOB_HDR_LEN + a.data.length)
  have hbytes : attrBytes a = beBytes 4 (headerOf a) ++ a.data ++
      List.replicate (align (BLOB_HDR_LEN + a.data.length) - (BLOB_HDR_LEN + a.data.length)) 0 :=
    rfl
  have hfour : (beBytes 4 (headerOf a)).length = BLOB_HDR_LEN := length_beBytes 4 _
  have hheader : ofBe ((attrBytes a ++ rest).take BLOB_HDR_LEN) = headerOf a := by
    rw [hbytes, List.append_assoc, List.append_assoc,
      List.take_left' hfour, ofBe_beBytes, Nat.mod_eq_of_lt (headerOf_lt h)]
  have hdata : ((attrBytes a ++ rest).take (BLOB_HDR_LEN + a.data.length)).drop BLOB_HDR_LEN =
      a.data := by
    rw [hbytes, List.append_assoc, List.take_left' (by rw [List.length_append, hfour]),
      List.drop_left' hfour]
  have hdrop : (attrBytes a ++ rest).drop (min (align (BLOB_HDR_LEN + a.data.length))
      (attrBytes a ++ rest).length) = rest := by
    rw [List.length_append, hfull, Nat.min_eq_left (Nat.le_add_right _ _), ← hfull,
      List.drop_left]
  have hlen : (attrBytes a ++ rest).length =
      align (BLOB_HDR_LEN + a.data.length) + rest.length := by
    rw [List.length_append, hfull]
  have hhdr : BLOB_HDR_LEN ≤ BLOB_HDR_LEN + a.data.length := Nat.le_add_right _ _
  have hpos : 0 < BLOB_HDR_LEN := by decide
  rw [parseAttrs]
  simp only [hheader, headerOf_length h, headerOf_id h, headerOf_extended h, hdata, hdrop, hrest]
  rw [if_neg (by omega), if_neg (by omega), if_neg (by omega), if_neg (by omega)]

theorem parseAttrs_nil : parseAttrs [] = .ok [] := by
  rw [parseAttrs]
  rfl

/-! ### Fields -/

theorem BlobmsgType.id_le (ty : BlobmsgType) : ty.id ≤ 0x7f := by
  cases ty <;> decide

/-- The attribute that holds a field. -/
def fieldOf (ty : BlobmsgType) (name : String) (data : List UInt8) : Attr :=
  ⟨ty.id, true, blobmsgPayload name data⟩

theorem length_blobmsgPayload (name : String) (data : List UInt8) :
    (blobmsgPayload name data).length = align (2 + (utf8 name).length + 1) + data.length := by
  have := le_align (2 + (utf8 name).length + 1)
  simp only [blobmsgPayload, List.length_append, length_beBytes, List.length_replicate]
  omega

theorem blobmsgPutRaw_eq (ty : BlobmsgType) {name : String} {data : List UInt8}
    (h : BLOB_HDR_LEN + (align (2 + (utf8 name).length + 1) + data.length) ≤ BLOB_ATTR_LEN_MASK)
    (out : List UInt8) :
    Fits (fieldOf ty name data) ∧
      blobmsgPutRaw out ty name data = some (out ++ attrBytes (fieldOf ty name data)) := by
  have hfits : Fits (fieldOf ty name data) := by
    constructor
    · exact ty.id_le
    · rw [fieldOf, length_blobmsgPayload]
      exact h
  exact ⟨hfits, putAttr_eq hfits out⟩

section Decode

variable {ty : BlobmsgType} {name : String} {data : List UInt8}

/-- The name in front of the data is found again. -/
theorem blobmsgPayload_spec {d : List UInt8} (hname : (utf8 name).length ≤ 65535) :
    let p := blobmsgPayload name d
    ¬ p.length < 3 ∧ ofBe (p.take 2) = (utf8 name).length ∧
      ¬ align (2 + (utf8 name).length + 1) > p.length ∧
      (p.drop 2).take (utf8 name).length = utf8 name ∧
      p.drop (align (2 + (utf8 name).length + 1)) = d := by
  intro p
  have hal := le_align (2 + (utf8 name).length + 1)
  have hlen : p.length = _ := length_blobmsgPayload name d
  have htwo : (beBytes 2 (utf8 name).length).length = 2 := length_beBytes 2 _
  have hp : p = beBytes 2 (utf8 name).length ++ (utf8 name ++ (List.replicate
      (align (2 + (utf8 name).length + 1) - (beBytes 2 (utf8 name).length ++ utf8 name).length) 0 ++
        d)) := by
    simp only [p, blobmsgPayload, List.append_assoc]
  refine ⟨by omega, ?_, by omega, ?_, ?_⟩
  · rw [hp, List.take_left' htwo, ofBe_beBytes, Nat.mod_eq_of_lt (by omega)]
  · rw [hp, List.drop_left' htwo, List.take_left]
  · refine List.drop_left' ?_
    simp only [List.length_append, length_beBytes, List.length_replicate]
    omega

theorem decodeAt_scalar (levels : Nat) (hname : (utf8 name).length ≤ 65535) {v : Value}
    (harr : ty ≠ .array) (htab : ty ≠ .table) (hv : scalarOf ty data = .ok v) :
    decodeAt levels (fieldOf ty name data) = .ok (name, v) := by
  obtain ⟨hthree, hlen, hhdr, htake, hdrop⟩ := blobmsgPayload_spec (d := data) hname
  rw [decodeAt]
  simp only [fieldOf, hlen, htake, hdrop, if_neg hthree, if_neg hhdr, Bool.true_eq_false,
    if_false, BlobmsgType.ofId_id, fromUtf8Lossy_utf8]
  cases ty with
  | array => exact absurd rfl harr
  | table => exact absurd rfl htab
  | _ => simp only [hv]

theorem decodeAt_array (levels : Nat) (hname : (utf8 name).length ≤ 65535) {as : List Attr}
    {items : List Value} (has : parseAttrs data = .ok as)
    (hitems : itemsOf (decodeAt levels) as = .ok items) :
    decodeAt (levels + 1) (fieldOf .array name data) = .ok (name, .arr items) := by
  obtain ⟨hthree, hlen, hhdr, htake, hdrop⟩ := blobmsgPayload_spec (d := data) hname
  rw [decodeAt]
  simp only [fieldOf, hlen, htake, hdrop, if_neg hthree, if_neg hhdr, Bool.true_eq_false,
    if_false, BlobmsgType.ofId_id, fromUtf8Lossy_utf8, has, Except.bind, hitems]

theorem decodeAt_table (levels : Nat) (hname : (utf8 name).length ≤ 65535) {as : List Attr}
    {map : List (String × Value)} (has : parseAttrs data = .ok as)
    (hmap : membersOf (decodeAt levels) [] as = .ok map) :
    decodeAt (levels + 1) (fieldOf .table name data) = .ok (name, .obj map) := by
  obtain ⟨hthree, hlen, hhdr, htake, hdrop⟩ := blobmsgPayload_spec (d := data) hname
  rw [decodeAt]
  simp only [fieldOf, hlen, htake, hdrop, if_neg hthree, if_neg hhdr, Bool.true_eq_false,
    if_false, BlobmsgType.ofId_id, fromUtf8Lossy_utf8, has, Except.bind, hmap]

end Decode

/-! ### Numbers -/

theorem length_signedBytes (n : Nat) (i : Int) : (signedBytes n i).length = n := length_beBytes ..

/-- A number in two's complement is read back with its sign. -/
theorem bmod_signedBytes {n : Nat} {i : Int} (hlo : -(256 ^ n : Nat) ≤ i * 2)
    (hhi : i * 2 < (256 ^ n : Nat)) : Int.bmod (ofBe (signedBytes n i)) (256 ^ n) = i := by
  have hpos : (0 : Int) < (256 ^ n : Nat) := by exact_mod_cast Nat.pow_pos (by decide)
  have hnonneg : 0 ≤ i % (256 ^ n : Nat) := Int.emod_nonneg i hpos.ne'
  have hlt : (i % (256 ^ n : Nat)).toNat < 256 ^ n := by
    have := Int.emod_lt_of_pos i hpos
    omega
  rw [signedBytes, ofBe_beBytes, Nat.mod_eq_of_lt hlt, Int.toNat_of_nonneg hnonneg,
    Int.emod_bmod, Int.bmod_eq_of_le_mul_two hlo hhi]

/-! ### Values that survive -/

mutual

/-- How many arrays and objects are inside each other. -/
def nesting : Value → Nat
  | .arr items => 1 + nestingItems items
  | .obj map => 1 + nestingMembers map
  | _ => 0

def nestingItems : List Value → Nat
  | [] => 0
  | v :: vs => max (nesting v) (nestingItems vs)

def nestingMembers : List (String × Value) → Nat
  | [] => 0
  | (_, v) :: map => max (nesting v) (nestingMembers map)

end

mutual

/-- The bytes of the data of a field, without header and name. -/
def dataLen : Value → Nat
  | .null => 0
  | .bool _ => 1
  | .num (.int i) => if inI32 i then 4 else 8
  | .num (.float _) => 8
  | .str s => (utf8 s).length + 1
  | .arr items => itemsLen items
  | .obj map => membersLen map

def itemsLen : List Value → Nat
  | [] => 0
  | v :: vs => align (BLOB_HDR_LEN + (align (2 + (utf8 "").length + 1) + dataLen v)) + itemsLen vs

def membersLen : List (String × Value) → Nat
  | [] => 0
  | (k, v) :: map =>
      align (BLOB_HDR_LEN + (align (2 + (utf8 k).length + 1) + dataLen v)) + membersLen map

end

/-- The length that the header of a field gives. -/
def fieldLen (name : String) (v : Value) : Nat :=
  BLOB_HDR_LEN + (align (2 + (utf8 name).length + 1) + dataLen v)

/-- The names of a `Map` are in strictly increasing order. -/
def keyed (map : List (String × Value)) : Bool := decide (map.Pairwise fun a b => a.1 < b.1)

mutual

/-- Integers are within `i64`, doubles finite, strings without NUL, names of at most
    65535 bytes. -/
def storable : Value → Bool
  | .null => true
  | .bool _ => true
  | .num (.int i) => inI64 i
  | .num (.float bits) => isFinite bits.toNat
  | .str s => !(utf8 s).contains 0
  | .arr items => storableItems items
  | .obj map => keyed map && storableMembers map

def storableItems : List Value → Bool
  | [] => true
  | v :: vs => storable v && storableItems vs

def storableMembers : List (String × Value) → Bool
  | [] => true
  | (k, v) :: map => decide ((utf8 k).length ≤ 65535) && storable v && storableMembers map

end

/-! ### Encoder and decoder meet -/

theorem insertMember_last {k : String} {v : Value} {m : List (String × Value)}
    (h : ∀ p ∈ m, p.1 < k) : insertMember k v m = m ++ [(k, v)] := by
  induction m with
  | nil => rfl
  | cons p m ih =>
    obtain ⟨l, w⟩ := p
    have hlt : l < k := h (l, w) List.mem_cons_self
    rw [insertMember, if_neg (String.lt_asymm hlt), if_neg (String.ne_of_lt hlt).symm,
      ih fun p hp => h p (List.mem_cons_of_mem _ hp)]
    rfl

/-- A field that decodes to its value. -/
def Decodes (levels : Nat) (name : String) (v : Value) (a : Attr) : Prop :=
  Fits a ∧ (attrBytes a).length = align (fieldLen name v) ∧ decodeAt levels a = .ok (name, v)

/-- A scalar is written as one field, and decodes to itself. -/
theorem decodes_scalar {ty : BlobmsgType} {name : String} {v : Value} {data : List UInt8}
    (levels : Nat) (hname : (utf8 name).length ≤ 65535)
    (hfit : fieldLen name v ≤ BLOB_ATTR_LEN_MASK) (hlen : data.length = dataLen v)
    (harr : ty ≠ .array) (htab : ty ≠ .table) (hv : scalarOf ty data = .ok v)
    (out : List UInt8) :
    ∃ a, blobmsgPutRaw out ty name data = some (out ++ attrBytes a) ∧ Decodes levels name v a := by
  rw [fieldLen, ← hlen] at hfit
  obtain ⟨hfits, hput⟩ := blobmsgPutRaw_eq ty hfit out
  refine ⟨_, hput, hfits, ?_, decodeAt_scalar levels hname harr htab hv⟩
  rw [length_attrBytes, fieldOf, length_blobmsgPayload, fieldLen, hlen]

/-- Integers take four bytes if they can. -/
theorem decodes_int {i : Int} (levels : Nat) {name : String} (hi : inI64 i = true)
    (hname : (utf8 name).length ≤ 65535)
    (hfit : fieldLen name (.num (.int i)) ≤ BLOB_ATTR_LEN_MASK) (out : List UInt8) :
    ∃ a, blobmsgPutJson out name (.num (.int i)) = some (out ++ attrBytes a) ∧
      Decodes levels name (.num (.int i)) a := by
  have hlen : dataLen (.num (.int i)) = if inI32 i then 4 else 8 := by rw [dataLen]
  rw [blobmsgPutJson, if_pos hi]
  split
  · rename_i hsmall
    rw [if_pos hsmall] at hlen
    simp only [inI32, Bool.and_eq_true, decide_eq_true_eq] at hsmall
    refine decodes_scalar levels hname hfit (by rw [length_signedBytes, hlen]) (by decide)
      (by decide) ?_ out
    have hback : Int.bmod (ofBe (signedBytes 4 i)) (2 ^ 32) = i :=
      bmod_signedBytes (n := 4) (by norm_num; omega) (by norm_num; omega)
    simp only [scalarOf, hback, length_signedBytes, if_true]
  · rename_i hbig
    rw [if_neg hbig] at hlen
    simp only [inI64, Bool.and_eq_true, decide_eq_true_eq] at hi
    refine decodes_scalar levels hname hfit (by rw [length_signedBytes, hlen]) (by decide)
      (by decide) ?_ out
    have hback : Int.bmod (ofBe (signedBytes 8 i)) (2 ^ 64) = i :=
      bmod_signedBytes (n := 8) (by norm_num; omega) (by norm_num; omega)
    simp only [scalarOf, hback, length_signedBytes, if_true]

/-- An object is written as one field around those of its members. -/
theorem decodes_table {map : List (String × Value)} {levels : Nat} {name : String}
    {inner : List UInt8} {as : List Attr} (hname : (utf8 name).length ≤ 65535)
    (hfit : fieldLen name (.obj map) ≤ BLOB_ATTR_LEN_MASK)
    (hput : putMembers [] map = some inner) (hlen : inner.length = membersLen map)
    (has : parseAttrs inner = .ok as) (hmap : membersOf (decodeAt levels) [] as = .ok map)
    (out : List UInt8) :
    ∃ a, blobmsgPutJson out name (.obj map) = some (out ++ attrBytes a) ∧
      Decodes (levels + 1) name (.obj map) a := by
  rw [fieldLen, dataLen, ← hlen] at hfit
  obtain ⟨hfits, hraw⟩ := blobmsgPutRaw_eq .table hfit out
  rw [blobmsgPutJson, hput, Option.bind_some, hraw]
  refine ⟨fieldOf .table name inner, rfl, hfits, ?_, decodeAt_table levels hname has hmap⟩
  rw [length_attrBytes, fieldOf, length_blobmsgPayload, fieldLen, dataLen, ← hlen]

theorem decodes_array {items : List Value} {levels : Nat} {name : String}
    {inner : List UInt8} {as : List Attr} (hname : (utf8 name).length ≤ 65535)
    (hfit : fieldLen name (.arr items) ≤ BLOB_ATTR_LEN_MASK)
    (hput : putItems [] items = some inner) (hlen : inner.length = itemsLen items)
    (has : parseAttrs inner = .ok as) (hitems : itemsOf (decodeAt levels) as = .ok items)
    (out : List UInt8) :
    ∃ a, blobmsgPutJson out name (.arr items) = some (out ++ attrBytes a) ∧
      Decodes (levels + 1) name (.arr items) a := by
  rw [fieldLen, dataLen, ← hlen] at hfit
  obtain ⟨hfits, hraw⟩ := blobmsgPutRaw_eq .array hfit out
  rw [blobmsgPutJson, hput, Option.bind_some, hraw]
  refine ⟨fieldOf .array name inner, rfl, hfits, ?_, decodeAt_array levels hname has hitems⟩
  rw [length_attrBytes, fieldOf, length_blobmsgPayload, fieldLen, dataLen, ← hlen]

theorem keyed_iff {map : List (String × Value)} :
    keyed map = true ↔ map.Pairwise fun a b => a.1 < b.1 := by
  rw [keyed, decide_eq_true_iff]

theorem takeWhile_utf8 {s : String} (h : (utf8 s).contains 0 = false) :
    (utf8 s ++ [0]).takeWhile (· ≠ 0) = utf8 s := by
  rw [List.takeWhile_append_of_pos]
  · simp
  · intro b hb
    refine decide_eq_true fun hzero => ?_
    rw [hzero] at hb
    rw [List.contains_iff_mem.mpr hb] at h
    cases h

theorem fieldLen_le_itemsLen {items : List Value} {v : Value} (h : v ∈ items) :
    fieldLen "" v ≤ itemsLen items := by
  induction items with
  | nil => cases h
  | cons w items ih =>
    rw [itemsLen]
    rcases List.mem_cons.mp h with rfl | h
    · exact (le_align _).trans (Nat.le_add_right _ _)
    · exact (ih h).trans (Nat.le_add_left _ _)

theorem fieldLen_le_membersLen {map : List (String × Value)} {p : String × Value} (h : p ∈ map) :
    fieldLen p.1 p.2 ≤ membersLen map := by
  induction map with
  | nil => cases h
  | cons q map ih =>
    obtain ⟨l, w⟩ := q
    rw [membersLen]
    rcases List.mem_cons.mp h with rfl | h
    · exact (le_align _).trans (Nat.le_add_right _ _)
    · exact (ih h).trans (Nat.le_add_left _ _)

mutual

/-- The field of a value decodes to it. -/
theorem decodes_value : ∀ (v : Value) (levels : Nat) (name : String) (out : List UInt8),
    storable v = true → nesting v ≤ levels → (utf8 name).length ≤ 65535 →
      fieldLen name v ≤ BLOB_ATTR_LEN_MASK →
      ∃ a, blobmsgPutJson out name v = some (out ++ attrBytes a) ∧ Decodes levels name v a
  | .null, levels, name, out, _, _, hname, hfit => by
      rw [blobmsgPutJson]
      exact decodes_scalar levels hname hfit (by rw [dataLen]; rfl) (by decide) (by decide) rfl out
  | .bool b, levels, name, out, _, _, hname, hfit => by
      rw [blobmsgPutJson]
      refine decodes_scalar levels hname hfit (by rw [dataLen]; rfl) (by decide) (by decide) ?_ out
      cases b <;> rfl
  | .num (.int i), levels, name, out, hs, _, hname, hfit => by
      rw [storable] at hs
      exact decodes_int levels hs hname hfit out
  | .num (.float bits), levels, name, out, hs, _, hname, hfit => by
      rw [storable] at hs
      rw [blobmsgPutJson]
      refine decodes_scalar levels hname hfit (by rw [dataLen, length_beBytes]) (by decide)
        (by decide) ?_ out
      have hback : ofBe (beBytes 8 bits.toNat) = bits.toNat := by
        rw [ofBe_beBytes]
        exact Nat.mod_eq_of_lt bits.toNat_lt
      simp only [scalarOf, hback, length_beBytes, if_true, hs, UInt64.ofNat_toNat]
  | .str s, levels, name, out, hs, _, hname, hfit => by
      rw [storable, Bool.not_eq_true'] at hs
      rw [blobmsgPutJson]
      refine decodes_scalar levels hname hfit (by rw [dataLen]; simp) (by decide) (by decide) ?_
        out
      simp only [scalarOf, takeWhile_utf8 hs, fromUtf8Lossy_utf8]
  | .arr items, levels, name, out, hs, hn, hname, hfit => by
      rw [storable] at hs
      rw [nesting] at hn
      obtain ⟨levels, rfl⟩ : ∃ n, levels = n + 1 := ⟨levels - 1, by omega⟩
      have hle : itemsLen items ≤ fieldLen name (.arr items) := by
        rw [fieldLen, dataLen]
        omega
      obtain ⟨inner, as, hput, hlen, has, hitems⟩ := decodes_items items levels [] hs (by omega)
        fun v hv => (fieldLen_le_itemsLen hv).trans (hle.trans hfit)
      exact decodes_array hname hfit hput hlen has hitems out
  | .obj map, levels, name, out, hs, hn, hname, hfit => by
      rw [storable, Bool.and_eq_true] at hs
      rw [nesting] at hn
      obtain ⟨levels, rfl⟩ : ∃ n, levels = n + 1 := ⟨levels - 1, by omega⟩
      have hle : membersLen map ≤ fieldLen name (.obj map) := by
        rw [fieldLen, dataLen]
        omega
      obtain ⟨inner, as, hput, hlen, has, hmap⟩ := decodes_members map levels [] hs.2
        (keyed_iff.mp hs.1) (by omega) fun p hp =>
          (fieldLen_le_membersLen hp).trans (hle.trans hfit)
      have hmap := hmap [] fun p hp => absurd hp List.not_mem_nil
      rw [List.nil_append] at hmap
      exact decodes_table hname hfit hput hlen has hmap out

theorem decodes_items : ∀ (items : List Value) (levels : Nat) (out : List UInt8),
    storableItems items = true → nestingItems items ≤ levels →
      (∀ v ∈ items, fieldLen "" v ≤ BLOB_ATTR_LEN_MASK) →
      ∃ inner as, putItems out items = some (out ++ inner) ∧ inner.length = itemsLen items ∧
        parseAttrs inner = .ok as ∧ itemsOf (decodeAt levels) as = .ok items
  | [], levels, out, _, _, _ => by
      exact ⟨[], [], by rw [putItems, List.append_nil], by rw [itemsLen]; rfl, parseAttrs_nil, rfl⟩
  | v :: items, levels, out, hs, hn, hfit => by
      rw [storableItems, Bool.and_eq_true] at hs
      rw [nestingItems] at hn
      obtain ⟨a, hput, hfits, hlen, hdec⟩ := decodes_value v levels "" out hs.1 (by omega)
        (by decide) (hfit v List.mem_cons_self)
      obtain ⟨inner, as, hputs, hlens, has, hitems⟩ := decodes_items items levels
        (out ++ attrBytes a) hs.2 (by omega) fun w hw => hfit w (List.mem_cons_of_mem _ hw)
      refine ⟨attrBytes a ++ inner, a :: as, ?_, ?_, parseAttrs_append hfits has, ?_⟩
      · rw [putItems, hput, ← List.append_assoc]
        exact hputs
      · rw [List.length_append, hlen, hlens, itemsLen, fieldLen]
      · simp only [itemsOf, hdec, hitems]

theorem decodes_members : ∀ (map : List (String × Value)) (levels : Nat) (out : List UInt8),
    storableMembers map = true → map.Pairwise (fun a b => a.1 < b.1) →
      nestingMembers map ≤ levels → (∀ p ∈ map, fieldLen p.1 p.2 ≤ BLOB_ATTR_LEN_MASK) →
      ∃ inner as, putMembers out map = some (out ++ inner) ∧ inner.length = membersLen map ∧
        parseAttrs inner = .ok as ∧
        ∀ m : List (String × Value), (∀ p ∈ m, ∀ q ∈ map, p.1 < q.1) →
          membersOf (decodeAt levels) m as = .ok (m ++ map)
  | [], levels, out, _, _, _, _ => by
      exact ⟨[], [], by rw [putMembers, List.append_nil], by rw [membersLen]; rfl, parseAttrs_nil,
        fun m _ => by rw [membersOf, List.append_nil]⟩
  | (k, v) :: map, levels, out, hs, hkeys, hn, hfit => by
      rw [storableMembers, Bool.and_eq_true, Bool.and_eq_true] at hs
      rw [nestingMembers] at hn
      rw [List.pairwise_cons] at hkeys
      obtain ⟨a, hput, hfits, hlen, hdec⟩ := decodes_value v levels k out hs.1.2 (by omega)
        (of_decide_eq_true hs.1.1) (hfit (k, v) List.mem_cons_self)
      obtain ⟨inner, as, hputs, hlens, has, hmap⟩ := decodes_members map levels
        (out ++ attrBytes a) hs.2 hkeys.2 (by omega) fun p hp => hfit p (List.mem_cons_of_mem _ hp)
      refine ⟨attrBytes a ++ inner, a :: as, ?_, ?_, parseAttrs_append hfits has, fun m hm => ?_⟩
      · rw [putMembers, hput, ← List.append_assoc]
        exact hputs
      · rw [List.length_append, hlen, hlens, membersLen, fieldLen]
      · -- the names come in order, so each goes to the end
        have hlast : insertMember k v m = m ++ [(k, v)] :=
          insertMember_last fun p hp => hm p hp (k, v) List.mem_cons_self
        have hlt : ∀ p ∈ m ++ [(k, v)], ∀ q ∈ map, p.1 < q.1 := by
          intro p hp q hq
          rcases List.mem_append.mp hp with hp | hp
          · exact hm p hp q (List.mem_cons_of_mem _ hq)
          · rw [List.mem_singleton.mp hp]
            exact hkeys.1 q hq
        simp only [membersOf, hdec, hlast]
        rw [hmap (m ++ [(k, v)]) hlt, List.append_assoc]
        rfl

end

/-- **blobmsg round trip.**  An object is encoded and decoded to itself if its arrays and
    objects are nested at most 32 deep and every attribute fits the 24-bit length; it is
    enough to say that of the outermost ones. -/
theorem blobmsgObject_blobmsgTable (m : List (String × Value)) (hkeys : keyed m = true)
    (hs : storableMembers m = true) (hn : nestingMembers m ≤ 32)
    (hfit : ∀ p ∈ m, fieldLen p.1 p.2 ≤ BLOB_ATTR_LEN_MASK) :
    ∃ bytes, blobmsgTable m = some bytes ∧ bytes.length = membersLen m ∧
      blobmsgObject bytes = .ok m := by
  obtain ⟨bytes, as, hput, hlen, has, hmap⟩ :=
    decodes_members m MAX_DEPTH [] hs (keyed_iff.mp hkeys) hn hfit
  refine ⟨bytes, hput, hlen, ?_⟩
  rw [blobmsgObject, objectAt, has]
  exact hmap [] fun p hp => absurd hp List.not_mem_nil

/-- Values of every kind. -/
def pageArgs : List (String × Value) :=
  [("data_per_page", .num (.int 100)),
    ("mem_store", .obj [("all", .bool true), ("ids", .arr [.num (.int (-1)), .str "é", .null])]),
    ("page", .num (.int 4294967296)), ("weight", .num (.float 0x3ff8000000000000))]

theorem blobmsgObject_blobmsgTable_page :
    ∃ bytes, blobmsgTable pageArgs = some bytes ∧ blobmsgObject bytes = .ok pageArgs := by
  obtain ⟨bytes, hbytes, -, hback⟩ := blobmsgObject_blobmsgTable pageArgs
    (by decide +kernel) (by decide +kernel) (by decide +kernel) (by decide +kernel)
  exact ⟨bytes, hbytes, hback⟩

end Ubus

end Datad
