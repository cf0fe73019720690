/-
  Datad/Ubus/Blob.lean
  ====================
  **blobmsg** (`rust/src/ubus/blob.rs`): the arguments and replies of ubus calls on the
  wire.

  A blob attribute is a 4-byte header, with a type and the length of header and payload,
  and the payload, padded to a multiple of four bytes.  A blobmsg field is an attribute
  whose payload begins with the name of the field.  Arrays and objects hold the fields
  of their items, unpadded in their length.  The encoder stops the program if a length
  exceeds its 24 bits (`none`).
-/
import Datad.Json
import Datad.Lib.Bytes

namespace Datad

namespace Ubus

open Bytes

/-! ### Attributes -/

def BLOB_ATTR_ID_SHIFT : Nat := 24
def BLOB_ATTR_LEN_MASK : Nat := 0x00ffffff
def BLOB_ATTR_EXTENDED : Nat := 0x80000000
def BLOB_ATTR_ALIGN : Nat := 4
def BLOB_HDR_LEN : Nat := 4

def align (n : Nat) : Nat := (n + BLOB_ATTR_ALIGN - 1) / BLOB_ATTR_ALIGN * BLOB_ATTR_ALIGN

structure Attr where
  id : Nat
  extended : Bool
  data : List UInt8
deriving DecidableEq, Repr

/-- The attributes that follow one another in a buffer.  The last one may lack its
    padding. -/
def parseAttrs (rest : List UInt8) : Except String (List Attr) :=
  if rest.length = 0 then .ok []
  else if rest.length < BLOB_HDR_LEN then .error "truncated blob attribute header"
  else
    let idLen := ofBe (rest.take BLOB_HDR_LEN)
    let rawLen := idLen % (BLOB_ATTR_LEN_MASK + 1)
    if rawLen < BLOB_HDR_LEN then .error "blob attribute shorter than its header"
    else if rawLen > rest.length then .error "blob attribute longer than its container"
    else
      let a : Attr :=
        { id := idLen / 2 ^ BLOB_ATTR_ID_SHIFT % 128
          extended := decide (BLOB_ATTR_EXTENDED ≤ idLen)
          data := (rest.take rawLen).drop BLOB_HDR_LEN }
      match parseAttrs (rest.drop (min (align rawLen) rest.length)) with
      | .error e => .error e
      | .ok out => .ok (a :: out)
termination_by rest.length
decreasing_by
  rename_i hne _ hlen _
  have hraw : 0 < align rawLen := by
    simp only [BLOB_HDR_LEN] at hlen
    simp only [align, BLOB_ATTR_ALIGN]
    omega
  have hpos : 0 < rest.length := Nat.pos_of_ne_zero hne
  have hmin : 0 < min (align rawLen) rest.length := lt_min hraw hpos
  rw [List.length_drop]
  exact Nat.sub_lt hpos hmin

/-- Append an attribute.  The lengths are cast to `u32` before they are compared. -/
def putAttr (out : List UInt8) (id : Nat) (extended : Bool) (payload : List UInt8) :
    Option (List UInt8) :=
  let rawLen := BLOB_HDR_LEN + payload.length
  if rawLen % 2 ^ 32 ≤ BLOB_ATTR_LEN_MASK ∧ id ≤ 0x7f then
    let idLen := id * 2 ^ BLOB_ATTR_ID_SHIFT + rawLen % 2 ^ 32 +
      if extended then BLOB_ATTR_EXTENDED else 0
    some (out ++ (beBytes 4 idLen ++ payload ++ List.replicate (align rawLen - rawLen) 0))
  else none

/-! ### Fields -/

inductive BlobmsgType where
  | unspec | array | table | string | int64 | int32 | int16 | int8 | double
deriving DecidableEq, Repr

namespace BlobmsgType

def id : BlobmsgType → Nat
  | unspec => 0
  | array => 1
  | table => 2
  | string => 3
  | int64 => 4
  | int32 => 5
  | int16 => 6
  | int8 => 7
  | double => 8

def ofId : Nat → Option BlobmsgType
  | 0 => some unspec
  | 1 => some array
  | 2 => some table
  | 3 => some string
  | 4 => some int64
  | 5 => some int32
  | 6 => some int16
  | 7 => some int8
  | 8 => some double
  | _ => none

theorem ofId_id (ty : BlobmsgType) : ofId ty.id = some ty := by
  cases ty <;> rfl

end BlobmsgType

def blobmsgPayload (name : String) (data : List UInt8) : List UInt8 :=
  let name := utf8 name
  let hdrlen := align (2 + name.length + 1)
  let header := beBytes 2 name.length ++ name
  header ++ List.replicate (hdrlen - header.length) 0 ++ data

def blobmsgPutRaw (out : List UInt8) (ty : BlobmsgType) (name : String) (data : List UInt8) :
    Option (List UInt8) :=
  putAttr out ty.id true (blobmsgPayload name data)

/-- The bit pattern of the double nearest to a number of 64 bits whose highest is set,
    ties to even. -/
def doubleOfU64 (n : Nat) : Nat :=
  let q := n / 2 ^ 11
  let r := n % 2 ^ 11
  let q := if r > 2 ^ 10 ∨ r = 2 ^ 10 ∧ q % 2 = 1 then q + 1 else q
  1086 * 2 ^ 52 + (q - 2 ^ 52)

def inI32 (i : Int) : Bool := decide (-2 ^ 31 ≤ i) && decide (i < 2 ^ 31)
def inI64 (i : Int) : Bool := decide (-2 ^ 63 ≤ i) && decide (i < 2 ^ 63)

/-- A signed number of `n` bytes, in two's complement. -/
def signedBytes (n : Nat) (i : Int) : List UInt8 := beBytes n (i % (256 ^ n : Nat)).toNat

mutual

/-- Append a field with this name and value. -/
def blobmsgPutJson : List UInt8 → String → Value → Option (List UInt8)
  | out, name, .null => blobmsgPutRaw out .unspec name []
  | out, name, .bool b => blobmsgPutRaw out .int8 name [if b then 1 else 0]
  | out, name, .num (.int i) =>
      if inI64 i then
        if inI32 i then blobmsgPutRaw out .int32 name (signedBytes 4 i)
        else blobmsgPutRaw out .int64 name (signedBytes 8 i)
      else blobmsgPutRaw out .double name (beBytes 8 (doubleOfU64 i.toNat))
  | out, name, .num (.float bits) => blobmsgPutRaw out .double name (beBytes 8 bits.toNat)
  | out, name, .str s => blobmsgPutRaw out .string name (utf8 s ++ [0])
  | out, name, .arr items =>
      (putItems [] items).bind fun inner => blobmsgPutRaw out .array name inner
  | out, name, .obj map =>
      (putMembers [] map).bind fun inner => blobmsgPutRaw out .table name inner

def putItems : List UInt8 → List Value → Option (List UInt8)
  | out, [] => some out
  | out, item :: items => (blobmsgPutJson out "" item).bind fun out => putItems out items

def putMembers : List UInt8 → List (String × Value) → Option (List UInt8)
  | out, [] => some out
  | out, (k, v) :: map => (blobmsgPutJson out k v).bind fun out => putMembers out map

end

/-- The fields of an object one after another, without a header of its own. -/
def blobmsgTable (map : List (String × Value)) : Option (List UInt8) := putMembers [] map

/-! ### Decoding -/

/-- `Map::insert`: the members stay in the order of their names. -/
def insertMember (k : String) (v : Value) : List (String × Value) → List (String × Value)
  | [] => [(k, v)]
  | (l, w) :: map =>
      if k < l then (k, v) :: (l, w) :: map
      else if k = l then (k, v) :: map
      else (l, w) :: insertMember k v map

def membersOf (decode : Attr → Except String (String × Value)) :
    List (String × Value) → List Attr → Except String (List (String × Value))
  | m, [] => .ok m
  | m, a :: as =>
      match decode a with
      | .error e => .error e
      | .ok (k, v) => membersOf decode (insertMember k v m) as

def itemsOf (decode : Attr → Except String (String × Value)) :
    List Attr → Except String (List Value)
  | [] => .ok []
  | a :: as =>
      match decode a with
      | .error e => .error e
      | .ok (_, v) =>
          match itemsOf decode as with
          | .error e => .error e
          | .ok vs => .ok (v :: vs)

def isFinite (bits : Nat) : Bool := decide (bits / 2 ^ 52 % 2048 ≠ 2047)

/-- The value of a field that holds no others. -/
def scalarOf (ty : BlobmsgType) (d : List UInt8) : Except String Value :=
  let fixed (n : Nat) (v : Value) : Except String Value :=
    if d.length = n then .ok v
    else .error s!"blobmsg type {ty.id} has wrong length {d.length}"
  match ty with
  | .string => .ok (.str (fromUtf8Lossy (d.takeWhile (· ≠ 0))))
  | .int64 => fixed 8 (.num (.int (Int.bmod (ofBe d) (2 ^ 64))))
  | .int32 => fixed 4 (.num (.int (Int.bmod (ofBe d) (2 ^ 32))))
  | .int16 => fixed 2 (.num (.int (Int.bmod (ofBe d) (2 ^ 16))))
  | .int8 => fixed 1 (.bool (decide (d.head? ≠ some 0)))
  | .double =>
      fixed 8 (if isFinite (ofBe d) then .num (.float (UInt64.ofNat (ofBe d))) else .null)
  | .unspec | .array | .table => .ok .null

def MAX_DEPTH : Nat := 32

/-- Name and value of a field, with `levels` more levels of arrays and objects allowed
    in it: `MAX_DEPTH` less the number of those around it. -/
def decodeAt (levels : Nat) (a : Attr) : Except String (String × Value) :=
  if a.extended = false then .error "blobmsg attribute without the extended bit"
  else if a.data.length < 3 then .error "truncated blobmsg header"
  else
    let namelen := ofBe (a.data.take 2)
    let hdrlen := align (2 + namelen + 1)
    if hdrlen > a.data.length then .error "blobmsg name longer than attribute"
    else
      let name := fromUtf8Lossy ((a.data.drop 2).take namelen)
      let d := a.data.drop hdrlen
      match BlobmsgType.ofId a.id, levels with
      | none, _ => .error s!"unknown blobmsg type {a.id}"
      | some .array, 0 | some .table, 0 => .error s!"blobmsg nested deeper than {MAX_DEPTH}"
      | some .array, levels + 1 =>
          match (parseAttrs d).bind (itemsOf (decodeAt levels)) with
          | .error e => .error e
          | .ok items => .ok (name, .arr items)
      | some .table, levels + 1 =>
          match (parseAttrs d).bind (membersOf (decodeAt levels) []) with
          | .error e => .error e
          | .ok map => .ok (name, .obj map)
      | some ty, _ =>
          match scalarOf ty d with
          | .error e => .error e
          | .ok v => .ok (name, v)

def objectAt (buf : List UInt8) (levels : Nat) : Except String (List (String × Value)) :=
  (parseAttrs buf).bind (membersOf (decodeAt levels) [])

def blobmsgObject (buf : List UInt8) : Except String (List (String × Value)) :=
  objectAt buf MAX_DEPTH

end Ubus

end Datad
