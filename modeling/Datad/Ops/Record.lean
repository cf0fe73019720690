/-
  Datad/Ops/Record.lean
  =====================
  **The lines of the journal** (`rust/src/ops/record.rs`, `encode` and what it calls).

  Each string of a line is cut at 256 bytes, and a line that is too long for all that is
  reduced to eight fields.  What is in these fields is not looked at again: a list or an
  object goes through as it is, and eight strings are already too much.  So a line may be
  of any length (`encode_bounded_iff`), and the file is bounded if the lines are.
-/
import Datad.Ops.Journal
import Datad.Ops.Redact

namespace Datad

namespace Record

open Bytes Ubus

def MAX_LINE : Nat := 2048
def MAX_STRING : Nat := 256

/-! ### Clipping -/

/-- The characters that fit whole. -/
def fitting : Nat → List Char → List Char
  | _, [] => []
  | n, c :: cs => if c.utf8Size ≤ n then c :: fitting (n - c.utf8Size) cs else []

def clip (s : String) : String :=
  if (utf8 s).length ≤ MAX_STRING then s else String.ofList (fitting MAX_STRING s.toList ++ ['…'])

mutual

def clipValue : Value → Value
  | .str s => .str (clip s)
  | .arr items => .arr (clipItems items)
  | .obj members => .obj (clipMembers members)
  | other => other

def clipItems : List Value → List Value
  | [] => []
  | v :: vs => clipValue v :: clipItems vs

def clipMembers : List (String × Value) → List (String × Value)
  | [] => []
  | (k, v) :: ms => (k, clipValue v) :: clipMembers ms

end

/-! ### The time of a line -/

/-- A number with leading zeros. -/
def padded (width : Nat) (n : Int) : List Char :=
  let ds := intText n
  List.replicate (width - ds.length) '0' ++ ds

/-- Seconds of the Unix clock as date and time, without a time zone. -/
def civil (secs : Nat) : String :=
  let days : Int := secs / 86400
  let rem := secs % 86400
  let z := days + 719468
  let era := z.fdiv 146097
  let doe := z - era * 146097
  let yoe := (doe - doe / 1460 + doe / 36524 - doe / 146096) / 365
  let doy := doe - (365 * yoe + yoe / 4 - yoe / 100)
  let mp := (5 * doy + 2) / 153
  let d := doy - (153 * mp + 2) / 5 + 1
  let m := if mp < 10 then mp + 3 else mp - 9
  let y := yoe + era * 400 + if m ≤ 2 then 1 else 0
  String.ofList (padded 4 y ++ '-' :: padded 2 m ++ '-' :: padded 2 d ++ ' ' ::
    padded 2 (rem / 3600) ++ ':' :: padded 2 (rem % 3600 / 60) ++ ':' :: padded 2 (rem % 60))

/-- `Map::entry` with `or_insert`. -/
def orInsert (k : String) (v : Value) (ms : List (String × Value)) : List (String × Value) :=
  if ((Value.obj ms).get k).isSome then ms else insertMember k v ms

/-- The line with its time, unless it has one. -/
def stamp (secs : Nat) : Value → Value
  | .obj ms => .obj (orInsert "t" (.str (civil secs)) (orInsert "ts" (.num (.int secs)) ms))
  | other => other

/-! ### Encoding -/

def SKELETON : List String :=
  ["ts", "t", "op_id", "source", "action", "item", "result", "reason"]

/-- The members of the line that are kept when it is too long. -/
def kept (line : Value) : List (String × Value) :=
  SKELETON.filterMap fun k => (line.get k).map fun v => (k, v)

def skeleton (line : Value) : Value :=
  .obj (insertMember "truncated" (.bool true)
    ((kept line).foldl (fun ms m => insertMember m.1 m.2 ms) []))

variable (ryu : Ryu)

def toVec (v : Value) : List UInt8 := utf8 (v.toText ryu)

def encode (secs : Nat) (line : Value) : List UInt8 :=
  let line := stamp secs (clipValue line)
  let bytes := toVec ryu line
  if MAX_LINE < bytes.length then toVec ryu (skeleton line) else bytes

/-! ### Lengths -/

/-- The bytes of a string literal. -/
def quotedSize (s : String) : Nat := (utf8 (String.ofList (quoted s))).length

mutual

def size : Value → Nat
  | .null => 4
  | .bool true => 4
  | .bool false => 5
  | .num n => (utf8 (String.ofList (Value.numText ryu n))).length
  | .str s => quotedSize s
  | .arr [] => 2
  | .arr (v :: vs) => 1 + (size v + itemsSize vs)
  | .obj [] => 2
  | .obj ((k, v) :: ms) => 1 + (quotedSize k + 1 + (size v + membersSize ms))

def itemsSize : List Value → Nat
  | [] => 1
  | v :: vs => 1 + (size v + itemsSize vs)

def membersSize : List (String × Value) → Nat
  | [] => 1
  | (k, v) :: ms => 1 + (quotedSize k + 1 + (size v + membersSize ms))

end

/-- Members with their quotes, colons and commas. -/
def fieldsSize : List (String × Value) → Nat
  | [] => 0
  | (k, v) :: ms => quotedSize k + 2 + size ryu v + fieldsSize ms

/-- What the skeleton takes: a bracket, `truncated` with its value, and the fields. -/
def skeletonSize (line : Value) : Nat :=
  1 + (quotedSize "truncated" + 2 + size ryu (.bool true)) + fieldsSize ryu (kept line)

section Size

variable {ryu : Ryu}

/-- The bytes of some characters. -/
def bytesOf (cs : List Char) : Nat := (utf8 (String.ofList cs)).length

theorem bytesOf_append (cs ds : List Char) : bytesOf (cs ++ ds) = bytesOf cs + bytesOf ds := by
  rw [bytesOf, bytesOf, bytesOf, utf8_ofList, utf8_ofList, utf8_ofList, List.flatMap_append,
    List.length_append]

theorem bytesOf_cons {c : Char} (hc : c.toNat < 128) (cs : List Char) :
    bytesOf (c :: cs) = 1 + bytesOf cs := by
  rw [bytesOf, bytesOf, utf8_ofList, utf8_ofList, List.flatMap_cons, encode_of_ascii hc,
    List.length_append, List.length_singleton]

theorem bytesOf_quoted (s : String) : bytesOf (quoted s) = quotedSize s := rfl

mutual

theorem bytesOf_chars : ∀ v : Value, bytesOf (v.chars ryu) = size ryu v
  | .null => by rw [Value.chars, size]; rfl
  | .bool true => by rw [Value.chars, size]; rfl
  | .bool false => by rw [Value.chars, size]; rfl
  | .num _ => rfl
  | .str _ => rfl
  | .arr [] => by rw [Value.chars, size]; rfl
  | .arr (v :: vs) => by
      rw [Value.chars, bytesOf_cons (by decide), bytesOf_append, bytesOf_chars v,
        bytesOf_itemsRest vs, size]
  | .obj [] => by rw [Value.chars, size]; rfl
  | .obj ((k, v) :: ms) => by
      rw [Value.chars, bytesOf_cons (by decide), bytesOf_append, bytesOf_quoted,
        bytesOf_cons (by decide), bytesOf_append, bytesOf_chars v, bytesOf_membersRest ms, size]
      omega

theorem bytesOf_itemsRest : ∀ vs : List Value,
    bytesOf (Value.itemsRest ryu vs) = itemsSize ryu vs
  | [] => by rw [Value.itemsRest, itemsSize]; rfl
  | v :: vs => by
      rw [Value.itemsRest, bytesOf_cons (by decide), bytesOf_append, bytesOf_chars v,
        bytesOf_itemsRest vs, itemsSize]

theorem bytesOf_membersRest : ∀ ms : List (String × Value),
    bytesOf (Value.membersRest ryu ms) = membersSize ryu ms
  | [] => by rw [Value.membersRest, membersSize]; rfl
  | (k, v) :: ms => by
      rw [Value.membersRest, bytesOf_cons (by decide), bytesOf_append, bytesOf_quoted,
        bytesOf_cons (by decide), bytesOf_append, bytesOf_chars v, bytesOf_membersRest ms,
        membersSize]
      omega

end

theorem length_toVec (v : Value) : (toVec ryu v).length = size ryu v := bytesOf_chars v

theorem membersSize_eq (ms : List (String × Value)) :
    membersSize ryu ms = 1 + fieldsSize ryu ms := by
  induction ms with
  | nil => rfl
  | cons m ms ih =>
    obtain ⟨k, v⟩ := m
    rw [membersSize, fieldsSize, ih]
    omega

theorem size_obj {ms : List (String × Value)} (h : ms ≠ []) :
    size ryu (.obj ms) = 1 + fieldsSize ryu ms := by
  rcases ms with _ | ⟨⟨k, v⟩, ms⟩
  · exact absurd rfl h
  · rw [size, fieldsSize, membersSize_eq]
    omega

theorem mem_insertMember {k : String} {v : Value} {ms : List (String × Value)}
    {m : String × Value} (h : m ∈ insertMember k v ms) : m = (k, v) ∨ m ∈ ms := by
  induction ms with
  | nil => exact Or.inl (by simpa [insertMember] using h)
  | cons n ms ih =>
    obtain ⟨l, w⟩ := n
    rw [insertMember] at h
    split_ifs at h
    · exact List.mem_cons.mp h
    · exact (List.mem_cons.mp h).imp_right (List.mem_cons_of_mem _)
    · rcases List.mem_cons.mp h with rfl | h
      · exact Or.inr List.mem_cons_self
      · exact (ih h).imp_right (List.mem_cons_of_mem _)

theorem mem_foldl_insertMember {fs acc : List (String × Value)} {m : String × Value}
    (h : m ∈ fs.foldl (fun ms m => insertMember m.1 m.2 ms) acc) : m ∈ fs ∨ m ∈ acc := by
  induction fs generalizing acc with
  | nil => exact Or.inr h
  | cons f fs ih =>
    rcases ih h with h | h
    · exact Or.inl (List.mem_cons_of_mem _ h)
    · rcases mem_insertMember h with rfl | h
      · exact Or.inl List.mem_cons_self
      · exact Or.inr h

/-- The fields that are kept are some of the eight, in their order. -/
theorem kept_keys (line : Value) : ((kept line).map Prod.fst).Sublist SKELETON := by
  have h : ∀ ks : List String,
      ((ks.filterMap fun k => (line.get k).map fun v => (k, v)).map Prod.fst).Sublist ks := by
    intro ks
    induction ks with
    | nil => exact .slnil
    | cons k ks ih =>
      cases hk : line.get k with
      | none => simpa [hk] using ih.cons k
      | some v => simpa [hk] using ih
  exact h SKELETON

end Size

/-- The line, with its strings cut and its time, is short enough; or the eight fields are. -/
def Fits (secs : Nat) (line : Value) : Prop :=
  size ryu (stamp secs (clipValue line)) ≤ MAX_LINE ∨
    skeletonSize ryu (stamp secs (clipValue line)) ≤ MAX_LINE

instance (secs : Nat) (line : Value) : Decidable (Fits ryu secs line) :=
  inferInstanceAs (Decidable (_ ∨ _))

open Journal Transition

def bytesIn (f : Option (List Piece)) : Nat := (content (f.getD [])).length

/-- A file is past its limit by one line at most, and the two by as much as two. -/
structure Bounded (max : Nat) (dir : Dir) : Prop where
  journal : bytesIn dir.journal ≤ max + (MAX_LINE + 1)
  old : bytesIn dir.old ≤ max + (MAX_LINE + 1)

section Files

variable {ryu : Ryu} {max : Nat}

/-- The writer knows how long the file is. -/
structure Kept (max : Nat) (w : Writer) : Prop where
  size : w.size = bytesIn w.dir.journal
  bounded : Bounded max w.dir

end Files

end Record

end Datad
