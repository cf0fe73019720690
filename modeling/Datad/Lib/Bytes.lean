/-
  Datad/Lib/Bytes.lean
  ====================
  **Numbers and text as bytes.**

  Fixed-width big-endian numbers, and UTF-8 with the lossy decoder that puts U+FFFD in
  place of every sequence that is none.  What was encoded is decoded to itself.
-/
import Mathlib.Tactic.Ring
import Mathlib.Data.List.Basic

namespace Bytes

/-! ### Big-endian numbers -/

/-- The low `n` bytes of a number, the most significant first. -/
def beBytes : Nat → Nat → List UInt8
  | 0, _ => []
  | n + 1, v => UInt8.ofNat (v / 256 ^ n) :: beBytes n v

def ofBe (bs : List UInt8) : Nat := bs.foldl (fun v b => v * 256 + b.toNat) 0

@[simp] theorem length_beBytes (n v : Nat) : (beBytes n v).length = n := by
  induction n with
  | zero => rfl
  | succ n ih => rw [beBytes, List.length_cons, ih]

theorem foldl_beBytes (n v a : Nat) :
    (beBytes n v).foldl (fun v b => v * 256 + b.toNat) a = a * 256 ^ n + v % 256 ^ n := by
  induction n generalizing a with
  | zero => simp [beBytes, Nat.mod_one]
  | succ n ih =>
    have hsplit : v % 256 ^ (n + 1) = v % 256 ^ n + 256 ^ n * (v / 256 ^ n % 256) :=
      Nat.mod_pow_succ
    rw [beBytes, List.foldl_cons, ih, UInt8.toNat_ofNat', hsplit, Nat.pow_succ]
    ring

/-- Reading back what fits. -/
@[simp] theorem ofBe_beBytes (n v : Nat) : ofBe (beBytes n v) = v % 256 ^ n := by
  rw [ofBe, foldl_beBytes]
  simp

/-! ### UTF-8 -/

def utf8 (s : String) : List UInt8 := s.toList.flatMap String.utf8EncodeChar

/-- May the second byte follow the first of a longer sequence? -/
def secondOk (b₀ b₁ : UInt8) : Bool :=
  if b₀ = 0xe0 then 0xa0 ≤ b₁ && b₁ ≤ 0xbf
  else if b₀ = 0xed then 0x80 ≤ b₁ && b₁ ≤ 0x9f
  else if b₀ = 0xf0 then 0x90 ≤ b₁ && b₁ ≤ 0xbf
  else if b₀ = 0xf4 then 0x80 ≤ b₁ && b₁ ≤ 0x8f
  else 0xe1 ≤ b₀ && b₀ ≤ 0xf3 && 0x80 ≤ b₁ && b₁ ≤ 0xbf

/-- How many bytes a sequence that is no character takes up: as much of it as could have
    begun one. -/
def brokenLen (bs : List UInt8) : Nat :=
  let b₀ := bs.getD 0 0
  let b₂ := bs.getD 2 0
  if secondOk b₀ (bs.getD 1 0) then
    if 0xf0 ≤ b₀ && 0x80 ≤ b₂ && b₂ ≤ 0xbf then 3 else 2
  else 1

def replacement : Char := Char.ofNat 0xfffd

/-- Decode up to `fuel` characters. -/
def lossyChars : Nat → List UInt8 → List Char
  | _, [] => []
  | 0, _ => []
  | fuel + 1, bs =>
      match bs.toByteArray.utf8DecodeChar? 0 with
      | some c => c :: lossyChars fuel (bs.drop c.utf8Size)
      | none => replacement :: lossyChars fuel (bs.drop (brokenLen bs))

/-- `String::from_utf8_lossy`.  Each character takes a byte at least. -/
def fromUtf8Lossy (bs : List UInt8) : String := String.ofList (lossyChars bs.length bs)

theorem lossyChars_encode (cs : List Char) (fuel : Nat)
    (h : (cs.flatMap String.utf8EncodeChar).length ≤ fuel) :
    lossyChars fuel (cs.flatMap String.utf8EncodeChar) = cs := by
  induction cs generalizing fuel with
  | nil => cases fuel <;> rfl
  | cons c cs ih =>
    rw [List.flatMap_cons] at h ⊢
    rw [List.length_append, String.length_utf8EncodeChar] at h
    have hpos := c.utf8Size_pos
    obtain ⟨fuel, rfl⟩ : ∃ f, fuel = f + 1 := ⟨fuel - 1, by omega⟩
    have hdecode : (String.utf8EncodeChar c ++
        cs.flatMap String.utf8EncodeChar).toByteArray.utf8DecodeChar? 0 = some c := by
      rw [List.toByteArray_append]
      exact ByteArray.utf8DecodeChar?_utf8EncodeChar_append
    have hdrop : (String.utf8EncodeChar c ++ cs.flatMap String.utf8EncodeChar).drop c.utf8Size =
        cs.flatMap String.utf8EncodeChar := by
      rw [← String.length_utf8EncodeChar, List.drop_left]
    rw [lossyChars]
    · simp only [hdecode, hdrop]
      rw [ih fuel (by omega)]
    · intro hnil
      have hlen := congrArg List.length hnil
      rw [List.length_append, String.length_utf8EncodeChar, List.length_nil] at hlen
      omega

/-- Text survives the lossy decoder. -/
@[simp] theorem fromUtf8Lossy_utf8 (s : String) : fromUtf8Lossy (utf8 s) = s := by
  rw [fromUtf8Lossy, utf8, lossyChars_encode s.toList _ le_rfl, String.ofList_toList]

theorem utf8_inj {s t : String} (h : utf8 s = utf8 t) : s = t := by
  rw [← fromUtf8Lossy_utf8 s, h, fromUtf8Lossy_utf8]

theorem utf8_append (s t : String) : utf8 (s ++ t) = utf8 s ++ utf8 t := by
  rw [utf8, String.toList_append, List.flatMap_append]
  rfl

theorem utf8_ofList (cs : List Char) :
    utf8 (String.ofList cs) = cs.flatMap String.utf8EncodeChar := by
  rw [utf8, String.toList_ofList]

/-! ### ASCII -/

/-- A byte below 128 is a character of its own. -/
theorem encode_ascii {c : Char} {b : UInt8} (h : b ∈ String.utf8EncodeChar c) (hb : b < 128) :
    b.toNat = c.toNat ∧ String.utf8EncodeChar c = [b] := by
  have hb : b.toNat < 128 := hb
  have hv : c.val.toNat < 1114112 := by
    have hvalid := c.valid
    unfold UInt32.isValidChar Nat.isValidChar at hvalid
    omega
  unfold String.utf8EncodeChar at h ⊢
  dsimp only at h ⊢
  split at h
  · rename_i hle
    rw [List.mem_singleton] at h
    subst h
    rw [if_pos hle]
    refine ⟨?_, rfl⟩
    rw [UInt8.toNat_ofNat']
    exact Nat.mod_eq_of_lt (by omega)
  -- every byte of a longer sequence has its high bit set
  · exfalso
    split at h
    · simp only [List.mem_cons, List.not_mem_nil, or_false] at h
      rcases h with rfl | rfl <;> rw [UInt8.toNat_ofNat'] at hb <;> omega
    · split at h
      · simp only [List.mem_cons, List.not_mem_nil, or_false] at h
        rcases h with rfl | rfl | rfl <;> rw [UInt8.toNat_ofNat'] at hb <;> omega
      · simp only [List.mem_cons, List.not_mem_nil, or_false] at h
        rcases h with rfl | rfl | rfl | rfl <;> rw [UInt8.toNat_ofNat'] at hb <;> omega

/-- The byte of an ASCII character. -/
def asciiByte (c : Char) : UInt8 := UInt8.ofNat c.toNat

theorem encode_of_ascii {c : Char} (hc : c.toNat < 128) :
    String.utf8EncodeChar c = [asciiByte c] := by
  unfold String.utf8EncodeChar
  exact if_pos (Nat.le_of_lt_succ hc)

theorem asciiByte_lt {c : Char} (hc : c.toNat < 128) : asciiByte c < 128 := by
  show (UInt8.ofNat c.toNat).toNat < 128
  rw [UInt8.toNat_ofNat']
  omega

theorem mem_encode_ascii {c d : Char} (hc : c.toNat < 128) :
    asciiByte c ∈ String.utf8EncodeChar d ↔ c = d := by
  constructor
  · intro h
    obtain ⟨hd, -⟩ := encode_ascii h (asciiByte_lt hc)
    rw [asciiByte, UInt8.toNat_ofNat', Nat.mod_eq_of_lt (by omega)] at hd
    exact Char.toNat_inj.mp hd
  · rintro rfl
    rw [encode_of_ascii hc]
    exact List.mem_singleton_self _

/-- An ASCII character is in a text where its byte is in the encoding. -/
theorem mem_utf8_ascii {c : Char} (hc : c.toNat < 128) (s : String) :
    asciiByte c ∈ utf8 s ↔ c ∈ s.toList := by
  rw [utf8, List.mem_flatMap]
  constructor
  · rintro ⟨d, hd, hm⟩
    rw [(mem_encode_ascii hc).mp hm]
    exact hd
  · intro hm
    exact ⟨c, hm, (mem_encode_ascii hc).mpr rfl⟩

/-- Bytes that are text. -/
def IsUtf8 (bs : List UInt8) : Prop := ∃ s, bs = utf8 s

theorem IsUtf8.append {a b : List UInt8} (ha : IsUtf8 a) (hb : IsUtf8 b) : IsUtf8 (a ++ b) := by
  obtain ⟨s, rfl⟩ := ha
  obtain ⟨t, rfl⟩ := hb
  exact ⟨s ++ t, (utf8_append s t).symm⟩

theorem IsUtf8.nil : IsUtf8 [] := ⟨"", rfl⟩

theorem IsUtf8.byte {b : UInt8} (h : b < 128) : IsUtf8 [b] := by
  have hb : b.toNat < 128 := h
  have hc : (Char.ofNat b.toNat).toNat = b.toNat := by
    unfold Char.ofNat
    rw [dif_pos (Or.inl (by omega))]
    rfl
  refine ⟨String.ofList [Char.ofNat b.toNat], ?_⟩
  rw [utf8_ofList, List.flatMap_singleton, encode_of_ascii (by omega), asciiByte, hc,
    UInt8.ofNat_toNat]

theorem IsUtf8.ascii {bs : List UInt8} (h : ∀ b ∈ bs, b < 128) : IsUtf8 bs := by
  induction bs with
  | nil => exact .nil
  | cons b bs ih =>
    have hrest := ih fun b' hb' => h b' (List.mem_cons_of_mem _ hb')
    exact (IsUtf8.byte (h b List.mem_cons_self)).append hrest

theorem IsUtf8.flatMap {α : Type} {l : List α} {f : α → List UInt8} (h : ∀ a ∈ l, IsUtf8 (f a)) :
    IsUtf8 (l.flatMap f) := by
  induction l with
  | nil => exact .nil
  | cons a l ih =>
    rw [List.flatMap_cons]
    exact (h a List.mem_cons_self).append (ih fun b hb => h b (List.mem_cons_of_mem _ hb))

/-- What is text is decoded to it. -/
theorem IsUtf8.lossy {bs : List UInt8} (h : IsUtf8 bs) : utf8 (fromUtf8Lossy bs) = bs := by
  obtain ⟨s, rfl⟩ := h
  rw [fromUtf8Lossy_utf8]

end Bytes
