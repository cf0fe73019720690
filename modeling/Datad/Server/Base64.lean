/-
  Datad/Server/Base64.lean
  ========================
  **The credentials of a Basic header: `decode_base64` of `server.rs`.**

  The decoder is the source's, with its 32-bit accumulator and its count of bits in a
  byte.  It is the machine of `Regroup` from six bits to eight; that gives the invariant
  of its loop, and with it that encoding is undone, whatever the length leaves over.
-/
import Datad.Lib.Bytes
import Datad.Lib.Regroup

namespace Datad.Base64

open Bytes Regroup

/-! ### The decoder -/

/-- `u8::is_ascii_whitespace`. -/
def isAsciiWhitespace (b : UInt8) : Bool := [0x20, 0x09, 0x0a, 0x0c, 0x0d].contains b

/-- The six bits a byte of the alphabet stands for. -/
def digit? (byte : UInt8) : Option UInt8 :=
  if asciiByte 'A' ≤ byte ∧ byte ≤ asciiByte 'Z' then some (byte - asciiByte 'A')
  else if asciiByte 'a' ≤ byte ∧ byte ≤ asciiByte 'z' then some (byte - asciiByte 'a' + 26)
  else if asciiByte '0' ≤ byte ∧ byte ≤ asciiByte '9' then some (byte - asciiByte '0' + 52)
  else if byte = asciiByte '+' then some 62
  else if byte = asciiByte '/' then some 63
  else none

/-- The variables of the loop. -/
structure Decoder where
  acc : UInt32 := 0
  bits : UInt8 := 0
  out : List UInt8 := []
deriving DecidableEq

/-- `(acc << 6) | u32::from(digit)` -/
def Decoder.shifted (s : Decoder) (digit : UInt8) : UInt32 := s.acc <<< 6 ||| digit.toUInt32

/-- The rest of a turn, once the byte is known to be a digit. -/
def Decoder.take (s : Decoder) (digit : UInt8) : Decoder :=
  let acc := s.shifted digit
  let bits := s.bits + 6
  if 8 ≤ bits then
    let bits := bits - 8
    { acc := acc &&& (if bits = 0 then 0 else ((1 : UInt32) <<< bits.toUInt32) - 1)
      bits := bits
      out := s.out ++ [((acc >>> bits.toUInt32) &&& 0xff).toUInt8] }
  else { s with acc := acc, bits := bits }

def decodeLoop (s : Decoder) : List UInt8 → Option (List UInt8)
  | [] => some s.out
  | byte :: rest =>
      if byte = asciiByte '=' then some s.out
      else match digit? byte with
        | none => none
        | some digit => decodeLoop (s.take digit) rest

/-- What the loop goes over. -/
def significant (value : String) : List UInt8 :=
  (utf8 value).filter fun b => !isAsciiWhitespace b

def decodeBase64 (value : String) : Option (List UInt8) := decodeLoop {} (significant value)

/-- `Visits s bs s' rest`: the loop, started with the variables `s` on `bs`, comes to the
    head of a turn with `s'` and `rest`. -/
inductive Visits (s : Decoder) (bs : List UInt8) : Decoder → List UInt8 → Prop where
  | start : Visits s bs s bs
  | turn {s' : Decoder} {byte digit : UInt8} {rest : List UInt8}
      (h : Visits s bs s' (byte :: rest)) (hend : byte ≠ asciiByte '=')
      (hdigit : digit? byte = some digit) : Visits s bs (s'.take digit) rest

/-! ### The encoder -/

def alphabet : List Char :=
  "ABCDEFGHIJKLMNOPQRSTUVWXYZabcdefghijklmnopqrstuvwxyz0123456789+/".toList

def digitChar (n : Nat) : Char := alphabet.getD n '='

/-- Three bytes as four digits; what is missing of the last three counts as zero bits. -/
def sextets : List UInt8 → List Nat
  | a :: b :: c :: rest =>
      [a.toNat / 4, a.toNat % 4 * 16 + b.toNat / 16, b.toNat % 16 * 4 + c.toNat / 64,
        c.toNat % 64] ++ sextets rest
  | [a, b] => [a.toNat / 4, a.toNat % 4 * 16 + b.toNat / 16, b.toNat % 16 * 4]
  | [a] => [a.toNat / 4, a.toNat % 4 * 16]
  | [] => []

/-- The standard text of `bytes`, filled up to whole groups of four where it is `padded`. -/
def encode (padded : Bool) (bytes : List UInt8) : List Char :=
  (sextets bytes).map digitChar ++
    if padded then List.replicate ((3 - bytes.length % 3) % 3) '=' else []

def whitespace : List Char := [' ', '\t', '\n', Char.ofNat 12, '\r']

/-- `value` is `text` with ASCII whitespace put in anywhere. -/
def Spaced (text : List Char) (value : String) : Prop :=
  (value.toList.filter fun c => !(whitespace.contains c)) = text

/-! ### A turn of the loop -/

theorem digit?_lt {byte digit : UInt8} (h : digit? byte = some digit) : digit.toNat < 64 := by
  have hA : (asciiByte 'A').toNat = 65 := by decide
  have hZ : (asciiByte 'Z').toNat = 90 := by decide
  have ha : (asciiByte 'a').toNat = 97 := by decide
  have hz : (asciiByte 'z').toNat = 122 := by decide
  have h0 : (asciiByte '0').toNat = 48 := by decide
  have h9 : (asciiByte '9').toNat = 57 := by decide
  have hlt := byte.toNat_lt
  simp only [digit?, UInt8.le_iff_toNat_le, hA, hZ, ha, hz, h0, h9] at h
  split at h
  · cases h
    rw [UInt8.toNat_sub, hA]
    omega
  split at h
  · cases h
    rw [UInt8.toNat_add, UInt8.toNat_sub, ha]
    have h26 : (26 : UInt8).toNat = 26 := rfl
    omega
  split at h
  · cases h
    rw [UInt8.toNat_add, UInt8.toNat_sub, h0]
    have h52 : (52 : UInt8).toNat = 52 := rfl
    omega
  split at h
  · cases h
    decide
  split at h
  · cases h
    decide
  · cases h

/-- The variables as those of the general machine. -/
def Decoder.regroup (s : Decoder) : Acc := ⟨s.acc.toNat, s.bits.toNat, s.out.map UInt8.toNat⟩

/-- What holds at the head of every turn. -/
structure Decoder.Reduced (s : Decoder) : Prop where
  bits_lt : s.bits.toNat < 8
  acc_lt : s.acc.toNat < 2 ^ s.bits.toNat

theorem Decoder.Reduced.acc_lt_128 {s : Decoder} (h : s.Reduced) : s.acc.toNat < 128 :=
  h.acc_lt.trans_le (Nat.pow_le_pow_right (by decide) (Nat.le_of_lt_succ h.bits_lt))

/-- **No bit is shifted out.** -/
theorem Decoder.Reduced.toNat_shifted {s : Decoder} (h : s.Reduced) {digit : UInt8}
    (hd : digit.toNat < 64) :
    (s.shifted digit).toNat = s.acc.toNat * 2 ^ 6 + digit.toNat := by
  have hacc := h.acc_lt_128
  have h6 : (6 : UInt32).toNat % 32 = 6 := rfl
  have hsmall : s.acc.toNat <<< 6 < 2 ^ 32 := by
    rw [Nat.shiftLeft_eq]
    omega
  rw [Decoder.shifted, UInt32.toNat_or, UInt32.toNat_shiftLeft, UInt8.toNat_toUInt32, h6,
    Nat.mod_eq_of_lt hsmall, ← Nat.shiftLeft_add_eq_or_of_lt hd, Nat.shiftLeft_eq]

theorem Decoder.Reduced.toNat_bits {s : Decoder} (h : s.Reduced) :
    (s.bits + 6).toNat = s.bits.toNat + 6 := by
  have hbits := h.bits_lt
  have h6 : (6 : UInt8).toNat = 6 := rfl
  rw [UInt8.toNat_add, h6]
  omega

/-- `(1 << k) - 1`, which the source writes as 0 where `k` is. -/
theorem toNat_mask {k : UInt8} (hk : k.toNat < 8) :
    (if k = 0 then (0 : UInt32) else (1 <<< k.toUInt32) - 1).toNat = 2 ^ k.toNat - 1 := by
  have hle : 2 ^ k.toNat ≤ 2 ^ 7 := Nat.pow_le_pow_right (by decide) (by omega)
  have hpos := Nat.two_pow_pos k.toNat
  have h1 : (1 : UInt32).toNat = 1 := rfl
  split
  · rename_i h0
    rw [h0]
    rfl
  · have hshift : ((1 : UInt32) <<< k.toUInt32).toNat = 2 ^ k.toNat := by
      rw [UInt32.toNat_shiftLeft, UInt8.toNat_toUInt32, h1, Nat.shiftLeft_eq,
        Nat.mod_eq_of_lt (by omega : k.toNat < 32), Nat.one_mul]
      exact Nat.mod_eq_of_lt (by omega)
    rw [UInt32.toNat_sub_of_le _ _ (by rw [UInt32.le_iff_toNat_le, hshift, h1]; exact hpos),
      hshift, h1]

theorem Decoder.Reduced.regroup_take {s : Decoder} (h : s.Reduced) {digit : UInt8}
    (hd : digit.toNat < 64) : (s.take digit).regroup = s.regroup.push 6 8 digit.toNat := by
  have hbits := h.bits_lt
  have hadd := h.toNat_bits
  have hshifted := h.toNat_shifted hd
  have hacc := h.acc_lt_128
  have h8 : (8 : UInt8).toNat = 8 := rfl
  rw [Decoder.take]
  simp only [UInt8.le_iff_toNat_le, hadd, h8]
  split
  · -- a byte is full
    rename_i hfull
    have hsub : (s.bits + 6 - 8).toNat + 8 = s.bits.toNat + 6 := by
      rw [UInt8.toNat_sub_of_le _ _ (by rwa [UInt8.le_iff_toNat_le, hadd]), hadd, h8]
      omega
    generalize s.bits + 6 - 8 = k at hsub ⊢
    have hk : k.toNat < 8 := by omega
    have hbyte : (s.acc.toNat * 2 ^ 6 + digit.toNat) / 2 ^ k.toNat < 256 := by
      have hle := h.acc_lt
      refine Nat.div_lt_of_lt_mul ?_
      have hpow : 2 ^ k.toNat * 256 = 2 ^ s.bits.toNat * 2 ^ 6 := by
        rw [← Nat.pow_add, ← hsub, Nat.pow_add]
      omega
    have h255 : (0xff : UInt32).toNat = 2 ^ 8 - 1 := rfl
    have hout : ((s.shifted digit >>> k.toUInt32) &&& 0xff).toUInt8.toNat =
        (s.acc.toNat * 2 ^ 6 + digit.toNat) / 2 ^ k.toNat := by
      rw [UInt32.toNat_toUInt8, UInt32.toNat_and, UInt32.toNat_shiftRight, UInt8.toNat_toUInt32,
        Nat.mod_eq_of_lt (by omega : k.toNat < 32), h255, Nat.and_two_pow_sub_one_eq_mod,
        hshifted, Nat.shiftRight_eq_div_pow, Nat.mod_mod]
      exact Nat.mod_eq_of_lt hbyte
    have hmask : (s.shifted digit &&&
        (if k = 0 then (0 : UInt32) else (1 <<< k.toUInt32) - 1)).toNat =
        (s.acc.toNat * 2 ^ 6 + digit.toNat) % 2 ^ k.toNat := by
      rw [UInt32.toNat_and, toNat_mask hk, Nat.and_two_pow_sub_one_eq_mod, hshifted]
    refine Eq.trans ?_ (Acc.push_full (n := 8) (k := k.toNat) digit.toNat
      (by change s.bits.toNat + 6 = _; omega)).symm
    simp only [Decoder.regroup, hmask, List.map_append, List.map_singleton, hout]
  · rename_i hshort
    refine Eq.trans ?_ (Acc.push_short (n := 8) digit.toNat (Nat.not_le.1 hshort)).symm
    simp only [Decoder.regroup, hshifted, hadd]

/-! ### The loop -/

theorem reduced_of_tracks {s : Decoder} {digits : List Nat} (h : Tracks 6 8 s.regroup digits) :
    s.Reduced where
  bits_lt := h.bits_lt
  acc_lt := h.acc_lt

theorem tracks_init : Tracks 6 8 (Decoder.regroup {}) [] := Tracks.init (by decide)

theorem tracks_take {s : Decoder} {digits : List Nat} (h : Tracks 6 8 s.regroup digits)
    {digit : UInt8} (hd : digit.toNat < 64) :
    Tracks 6 8 (s.take digit).regroup (digits ++ [digit.toNat]) := by
  rw [(reduced_of_tracks h).regroup_take hd]
  exact h.push (by decide) hd

/-- **The loop's invariant**, in every turn and for every input. -/
theorem Visits.tracks {bs rest : List UInt8} {s : Decoder} (h : Visits {} bs s rest) :
    ∃ digits, Tracks 6 8 s.regroup digits := by
  induction h with
  | start => exact ⟨[], tracks_init⟩
  | turn _ _ hdigit ih =>
      obtain ⟨digits, htracks⟩ := ih
      exact ⟨_, tracks_take htracks (digit?_lt hdigit)⟩

/-- The byte of a digit is read as that digit. -/
theorem digit?_digitChar : ∀ n < 64,
    asciiByte (digitChar n) ≠ asciiByte '=' ∧
      digit? (asciiByte (digitChar n)) = some (UInt8.ofNat n) := by
  decide +kernel

theorem digitChar_text : ∀ n < 64,
    (digitChar n).toNat < 128 ∧ isAsciiWhitespace (asciiByte (digitChar n)) = false := by
  decide +kernel

theorem decodeLoop_digits {ds : List Nat} (hds : ∀ d ∈ ds, d < 64) (tail : List UInt8) :
    ∀ {s : Decoder} {es : List Nat}, Tracks 6 8 s.regroup es →
      ∃ s' : Decoder, Tracks 6 8 s'.regroup (es ++ ds) ∧
        decodeLoop s (ds.map (fun d => asciiByte (digitChar d)) ++ tail) = decodeLoop s' tail := by
  induction ds with
  | nil =>
    intro s es h
    exact ⟨s, by rwa [List.append_nil], rfl⟩
  | cons d ds ih =>
    intro s es h
    have hd := hds d List.mem_cons_self
    obtain ⟨hend, hdigit⟩ := digit?_digitChar d hd
    have hnat : (UInt8.ofNat d).toNat = d := by
      rw [UInt8.toNat_ofNat']
      omega
    have hsmall : (UInt8.ofNat d).toNat < 64 := by rwa [hnat]
    have htake := tracks_take h hsmall
    rw [hnat] at htake
    obtain ⟨s', htracks, hloop⟩ := ih (fun x hx => hds x (List.mem_cons_of_mem d hx)) htake
    refine ⟨s', by simpa using htracks, ?_⟩
    rw [List.map_cons, List.cons_append, decodeLoop, if_neg hend, hdigit]
    exact hloop

theorem decodeLoop_padding (s : Decoder) (k : Nat) :
    decodeLoop s (List.replicate k (asciiByte '=')) = some s.out := by
  cases k with
  | zero => rfl
  | succ k => rw [List.replicate_succ, decodeLoop, if_pos rfl]

/-! ### The text of some bytes -/

/-- What three bytes, or the rest of them, are as a number is what their digits are. -/
structure Grouped (bytes : List UInt8) (ds : List Nat) (pad : Nat) : Prop where
  pad_lt : pad < 8
  lt : ∀ d ∈ ds, d < 64
  length : 6 * ds.length = 8 * bytes.length + pad
  value : value 6 ds = value 8 (bytes.map UInt8.toNat) * 2 ^ pad

theorem Grouped.append {xs ys : List UInt8} {ds es : List Nat} {pad : Nat}
    (h : Grouped xs ds 0) (h' : Grouped ys es pad) : Grouped (xs ++ ys) (ds ++ es) pad where
  pad_lt := h'.pad_lt
  lt d hd := (List.mem_append.1 hd).elim (h.lt d) (h'.lt d)
  length := by
    have := h.length
    have := h'.length
    simp only [List.length_append]
    omega
  value := by
    have hval := h.value
    rw [Nat.pow_zero, Nat.mul_one] at hval
    rw [List.map_append, value_append, value_append, h'.length, hval, h'.value, List.length_map,
      Nat.pow_add]
    ring

theorem grouped_three (a b c : UInt8) :
    Grouped [a, b, c] [a.toNat / 4, a.toNat % 4 * 16 + b.toNat / 16,
      b.toNat % 16 * 4 + c.toNat / 64, c.toNat % 64] 0 where
  pad_lt := by decide
  lt := by
    have ha := a.toNat_lt
    have hb := b.toNat_lt
    have hc := c.toNat_lt
    simp only [List.forall_mem_cons, List.not_mem_nil, false_imp_iff, implies_true, and_true]
    omega
  length := rfl
  value := by
    simp [Regroup.value, Nat.ofDigits_cons]
    omega

theorem grouped_two (a b : UInt8) :
    Grouped [a, b] [a.toNat / 4, a.toNat % 4 * 16 + b.toNat / 16, b.toNat % 16 * 4] 2 where
  pad_lt := by decide
  lt := by
    have ha := a.toNat_lt
    have hb := b.toNat_lt
    simp only [List.forall_mem_cons, List.not_mem_nil, false_imp_iff, implies_true, and_true]
    omega
  length := rfl
  value := by
    simp [Regroup.value, Nat.ofDigits_cons]
    omega

theorem grouped_one (a : UInt8) : Grouped [a] [a.toNat / 4, a.toNat % 4 * 16] 4 where
  pad_lt := by decide
  lt := by
    have ha := a.toNat_lt
    simp only [List.forall_mem_cons, List.not_mem_nil, false_imp_iff, implies_true, and_true]
    omega
  length := rfl
  value := by
    simp [Regroup.value, Nat.ofDigits_cons]
    omega

theorem sextets_grouped (bytes : List UInt8) : ∃ pad, Grouped bytes (sextets bytes) pad := by
  induction bytes using sextets.induct with
  | case1 a b c rest ih =>
    obtain ⟨pad, hrest⟩ := ih
    exact ⟨pad, (grouped_three a b c).append hrest⟩
  | case2 a b => exact ⟨2, grouped_two a b⟩
  | case3 a => exact ⟨4, grouped_one a⟩
  | case4 => exact ⟨0, by decide, by simp [sextets], rfl, by simp [sextets]⟩

/-- Only the alphabet and the end mark occur in an encoding. -/
theorem mem_encode {padded : Bool} {bytes : List UInt8} {c : Char}
    (hc : c ∈ encode padded bytes) :
    c.toNat < 128 ∧ isAsciiWhitespace (asciiByte c) = false := by
  obtain ⟨_, hgroup⟩ := sextets_grouped bytes
  rw [encode, List.mem_append, List.mem_map] at hc
  rcases hc with ⟨d, hd, rfl⟩ | hc
  · exact digitChar_text d (hgroup.lt d hd)
  · split at hc
    · rw [(List.mem_replicate.1 hc).2]
      decide
    · cases hc

theorem mem_whitespace {c : Char} (h : c ∈ whitespace) :
    c.toNat < 128 ∧ isAsciiWhitespace (asciiByte c) = true := by
  simp only [whitespace, List.mem_cons, List.not_mem_nil, or_false] at h
  rcases h with rfl | rfl | rfl | rfl | rfl <;> decide

/-- The loop goes over the bytes of the text, whatever whitespace is in it. -/
theorem significant_spaced {text : List Char} {value : String} (h : Spaced text value)
    (htext : ∀ c ∈ text, c.toNat < 128 ∧ isAsciiWhitespace (asciiByte c) = false) :
    significant value = text.map asciiByte := by
  rw [Spaced] at h
  rw [significant, utf8]
  generalize value.toList = cs at h
  induction cs generalizing text with
  | nil =>
    subst h
    rfl
  | cons c cs ih =>
    rw [List.filter_cons] at h
    rw [List.flatMap_cons, List.filter_append]
    by_cases hc : c ∈ whitespace
    · obtain ⟨hascii, hspace⟩ := mem_whitespace hc
      rw [if_neg (by simpa using hc)] at h
      rw [ih htext h, encode_of_ascii hascii]
      simp [hspace]
    · rw [if_pos (by simpa using hc)] at h
      subst h
      obtain ⟨hascii, hspace⟩ := htext c List.mem_cons_self
      rw [ih (fun d hd => htext d (List.mem_cons_of_mem c hd)) rfl, encode_of_ascii hascii]
      simp [hspace]

/-! ### Decoding inverts encoding -/

theorem decodeLoop_encode (padded : Bool) (bytes : List UInt8) :
    decodeLoop {} ((encode padded bytes).map asciiByte) = some bytes := by
  obtain ⟨pad, hgroup⟩ := sextets_grouped bytes
  obtain ⟨s, htracks, hloop⟩ := decodeLoop_digits hgroup.lt
    (List.replicate (if padded then (3 - bytes.length % 3) % 3 else 0) (asciiByte '='))
    tracks_init
  rw [List.nil_append] at htracks
  have hout : s.out.map UInt8.toNat = bytes.map UInt8.toNat := by
    refine htracks.out_eq ?_ hgroup.pad_lt ?_ hgroup.value
    · intro n hn
      obtain ⟨b, -, rfl⟩ := List.mem_map.1 hn
      exact b.toNat_lt
    · rw [hgroup.length, List.length_map]
  have htext : (encode padded bytes).map asciiByte =
      (sextets bytes).map (fun d => asciiByte (digitChar d)) ++
        List.replicate (if padded then (3 - bytes.length % 3) % 3 else 0) (asciiByte '=') := by
    rw [encode, List.map_append, List.map_map]
    cases padded with
    | true => simp [Function.comp_def]
    | false => simp [Function.comp_def]
  rw [htext, hloop, decodeLoop_padding,
    List.map_injective_iff.2 (fun _ _ => UInt8.toNat_inj.1) hout]

/-- **Decoding inverts encoding**, with or without padding and with whitespace anywhere.
    In every turn of every call less than a byte is left over, and no bit of the 32 is
    ever shifted out. -/
theorem decodeBase64_encode :
    (∀ (bytes : List UInt8) (padded : Bool) (value : String),
      Spaced (encode padded bytes) value → decodeBase64 value = some bytes) ∧
    (∀ (value : String) (s : Decoder) (rest : List UInt8),
      Visits {} (significant value) s rest →
        s.bits.toNat < 8 ∧ s.acc.toNat < 2 ^ s.bits.toNat ∧
        ∀ byte digit, digit? byte = some digit →
          (s.bits + 6).toNat = s.bits.toNat + 6 ∧
          (s.shifted digit).toNat = s.acc.toNat * 2 ^ 6 + digit.toNat) := by
  constructor
  · intro bytes padded value h
    rw [decodeBase64, significant_spaced h fun c => mem_encode]
    exact decodeLoop_encode padded bytes
  · intro value s rest h
    obtain ⟨digits, htracks⟩ := h.tracks
    have hreduced := reduced_of_tracks htracks
    refine ⟨hreduced.bits_lt, hreduced.acc_lt, ?_⟩
    intro byte digit hdigit
    exact ⟨hreduced.toNat_bits, hreduced.toNat_shifted (digit?_lt hdigit)⟩

theorem decodeBase64_encode_one :
    decodeBase64 "TQ=\n=" = some [77] ∧
      ((Decoder.take {} 19).bits.toNat < 8 ∧
        (Decoder.take {} 19).acc.toNat < 2 ^ (Decoder.take {} 19).bits.toNat) := by
  have hspaced : Spaced (encode true [77]) "TQ=\n=" := by
    unfold Spaced
    decide +kernel
  have hvisit : Visits {} (significant "TQ=\n=") (Decoder.take {} 19)
      [asciiByte 'Q', asciiByte '=', asciiByte '='] :=
    @Visits.turn {} _ {} (asciiByte 'T') 19 _ .start (by decide) (by decide)
  have hloop := decodeBase64_encode.2 _ _ _ hvisit
  exact ⟨decodeBase64_encode.1 [77] true _ hspaced, hloop.1, hloop.2.1⟩

end Datad.Base64
