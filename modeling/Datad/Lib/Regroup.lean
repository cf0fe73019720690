/-
  Datad/Lib/Regroup.lean
  ======================
  **Digits of one width regrouped into digits of another.**

  A number written in digits of `m` bits is read into digits of `n` bits, the most
  significant first: `push` takes one digit in and gives a digit out as soon as `n` bits
  are there.  What is out and what is left over are at every moment the number read
  (`Tracks`), so that two ways to write one number, up to less than a digit of zeros, come
  out the same.
-/
import Mathlib.Data.Nat.Digits.Lemmas
import Mathlib.Tactic.Ring

namespace Regroup

/-- The number that digits of `w` bits stand for, the most significant first. -/
def value (w : Nat) (ds : List Nat) : Nat := Nat.ofDigits (2 ^ w) ds.reverse

@[simp] theorem value_nil (w : Nat) : value w [] = 0 := by
  simp [value]

@[simp] theorem value_concat (w : Nat) (ds : List Nat) (d : Nat) :
    value w (ds ++ [d]) = value w ds * 2 ^ w + d := by
  simp only [value, List.reverse_append, List.reverse_singleton, List.singleton_append,
    Nat.ofDigits_cons]
  ring

theorem value_append (w : Nat) (ds es : List Nat) :
    value w (ds ++ es) = value w ds * 2 ^ (w * es.length) + value w es := by
  simp only [value, List.reverse_append, Nat.ofDigits_append, List.length_reverse, ← pow_mul]
  ring

/-- Digits of the same width and number are determined by what they stand for. -/
theorem value_inj {w : Nat} (hw : 0 < w) {ds es : List Nat} (hlen : ds.length = es.length)
    (hds : ∀ d ∈ ds, d < 2 ^ w) (hes : ∀ d ∈ es, d < 2 ^ w) (h : value w ds = value w es) :
    ds = es := by
  have hbase : 1 < 2 ^ w := Nat.one_lt_two_pow hw.ne'
  have hrev : ds.reverse = es.reverse :=
    Nat.ofDigits_inj_of_len_eq hbase (by simpa using hlen) (by simpa using hds)
      (by simpa using hes) h
  exact List.reverse_injective hrev

/-! ### The machine -/

/-- `bits` bits are left over, and are the number `acc`. -/
structure Acc where
  acc : Nat := 0
  bits : Nat := 0
  out : List Nat := []

/-- Take in one digit of `m` bits. -/
def Acc.push (m n : Nat) (s : Acc) (d : Nat) : Acc :=
  let acc := s.acc * 2 ^ m + d
  let bits := s.bits + m
  if n ≤ bits then
    { acc := acc % 2 ^ (bits - n), bits := bits - n, out := s.out ++ [acc / 2 ^ (bits - n)] }
  else { s with acc := acc, bits := bits }

/-- The machine after the digits `ds`. -/
structure Tracks (m n : Nat) (s : Acc) (ds : List Nat) : Prop where
  bits_lt : s.bits < n
  acc_lt : s.acc < 2 ^ s.bits
  out_lt : ∀ d ∈ s.out, d < 2 ^ n
  length : n * s.out.length + s.bits = m * ds.length
  value : value n s.out * 2 ^ s.bits + s.acc = value m ds

theorem Tracks.init {m n : Nat} (hn : 0 < n) : Tracks m n {} [] where
  bits_lt := hn
  acc_lt := by simp
  out_lt := by simp
  length := by simp
  value := by simp

/-- What one digit more makes of the bits left over. -/
theorem Tracks.acc_push_lt {m n : Nat} {s : Acc} {ds : List Nat} (h : Tracks m n s ds) {d : Nat}
    (hd : d < 2 ^ m) : s.acc * 2 ^ m + d < 2 ^ (s.bits + m) := by
  have hle : (s.acc + 1) * 2 ^ m ≤ 2 ^ s.bits * 2 ^ m := Nat.mul_le_mul_right _ h.acc_lt
  rw [Nat.pow_add]
  linarith

theorem Acc.push_full {m n k : Nat} {s : Acc} (d : Nat) (h : s.bits + m = n + k) :
    s.push m n d = { acc := (s.acc * 2 ^ m + d) % 2 ^ k, bits := k,
                     out := s.out ++ [(s.acc * 2 ^ m + d) / 2 ^ k] } := by
  have hk : s.bits + m - n = k := by omega
  have hle : n ≤ s.bits + m := by omega
  simp only [Acc.push, hle, if_true, hk]

theorem Acc.push_short {m n : Nat} {s : Acc} (d : Nat) (h : s.bits + m < n) :
    s.push m n d = { s with acc := s.acc * 2 ^ m + d, bits := s.bits + m } := by
  simp only [Acc.push, Nat.not_le.2 h, if_false]

theorem Tracks.push {m n : Nat} (hmn : m ≤ n) {s : Acc} {ds : List Nat} (h : Tracks m n s ds)
    {d : Nat} (hd : d < 2 ^ m) : Tracks m n (s.push m n d) (ds ++ [d]) := by
  have hacc := h.acc_push_lt hd
  have hlen : n * s.out.length + (s.bits + m) = m * (ds ++ [d]).length := by
    rw [List.length_append, List.length_singleton, Nat.mul_add, Nat.mul_one, ← h.length]
    omega
  have hval : Regroup.value n s.out * 2 ^ (s.bits + m) + (s.acc * 2 ^ m + d) =
      Regroup.value m (ds ++ [d]) := by
    rw [value_concat, ← h.value, Nat.pow_add]
    ring
  have hbits := h.bits_lt
  rcases Nat.lt_or_ge (s.bits + m) n with hshort | hfull
  · rw [Acc.push_short d hshort]
    exact ⟨hshort, hacc, h.out_lt, hlen, hval⟩
  · -- a digit is full: it goes out, and fewer bits stay than came in
    obtain ⟨k, hk⟩ := Nat.exists_eq_add_of_le hfull
    rw [Acc.push_full d hk]
    rw [hk, Nat.pow_add] at hacc hval
    have hout : (s.acc * 2 ^ m + d) / 2 ^ k < 2 ^ n :=
      Nat.div_lt_of_lt_mul (hacc.trans_eq (Nat.mul_comm _ _))
    have hdiv := Nat.div_add_mod (s.acc * 2 ^ m + d) (2 ^ k)
    constructor
    · change k < n
      omega
    · exact Nat.mod_lt _ (Nat.two_pow_pos k)
    · intro e he
      rcases List.mem_append.1 he with he | he
      · exact h.out_lt e he
      · rwa [List.mem_singleton.1 he]
    · change n * (s.out ++ [_]).length + k = _
      rw [List.length_append, List.length_singleton, Nat.mul_add, Nat.mul_one, ← hlen, hk]
      omega
    · change Regroup.value n (s.out ++ [_]) * 2 ^ k + _ = _
      rw [value_concat, ← hval]
      linarith

/-- **What comes out is determined.**  If the digits read are digits of `n` bits followed by
    fewer than `n` zeros, then those have come out. -/
theorem Tracks.out_eq {m n : Nat} {s : Acc} {ds : List Nat} (h : Tracks m n s ds)
    {bs : List Nat} {pad : Nat} (hbs : ∀ b ∈ bs, b < 2 ^ n) (hpad : pad < n)
    (hlen : m * ds.length = n * bs.length + pad)
    (hval : Regroup.value m ds = Regroup.value n bs * 2 ^ pad) : s.out = bs := by
  have hn : 0 < n := by omega
  have hboth : n * s.out.length + s.bits = n * bs.length + pad := h.length.trans hlen
  have hcount : s.out.length = bs.length := by
    have hdiv := congrArg (· / n) hboth
    simpa [Nat.mul_add_div hn, Nat.div_eq_of_lt h.bits_lt, Nat.div_eq_of_lt hpad] using hdiv
  have hbits : s.bits = pad := by
    rw [hcount] at hboth
    omega
  have hsum := h.value
  rw [hval, hbits] at hsum
  have hacc := h.acc_lt
  rw [hbits] at hacc
  have hnum : Regroup.value n s.out = Regroup.value n bs := by
    have hdiv := congrArg (· / 2 ^ pad) hsum
    simpa [Nat.add_comm, Nat.add_mul_div_right, Nat.div_eq_of_lt hacc] using hdiv
  exact value_inj hn hcount h.out_lt hbs hnum

end Regroup
