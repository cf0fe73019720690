/-
  Datad/Lib/Decimals.lean
  =======================
  **Decimal numbers in texts.**  `parse` reads what `f64::from_str` accepts, `display` writes
  a number without exponent and with no more digits than it needs.  Numbers are the
  rationals that the texts stand for; what is lost in the 53 bits of a double is not.

  A rational whose denominator divides a power of ten can be read off its text
  (`display_inj`): the digits behind the point are found by long division, which ends.
-/
import Datad.Lib.Codes
import Datad.Lib.Finding
import Mathlib.Algebra.Order.Field.Rat
import Mathlib.Data.Nat.Factorization.Basic
import Mathlib.Data.Rat.Lemmas
import Mathlib.Tactic.FieldSimp
import Mathlib.Tactic.IntervalCases
import Mathlib.Tactic.LinearCombination
import Mathlib.Tactic.Positivity
import Mathlib.Tactic.Ring

namespace Decimals

open Codes

/-! ### Writing -/

/-- The digits of `r / d` behind the point, by long division. -/
def fraction (d : Nat) : Nat → Nat → List Nat
  | 0, _ => []
  | fuel + 1, r => if r = 0 then [] else r * 10 / d :: fraction d fuel (r * 10 % d)

def point : List Nat → List Char
  | [] => []
  | ds => '.' :: ds.map Nat.digitChar

/-- Of the digits behind the point there are never more than the denominator says. -/
def display (q : ℚ) : List Char :=
  (if q < 0 then ['-'] else []) ++
    (Nat.toDigits 10 (q.num.natAbs / q.den) ++
      point (fraction q.den q.den (q.num.natAbs % q.den)))

/-! ### Reading -/

inductive Number where
  | fin (q : ℚ)
  | inf (neg : Bool)
  | nan
deriving DecidableEq

def sign : List Char → Bool × List Char
  | '-' :: s => (true, s)
  | '+' :: s => (false, s)
  | s => (false, s)

def digitsValue (ds : List Char) : Nat := ds.foldl (fun n c => n * 10 + (c.toNat - '0'.toNat)) 0

/-- The digits in front, and what comes behind them. -/
def digits (s : List Char) : List Char × List Char :=
  (s.takeWhile Char.isDigit, s.dropWhile Char.isDigit)

def afterPoint : List Char → List Char × List Char
  | '.' :: s => digits s
  | s => ([], s)

/-- The power of ten that an exponent stands for. -/
def exponent : List Char → Option ℚ
  | [] => some 1
  | c :: s =>
      let (neg, ds) := sign s
      if (c = 'e' ∨ c = 'E') ∧ ds ≠ [] ∧ ds.all Char.isDigit = true then
        some (if neg then 1 / 10 ^ digitsValue ds else 10 ^ digitsValue ds)
      else none

/-- A number without sign. -/
def unsigned (s : List Char) : Option ℚ :=
  let (whole, s) := digits s
  let (part, s) := afterPoint s
  if whole = [] ∧ part = [] then none
  else (exponent s).map fun e => digitsValue (whole ++ part) / 10 ^ part.length * e

def signed (neg : Bool) (q : ℚ) : ℚ := if neg then -q else q

/-- `f64::from_str`. -/
def parse (s : List Char) : Option Number :=
  let (neg, s) := sign s
  let word := Finding.lower s
  if word = "inf".toList ∨ word = "infinity".toList then some (.inf neg)
  else if word = "nan".toList then some .nan
  else (unsigned s).map fun q => .fin (signed neg q)

/-! ### Decimal fractions -/

def IsDecimal (q : ℚ) : Prop := ∃ (k : Nat) (z : ℤ), q * 10 ^ k = z

theorem IsDecimal.neg {q : ℚ} : IsDecimal q → IsDecimal (-q) := by
  rintro ⟨k, z, h⟩
  refine ⟨k, -z, ?_⟩
  push_cast
  rw [← h]
  ring

theorem IsDecimal.mul {p q : ℚ} : IsDecimal p → IsDecimal q → IsDecimal (p * q) := by
  rintro ⟨j, y, hp⟩ ⟨k, z, hq⟩
  refine ⟨j + k, y * z, ?_⟩
  push_cast
  rw [← hp, ← hq]
  ring

theorem isDecimal_natCast (n : Nat) : IsDecimal n := ⟨0, n, by simp⟩

theorem isDecimal_pow (k : Nat) : IsDecimal (10 ^ k) := ⟨0, 10 ^ k, by simp⟩

theorem isDecimal_inv_pow (k : Nat) : IsDecimal (1 / 10 ^ k) := ⟨k, 1, by simp⟩

theorem exponent_isDecimal {s : List Char} {e : ℚ} (h : exponent s = some e) : IsDecimal e := by
  cases s with
  | nil =>
      cases h
      exact isDecimal_natCast 1
  | cons c s =>
      rw [exponent] at h
      dsimp only at h
      split_ifs at h
      · cases h
        exact isDecimal_inv_pow _
      · cases h
        exact isDecimal_pow _

theorem unsigned_isDecimal {s : List Char} {q : ℚ} (h : unsigned s = some q) : IsDecimal q := by
  unfold unsigned at h
  dsimp only at h
  split_ifs at h
  obtain ⟨e, he, rfl⟩ := Option.map_eq_some_iff.mp h
  rw [div_eq_mul_one_div]
  exact ((isDecimal_natCast _).mul (isDecimal_inv_pow _)).mul (exponent_isDecimal he)

theorem parse_isDecimal {s : List Char} {q : ℚ} (h : parse s = some (.fin q)) : IsDecimal q := by
  unfold parse at h
  dsimp only at h
  split_ifs at h
  · cases h
  · cases h
  · obtain ⟨p, hp, heq⟩ := Option.map_eq_some_iff.mp h
    cases heq
    cases (sign s).1 with
    | false => exact unsigned_isDecimal hp
    | true => exact (unsigned_isDecimal hp).neg

/-! ### The text says which number it is -/

/-- What the digits behind the point stand for. -/
def fractionValue : List Nat → ℚ
  | [] => 0
  | n :: ds => (n + fractionValue ds) / 10

theorem fraction_value {d : Nat} (hd : 0 < d) (fuel r : Nat) (h : d ∣ r * 10 ^ fuel) (hr : r < d) :
    fractionValue (fraction d fuel r) = r / d := by
  induction fuel generalizing r with
  | zero =>
      have hzero : r = 0 := Nat.eq_zero_of_dvd_of_lt (by simpa using h) hr
      simp [fraction, fractionValue, hzero]
  | succ fuel ih =>
      rw [fraction]
      split_ifs with hzero
      · simp [fractionValue, hzero]
      · have hsplit : r * 10 % d + d * (r * 10 / d) = r * 10 := Nat.mod_add_div _ _
        have hrest : d ∣ r * 10 % d * 10 ^ fuel := by
          have hall : d ∣ (r * 10 % d + d * (r * 10 / d)) * 10 ^ fuel := by
            rw [hsplit, mul_assoc, ← Nat.pow_succ']
            exact h
          rw [Nat.add_mul, mul_assoc] at hall
          exact (Nat.dvd_add_left (Dvd.intro _ rfl)).mp hall
        have hq : (d : ℚ) ≠ 0 := by exact_mod_cast hd.ne'
        have hcast : ((r * 10 % d : Nat) : ℚ) + d * (r * 10 / d : Nat) = r * 10 := by
          exact_mod_cast hsplit
        rw [fractionValue, ih _ hrest (Nat.mod_lt _ hd)]
        field_simp
        linear_combination hcast

theorem fraction_lt {d : Nat} (fuel : Nat) {r : Nat} (hr : r < d) :
    ∀ n ∈ fraction d fuel r, n < 10 := by
  induction fuel generalizing r with
  | zero => exact nofun
  | succ fuel ih =>
      rw [fraction]
      split_ifs
      · exact nofun
      · intro n hn
        rcases List.mem_cons.mp hn with rfl | hn
        · exact Nat.div_lt_of_lt_mul (by omega)
        · exact ih (Nat.mod_lt _ (by omega)) n hn

/-- A divisor of a power of ten divides the power whose exponent it is itself. -/
theorem dvd_ten_pow_self {d k : Nat} (hd : d ≠ 0) (h : d ∣ 10 ^ k) : d ∣ 10 ^ d := by
  rw [← Nat.factorization_le_iff_dvd hd (by simp), Nat.factorization_pow] at h ⊢
  intro p
  have hp := h p
  simp only [Finsupp.smul_apply, smul_eq_mul] at hp ⊢
  by_cases hten : (10 : Nat).factorization p = 0
  · rw [hten] at hp ⊢
    omega
  · calc d.factorization p ≤ d * 1 := by
          have := Nat.factorization_lt p hd
          omega
      _ ≤ d * (10 : Nat).factorization p := Nat.mul_le_mul_left d (Nat.one_le_iff_ne_zero.mpr hten)

theorem IsDecimal.den_dvd {q : ℚ} (h : IsDecimal q) : q.den ∣ 10 ^ q.den := by
  obtain ⟨k, z, hz⟩ := h
  refine dvd_ten_pow_self (k := k) q.den_nz ?_
  have hnum : q.num * 10 ^ k = z * q.den := by
    have hcast : (q.num : ℚ) * 10 ^ k = z * q.den := by
      rw [← hz, ← Rat.mul_den_eq_num q]
      ring
    exact_mod_cast hcast
  have habs : q.num.natAbs * 10 ^ k = z.natAbs * q.den := by
    have := congrArg Int.natAbs hnum
    simpa [Int.natAbs_mul, Int.natAbs_pow] using this
  exact q.reduced.symm.dvd_of_dvd_mul_left (Dvd.intro_left _ habs.symm)

theorem fraction_rem {q : ℚ} (h : IsDecimal q) :
    fractionValue (fraction q.den q.den (q.num.natAbs % q.den)) =
      (q.num.natAbs % q.den : Nat) / q.den :=
  fraction_value q.den_pos q.den _ (h.den_dvd.mul_left _) (Nat.mod_lt _ q.den_pos)

/-- The absolute value, from the digits in front of the point and behind it. -/
theorem abs_eq {q : ℚ} (h : IsDecimal q) :
    |q| = (q.num.natAbs / q.den : Nat) +
      fractionValue (fraction q.den q.den (q.num.natAbs % q.den)) := by
  have hq : (q.den : ℚ) ≠ 0 := by exact_mod_cast q.den_nz
  have hsplit : ((q.num.natAbs % q.den : Nat) : ℚ) + q.den * (q.num.natAbs / q.den : Nat) =
      q.num.natAbs := by
    exact_mod_cast Nat.mod_add_div q.num.natAbs q.den
  have habs : |q| * q.den = q.num.natAbs := by
    have hden : |(q.den : ℚ)| = q.den := abs_of_nonneg (by positivity)
    rw [← hden, ← abs_mul, Rat.mul_den_eq_num]
    simp
  rw [fraction_rem h]
  field_simp
  linear_combination habs - hsplit

theorem point_head (ds : List Nat) : ∀ c ∈ (point ds).head?, c.isDigit = false := by
  cases ds with
  | nil => exact nofun
  | cons n ds =>
      intro c hc
      cases hc
      rfl

theorem digitChar_toNat {n : Nat} (h : n < 10) : (Nat.digitChar n).toNat - 48 = n := by
  interval_cases n <;> rfl

theorem map_digitChar_toNat {ds : List Nat} (h : ∀ n ∈ ds, n < 10) :
    (ds.map Nat.digitChar).map (fun c => c.toNat - 48) = ds := by
  rw [List.map_map]
  exact (List.map_congr_left fun n hn => digitChar_toNat (h n hn)).trans (List.map_id ds)

theorem point_inj {ds es : List Nat} (hds : ∀ n ∈ ds, n < 10) (hes : ∀ n ∈ es, n < 10)
    (h : point ds = point es) : ds = es := by
  have hmap : ds.map Nat.digitChar = es.map Nat.digitChar := by
    cases ds with
    | nil =>
        cases es with
        | nil => rfl
        | cons n es => cases h
    | cons m ds =>
        cases es with
        | nil => cases h
        | cons n es => exact (List.cons.inj h).2
  rw [← map_digitChar_toNat hds, hmap, map_digitChar_toNat hes]

/-- **A decimal can be read off its text.** -/
theorem display_inj {p q : ℚ} (hp : IsDecimal p) (hq : IsDecimal q)
    (h : display p = display q) : p = q := by
  have hdigit : ∀ (n : Nat) (ds : List Nat) (s : List Char),
      Nat.toDigits 10 n ++ point ds ≠ '-' :: s := by
    intro n ds s heq
    cases hn : Nat.toDigits 10 n with
    | nil => exact Nat.toDigits_ne_nil hn
    | cons c cs =>
        rw [hn] at heq
        have hc : c.isDigit = true := isDigit_toDigits (n := n) (by simp [hn])
        rw [(List.cons.inj heq).1] at hc
        cases hc
  have habs : ∀ {p q : ℚ}, IsDecimal p → IsDecimal q →
      Nat.toDigits 10 (p.num.natAbs / p.den) ++
          point (fraction p.den p.den (p.num.natAbs % p.den)) =
        Nat.toDigits 10 (q.num.natAbs / q.den) ++
          point (fraction q.den q.den (q.num.natAbs % q.den)) → |p| = |q| := by
    intro p q hp hq h
    obtain ⟨hwhole, hpart⟩ := run_eq (p := Char.isDigit) (fun _ => isDigit_toDigits)
      (fun _ => isDigit_toDigits) (point_head _) (point_head _) h
    have hfrac := point_inj (fraction_lt _ (Nat.mod_lt _ p.den_pos))
      (fraction_lt _ (Nat.mod_lt _ q.den_pos)) hpart
    rw [abs_eq hp, abs_eq hq, toDigits_inj hwhole, hfrac]
  unfold display at h
  by_cases hneg : p < 0
  · by_cases hneg' : q < 0
    · rw [if_pos hneg, if_pos hneg'] at h
      have := habs hp hq (List.append_cancel_left h)
      rw [abs_of_neg hneg, abs_of_neg hneg'] at this
      exact neg_injective this
    · rw [if_pos hneg, if_neg hneg'] at h
      exact absurd h.symm (hdigit _ _ _)
  · by_cases hneg' : q < 0
    · rw [if_neg hneg, if_pos hneg'] at h
      exact absurd h (hdigit _ _ _)
    · rw [if_neg hneg, if_neg hneg'] at h
      have := habs hp hq h
      rwa [abs_of_nonneg (not_lt.mp hneg), abs_of_nonneg (not_lt.mp hneg')] at this

end Decimals
