/-
  Datad/Screen/Scalars.lean
  =========================
  **How the screen's conclusions read `/state`** (`rust/src/project/screen.rs`): as the C
  of the screen did, with fields cut to the length of their buffers, numbers read from
  the front of a text, and the radio technology recognised by words in it.

  The doubles are a parameter: `Doubles` is what is asked of `f64`, and `rationals` has
  rationals in their place.
-/
import Datad.JsonText
import Datad.Lib.Decimals

namespace Datad

namespace Screen

open Bytes

/-! ### Texts -/

/-- The longest prefix of at most `n` bytes. -/
def fits : Nat → List Char → List Char
  | _, [] => []
  | n, c :: s => if c.utf8Size ≤ n then c :: fits (n - c.utf8Size) s else []

/-- A text in a buffer of `cap` bytes, of which the last is a NUL. -/
def cstr (s : String) (cap : Nat) : String := String.ofList (fits (cap - 1) s.toList)

def isAscii (s : String) : Bool := s.toList.all fun c => decide (c.toNat < 128)

/-- `contains` -/
def has (s w : String) : Bool := s.toList.tails.any fun t => w.toList.isPrefixOf t

def startsWith (s w : String) : Bool := w.toList.isPrefixOf s.toList

def toUpper (b : UInt8) : UInt8 := if 97 ≤ b ∧ b ≤ 122 then b - 32 else b

/-- The first `n` bytes, in capitals. -/
def upperPrefix (s : String) (n : Nat) : String :=
  fromUtf8Lossy (((utf8 s).take n).map toUpper)

def hasCi (s w : String) : Bool := has (upperPrefix s 47) w

/-- The English beside a Chinese text, which stands for itself when it is ASCII. -/
def enFor (zh en : String) (cap : Nat) : String := if isAscii zh then "" else cstr en cap

def int (i : Int) : String := String.ofList (intText i)

/-! ### Numbers -/

def isSpace (c : Char) : Bool :=
  c = ' ' || c = '\t' || c = '\n' || c = '\r' || c = '\x0b' || c = '\x0c'

def I64_MAX : Int := 2 ^ 63 - 1

/-- `as i32` -/
def asI32 (i : Int) : Int := Int.bmod i (2 ^ 32)

/-- The digits that a number begins with, read as far as an `i64` holds them. -/
def digitsValue (ds : List Char) : Int :=
  ds.foldl (fun v c => min (min (v * 10) I64_MAX + ((c.toNat : Int) - 48)) I64_MAX) 0

/-- `strtol`: nothing without a digit. -/
def strtol (s : String) : Option Int :=
  let s := s.toList.dropWhile isSpace
  let (neg, s) := Decimals.sign s
  let ds := s.takeWhile Char.isDigit
  if ds = [] then none else some (if neg then -(digitsValue ds) else digitsValue ds)

def atoi (s : String) : Int := (strtol s).getD 0

/-- `atoi(bs + 1)` on the label of a band. -/
def atoiAfterFirstByte (s : String) : Int :=
  match utf8 s with
  | [] => 0
  | _ :: b => asI32 (atoi (fromUtf8Lossy b))

/-- An exponent with its digits, and what is behind it. -/
def exponent : List Char → List Char × List Char
  | c :: s =>
      if c = 'e' ∨ c = 'E' then
        let (mark, ds) :=
          match s with
          | '+' :: t => (['+'], t)
          | '-' :: t => (['-'], t)
          | t => ([], t)
        let digits := ds.takeWhile Char.isDigit
        if digits = [] then ([], c :: s) else (c :: (mark ++ digits), ds.dropWhile Char.isDigit)
      else ([], c :: s)
  | [] => ([], [])

/-- The number a text begins with, and the rest; nothing without a digit. -/
def strtod (s : List Char) : Option (List Char × List Char) :=
  let s := s.dropWhile isSpace
  let (mark, s) :=
    match s with
    | '+' :: t => (['+'], t)
    | '-' :: t => (['-'], t)
    | t => ([], t)
  let whole := s.takeWhile Char.isDigit
  let s := s.dropWhile Char.isDigit
  let (point, part, s) :=
    match s with
    | '.' :: t => (['.'], t.takeWhile Char.isDigit, t.dropWhile Char.isDigit)
    | t => ([], [], t)
  if whole = [] ∧ part = [] then none
  else
    let (e, s) := exponent s
    some (mark ++ whole ++ point ++ part ++ e, s)

/-- What is asked of `f64`. -/
structure Doubles (F : Type) where
  zero : F
  parse : List Char → Option F
  ofInt : Int → F
  /-- Towards zero, and no further than an `i64` goes. -/
  toInt : F → Int
  eq : F → F → Bool
  lt : F → F → Bool
  le : F → F → Bool
  /-- With no digits behind the point, and with one. -/
  fmt0 : F → String
  fmt1 : F → String

section Doubles

variable {F : Type} (fl : Doubles F)

def Doubles.read (text : List Char) : F := (fl.parse text).getD fl.zero

def atof (s : String) : F :=
  match strtod s.toList with
  | none => fl.zero
  | some (text, _) => fl.read text

/-- `sscanf` with `n` conversions: the numbers it reads. -/
def scanFloats : Nat → List Char → List F
  | 0, _ => []
  | n + 1, s =>
      match strtod s with
      | none => []
      | some (text, rest) =>
          fl.read text ::
            match rest with
            | ',' :: rest => scanFloats n rest
            | _ => []

end Doubles

/-- The nearest integer, the even one of two. -/
def roundEven (q : ℚ) : Int :=
  let r := q - q.floor
  if r > 1 / 2 ∨ r = 1 / 2 ∧ q.floor % 2 = 1 then q.floor + 1 else q.floor

/-- `format!` with `d` digits behind the point. -/
def fixed (d : Nat) (q : ℚ) : String :=
  let n := (roundEven (|q| * 10 ^ d)).toNat
  let digits := Nat.toDigits 10 (n % 10 ^ d)
  let part := List.replicate (d - digits.length) '0' ++ digits
  String.ofList ((if q < 0 then ['-'] else []) ++ Nat.toDigits 10 (n / 10 ^ d) ++
    if d = 0 then [] else '.' :: part)

/-- Rationals in place of doubles. -/
def rationals : Doubles ℚ where
  zero := 0
  parse s :=
    match Decimals.parse s with
    | some (.fin q) => some q
    | _ => none
  ofInt i := i
  toInt q := max (-2 ^ 63) (min (if q < 0 then q.ceil else q.floor) I64_MAX)
  eq p q := decide (p = q)
  lt p q := decide (p < q)
  le p q := decide (p ≤ q)
  fmt0 := fixed 0
  fmt1 := fixed 1

example : rationals.fmt1 (-19 / 20) = "-1.0" := by decide +kernel

/-! ### Radio technologies -/

inductive Tone where
  | ok | warn | bad | neutral
deriving DecidableEq, Repr

/-- The radio access technology. -/
inductive Rat where
  | none | g2 | g3 | g4 | nsa | sa
deriving DecidableEq, Repr

def has5a (s : String) : Bool :=
  hasCi s "5G-A" || hasCi s "5GA" || hasCi s "5G_A" || hasCi s "5G-ADV"

def ratOf (raw : String) : Rat :=
  if raw = "" then .none
  else
    let u := upperPrefix raw 31
    if has u "LIMIT" || has u "EMERGENCY" || has u "NO_SERVICE" || has u "NOSERVICE" then .none
    else if has u "NSA" || has u "ENDC" || has u "EN-DC" then .nsa
    else if u = "SA" || u = "NR" || has u "5G" || has u "NR5G" || startsWith u "SA_" ||
        startsWith u "NR_" || has u "_SA" || has u " SA" then .sa
    else if has u "LTE" || has u "4G" then .g4
    else if ["WCDMA", "UMTS", "HSPA", "HSDPA", "HSUPA", "TD-SCDMA", "TDSCDMA", "CDMA2000", "EVDO",
        "EV-DO", "EHRPD", "HRPD", "3G"].any (has u) then .g3
    else if ["GSM", "GPRS", "EDGE", "2G", "CDMA", "1XRTT", "1X"].any (has u) then .g2
    else .none

/-- The text from the last run of digits on. -/
def lastNumber (afterDigit : Bool) : List Char → Option (List Char)
  | [] => none
  | c :: s =>
      (lastNumber c.isDigit s).or (if c.isDigit && !afterDigit then some (c :: s) else none)

/-- A band as `n78` or `B3`; a frequency or what has no number as it is. -/
def bandShort (raw : String) (nr : Bool) : String :=
  if raw = "" then "-"
  else
    match lastNumber false raw.toList with
    | some t =>
        if atoi (String.ofList t) < 450 then
          (if nr then "n" else "B") ++ String.ofList (intText (atoi (String.ofList t)))
        else cstr raw 16
    | none => cstr raw 16

/-- 2 for strong, 1 for fair, 0 for weak, -1 without a signal. -/
def barsTier (bars : Int) : Int :=
  if bars ≤ 0 then -1 else if bars ≥ 4 then 2 else if bars = 3 then 1 else 0

def pinnedMode (sel : String) : Option String :=
  if sel = "" ∨ ¬ hasCi sel "ONLY" then none
  else if sel = "Only_GSM_WCDMA" then some "只用 3G 和 2G"
  else if hasCi sel "GSM" || hasCi sel "2G" then some "只用 2G"
  else if hasCi sel "WCDMA" || hasCi sel "3G" || hasCi sel "TD" then some "只用 3G"
  else if hasCi sel "LTE" || hasCi sel "4G" then some "只用 4G"
  else if hasCi sel "5G" || hasCi sel "NR" then some "只用 5G"
  else some "限定了制式"

end Screen

end Datad
