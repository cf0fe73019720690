/-
  Datad/Qos/External.lean
  =======================
  **The QoS report of the modem log** (`rust/src/qos.rs`, `parse_external`).

  A report is a line with `[DATA]` and `cid1` on it, and the values are those of the last
  report.  A report that cannot be read ends the whole search, where one whose QCI is out
  of range is passed over: so one line that was cut off hides all the others
  (`parseExternal_exact`).

  The doubles are a parameter: `Floats` is what the code asks of `f64`.
-/
import Datad.Lib.Lines
import Datad.Lib.Finding
import Mathlib.Data.Rat.Floor

namespace Datad

namespace Qos

open Lines Finding

/-! ### Numbers and texts -/

/-- `f64`, as far as the bit rates need it. -/
structure Floats (F : Type) where
  ofInt : Int → F
  /-- `str::parse` of digits and points. -/
  parse : List Char → Option F
  add : F → F → F
  sub : F → F → F
  mul : F → F → F
  div : F → F → F
  abs : F → F
  round : F → F
  lt : F → F → Bool
  le : F → F → Bool
  /-- With three decimals. -/
  format : F → String

def digitsValue (ds : List Char) : Nat := ds.foldl (fun n c => n * 10 + (c.toNat - '0'.toNat)) 0

/-- `parse::<i64>` of digits. -/
def parseI64 (ds : List Char) : Option Int :=
  if ds ≠ [] ∧ digitsValue ds < 9223372036854775808 then some (digitsValue ds) else none

def integerAfterCi (s : List Char) (tag : String) : Option Int :=
  (after tag.toList s).bind fun tail =>
    parseI64 ((tail.dropWhile fun c => !c.isDigit).takeWhile Char.isDigit)

variable {F : Type} (fl : Floats F)

def formatMbps (v : F) : String := fl.format v

/-! ### The report -/

structure Values where
  qci : Int := 0
  ambrDl : String := ""
  ambrUl : String := ""
  bearer : String := ""
  stale : Bool := false
deriving DecidableEq, Repr

/-- The three numbers of a line in lower case. -/
def numbers (lower : List Char) : Option (Int × Int × Int) := do
  let qci ← integerAfterCi lower "qci="
  let dl ← integerAfterCi lower "dl_ambr="
  let ul ← integerAfterCi lower "ul_ambr="
  return (qci, dl, ul)

def inRange (n : Int × Int × Int) : Bool :=
  decide (1 ≤ n.1) && decide (n.1 ≤ 255) && !(decide (n.2.1 < 0) || decide (n.2.2 < 0))

def valuesOf (n : Int × Int × Int) : Values where
  qci := n.1
  ambrDl := formatMbps fl (fl.div (fl.ofInt n.2.1) (fl.ofInt 1000))
  ambrUl := formatMbps fl (fl.div (fl.ofInt n.2.2) (fl.ofInt 1000))

def isReport (line : List Char) : Bool := contains "[DATA]" line && contains "cid1" (lower line)

def external (selected : Option Values) : List (List Char) → Option Values
  | [] => selected
  | line :: rest =>
      if !isReport line then external selected rest
      else
        match numbers (lower line) with
        | none => none
        | some n =>
            if !inRange n then external selected rest else external (some (valuesOf fl n)) rest

def parseExternal (text : String) : Option Values := external fl none (lines text.toList)

/-! ### What it is for -/

/-- The values of a line that has them all and whose QCI is one. -/
def good (line : List Char) : Option Values :=
  if isReport line then
    ((numbers (lower line)).filter fun n => decide (1 ≤ n.1 ∧ n.1 ≤ 255)).map (valuesOf fl)
  else none

def goodLines (text : String) : List Values := (lines text.toList).filterMap (good fl)

/-- Every report has its three numbers. -/
def Readable (text : String) : Prop :=
  ∀ line ∈ lines text.toList, isReport line = true → (numbers (lower line)).isSome

instance (text : String) : Decidable (Readable text) :=
  inferInstanceAs (Decidable (∀ line ∈ lines text.toList, isReport line = true →
    (numbers (lower line)).isSome))

section External

variable {fl} {line : List Char} {rest : List (List Char)} {selected : Option Values}

theorem digits_nonneg {ds : List Char} {i : Int} (h : parseI64 ds = some i) : 0 ≤ i := by
  unfold parseI64 at h
  split at h
  · obtain rfl := Option.some.inj h
    exact Int.natCast_nonneg _
  · cases h

theorem integerAfterCi_nonneg {s : List Char} {tag : String} {i : Int}
    (h : integerAfterCi s tag = some i) : 0 ≤ i := by
  obtain ⟨tail, -, h⟩ := Option.bind_eq_some_iff.mp h
  exact digits_nonneg h

/-- Only the QCI can be out of range. -/
theorem inRange_iff {n : Int × Int × Int} (h : numbers (lower line) = some n) :
    inRange n = true ↔ 1 ≤ n.1 ∧ n.1 ≤ 255 := by
  simp only [numbers, Option.bind_eq_bind, Option.bind_eq_some_iff, Option.pure_def,
    Option.some.injEq] at h
  obtain ⟨qci, -, dl, hdl, ul, hul, rfl⟩ := h
  have hdl := integerAfterCi_nonneg hdl
  have hul := integerAfterCi_nonneg hul
  simp only [inRange, Bool.and_eq_true, decide_eq_true_eq, Bool.not_eq_true', Bool.or_eq_false_iff,
    decide_eq_false_iff_not]
  omega

/-- **One line** that is no report or can be read. -/
theorem external_cons (h : isReport line = true → (numbers (lower line)).isSome) :
    external fl selected (line :: rest) = external fl ((good fl line).or selected) rest := by
  by_cases hreport : isReport line = true
  · obtain ⟨n, hn⟩ := Option.isSome_iff_exists.mp (h hreport)
    have hrange := inRange_iff hn
    by_cases hqci : 1 ≤ n.1 ∧ n.1 ≤ 255
    · simp [external, good, hreport, hn, hrange.mpr hqci, Option.filter, hqci]
    · have hout : inRange n = false := by simpa using fun h => hqci (hrange.mp h)
      simp [external, good, hreport, hn, hout, Option.filter, hqci]
  · simp [external, good, hreport]

/-- Where every report can be read, the last good one is returned. -/
theorem external_readable {ls : List (List Char)}
    (h : ∀ line ∈ ls, isReport line = true → (numbers (lower line)).isSome) :
    external fl selected ls = (ls.filterMap (good fl)).getLast?.or selected := by
  induction ls generalizing selected with
  | nil => rfl
  | cons line ls ih =>
    rw [external_cons (h line List.mem_cons_self), ih fun l hl => h l (List.mem_cons_of_mem _ hl)]
    cases hgood : good fl line with
    | none => simp [hgood]
    | some v => simp [hgood, List.getLast?_cons]

/-- Where one cannot, nothing is. -/
theorem external_unreadable {ls : List (List Char)}
    (h : ¬∀ line ∈ ls, isReport line = true → (numbers (lower line)).isSome) :
    external fl selected ls = none := by
  induction ls generalizing selected with
  | nil => exact absurd (by simp) h
  | cons line ls ih =>
    by_cases hline : isReport line = true → (numbers (lower line)).isSome
    · rw [external_cons hline]
      apply ih
      intro hrest
      apply h
      intro l hl
      rcases List.mem_cons.mp hl with rfl | hl
      · exact hline
      · exact hrest l hl
    · push Not at hline
      simp [external, hline.1, Option.not_isSome_iff_eq_none.mp hline.2]

theorem parseExternal_readable {text : String} (h : Readable text) :
    parseExternal fl text = (goodLines fl text).getLast? := by
  rw [parseExternal, external_readable h, goodLines, Option.or_none]

theorem parseExternal_unreadable {text : String} (h : ¬Readable text) :
    parseExternal fl text = none := external_unreadable h

end External

/-- **One bad line.**  The values of the last good line are returned if and only if there
    is none, or every report has its three numbers.  And two texts with the same good lines
    give the same if and only if there is none, or in both every report has them, or in
    neither. -/
theorem parseExternal_exact :
    (∀ text, parseExternal fl text = (goodLines fl text).getLast? ↔
      goodLines fl text = [] ∨ Readable text) ∧
    ∀ text text', goodLines fl text = goodLines fl text' →
      (parseExternal fl text = parseExternal fl text' ↔
        goodLines fl text = [] ∨ (Readable text ↔ Readable text')) := by
  refine ⟨fun text => ?_, fun text text' hsame => ?_⟩
  · by_cases h : Readable text
    · simp [parseExternal_readable h, h]
    · rw [parseExternal_unreadable h, eq_comm, List.getLast?_eq_none_iff]
      simp [h]
  · by_cases h : Readable text <;> by_cases h' : Readable text'
    · simp [parseExternal_readable h, parseExternal_readable h', hsame, h, h']
    · rw [parseExternal_readable h, parseExternal_unreadable h', List.getLast?_eq_none_iff]
      simp [h, h']
    · rw [parseExternal_unreadable h, parseExternal_readable h', ← hsame, eq_comm,
        List.getLast?_eq_none_iff]
      simp [h, h']
    · simp [parseExternal_unreadable h, parseExternal_unreadable h', h, h']

/-! ### One report and the beginning of another -/

/-- The doubles where nothing has to be rounded. -/
def exact : Floats ℚ where
  ofInt := fun i => i
  parse := fun ds =>
    let whole := ds.takeWhile Char.isDigit
    let rest := ds.drop whole.length
    let part := rest.drop 1
    if part.all Char.isDigit && !(whole ++ part).isEmpty then
      some (digitsValue (whole ++ part) / 10 ^ part.length)
    else none
  add := fun a b => a + b
  sub := fun a b => a - b
  mul := fun a b => a * b
  div := fun a b => a / b
  abs := fun a => |a|
  round := fun a => (⌊a + 1 / 2⌋ : ℤ)
  lt := fun a b => decide (a < b)
  le := fun a b => decide (a ≤ b)
  format := fun a =>
    let n := (⌊a * 1000 + 1 / 2⌋).toNat
    let part := toString (n % 1000)
    toString (n / 1000) ++ "." ++ String.ofList (List.replicate (3 - part.length) '0') ++ part

def reportLine : String := "[DATA] cid1, QCI=[9], DL_AMBR=[150000]kbps, UL_AMBR=[75000]kbps"

/-- The second line was cut off. -/
def cutReport : String := reportLine ++ "\n[DATA] cid1, QCI="

def reportValues : Values := { qci := 9, ambrDl := "150.000", ambrUl := "75.000" }

example : parseExternal exact reportLine = some reportValues := by decide +kernel

theorem parseExternal_exact_cut :
    parseExternal exact reportLine ≠ parseExternal exact cutReport := by
  intro h
  have hiff := (parseExternal_exact exact).2 reportLine cutReport (by decide +kernel)
  rcases hiff.mp h with hnone | hboth
  · exact absurd hnone (by decide +kernel)
  · exact absurd (hboth.mp (by decide +kernel)) (by decide +kernel)

/-- The line that was cut off hides the report before it. -/
theorem last_report_false :
    ¬∀ text, parseExternal exact text = (goodLines exact text).getLast? := by
  intro h
  exact absurd (h cutReport) (by decide +kernel)

end Qos

end Datad
