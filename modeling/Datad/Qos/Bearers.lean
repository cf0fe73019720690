/-
  Datad/Qos/Bearers.lean
  ======================
  **The data bearers of the key log** (`rust/src/qos.rs`, `collect` and `select`).

  A line that names an access point is a bearer.  What the next lines say of the QCI
  belongs to it, and a bearer that is named again is the same bearer, only newer.

  `select` takes the bearer of the best class, and of these the newest.  What that one
  lacks is taken from other bearers of the same core: by the source's own words only from
  older ones, but the search goes by class as well, and a bearer of a lower class may be
  the newer one (`select_iff`).
-/
import Datad.Lib.Ranked
import Datad.Qos.External
import Mathlib.Data.Bool.Basic
import Mathlib.Data.Prod.Lex

namespace Datad

namespace Qos

open Lines Finding

inductive Core where
  | unknown | eps | nr
deriving DecidableEq, Repr

def Core.name : Core → String
  | .unknown => ""
  | .eps => "eps"
  | .nr => "nr_pdu"

/-- What is known of the registration. -/
structure Query where
  serving : Option (Int × Int) := none
  home : Option (Int × Int) := none
  core : Core := .unknown
deriving DecidableEq, Repr

structure Candidate (F : Type) where
  current : Bool := false
  core : Core := .unknown
  mcc : Option Int := none
  mnc : Option Int := none
  seq : Nat := 0
  qci : Option Int := none
  dl : Option F := none
  ul : Option F := none

structure Parsed (F : Type) where
  candidates : List (Candidate F)
  fallbackQci : Option Int

/-! ### Reading a line -/

section Line

variable {F : Type} (fl : Floats F)

def lineCore (lower : List Char) : Core :=
  if contains "pdu_session_id" lower || contains "session_ambr" lower ||
      (contains "dnn=" lower && !contains "access_point=" lower) then .nr
  else .eps

/-- At most six digits right behind the tag. -/
def digitsAfterCi (s : List Char) (tag : String) : Option Int :=
  (after tag.toList s).bind fun tail => parseI64 ((tail.takeWhile Char.isDigit).take 6)

def digitsAndPoints (s : List Char) : List Char :=
  s.takeWhile fun c => c.isDigit || decide (c = '.')

def numberAfter (s : List Char) (key : String) : Option F :=
  (after key.toList s).bind fun tail => fl.parse (digitsAndPoints tail)

def positive (v : F) : Option F := if fl.lt (fl.ofInt 0) v then some v else none

/-- The rate of an EPS bearer: base, extended and extended-2 octet. -/
def apnAmbr (s : List Char) (key : String) : Option F :=
  let base := (numberAfter fl s (key ++ "=")).map fun v => fl.div v (fl.ofInt 1000)
  let ext := (numberAfter fl s (key ++ "_ext=")).bind (positive fl)
  let ext2 := (numberAfter fl s (key ++ "_ext2=")).bind (positive fl)
  match ext2, base with
  | some v, some b =>
      let printed := ext.getD (fl.ofInt 0)
      if fl.lt (fl.add b printed) v then
        let steps := fl.div (fl.sub (fl.sub v b) printed) (fl.ofInt 256)
        let whole := fl.round steps
        -- the printed sum is not always exact
        if fl.le (fl.ofInt 1) whole &&
            fl.lt (fl.abs (fl.sub steps whole)) (fl.div (fl.ofInt 1) (fl.ofInt 100)) then
          some (fl.add (ext.getD b) (fl.mul whole (fl.ofInt 256)))
        else some (fl.sub v b)
      else some v
  | some v, none => some v
  | none, _ => ext.or base

/-- The factor that a unit stands for. -/
def scaled (scale : F) (suffix : List Char) : Option F :=
  if contains "gbps" suffix then some (fl.mul scale (fl.ofInt 1000))
  else if contains "mbps" suffix then some scale
  else if contains "kbps" suffix then some (fl.div scale (fl.ofInt 1000))
  else if contains "bps" suffix then some (fl.div scale (fl.ofInt 1000000))
  else none

/-- The rate of an NR session: a number times the unit in brackets. -/
def sessionAmbr (s : List Char) (valueKey unitKey : String) : Option F := do
  let value ← numberAfter fl s valueKey
  let unit ← after unitKey.toList s
  let opened ← after ['('] unit
  let token := digitsAndPoints opened
  let scale ← fl.parse token
  let scale ← scaled fl scale (lower (opened.drop token.length))
  return fl.mul value scale

/-- The line names an access point that is not for calls or emergencies. -/
def dataContext (lower : List Char) : Bool :=
  !(["dnn=ims", "dnn=sos", "dnn=emergency", "access_point=ims"].any fun v => contains v lower) &&
    (contains "dnn=" lower || contains "access_point=" lower)

end Line

/-! ### Reading the logs -/

/-- Between two lines. -/
structure Scan (F : Type) where
  candidates : List (Candidate F) := []
  fallbackQci : Option Int := none
  seq : Nat := 0
  context : Option Nat := none
  contextLeft : Nat := 0
  pendingQci : Option Int := none
  pendingLeft : Nat := 0

namespace Scan

variable {F : Type} (fl : Floats F)

def same (lower : List Char) (c : Candidate F) : Bool :=
  decide (c.core = lineCore lower) && decide (c.mcc = digitsAfterCi lower "mcc") &&
    decide (c.mnc = digitsAfterCi lower "mnc")

/-- The bearer of the line, a new one unless it has been named before. -/
def locate (s : Scan F) (current : Bool) (lower : List Char) : List (Candidate F) × Nat :=
  match s.candidates.findIdx? (same lower) with
  | some i => (s.candidates, i)
  | none =>
      (s.candidates ++ [{
        current := current
        core := lineCore lower
        mcc := digitsAfterCi lower "mcc"
        mnc := digitsAfterCi lower "mnc"
        seq := s.seq }], s.candidates.length)

/-- A bearer is named again: it is as new as this line. -/
def renew (current : Bool) (seq : Nat) (pending : Option Int) (c : Candidate F) : Candidate F :=
  { c with current := c.current || current, seq := seq, qci := pending.or c.qci }

def bearerLine (s : Scan F) (current : Bool) (lower : List Char) : Scan F × Option Nat :=
  if dataContext lower then
    let found := s.locate current lower
    ({ s with
        candidates := found.1.modify found.2 (renew current s.seq s.pendingQci)
        context := some found.2
        contextLeft := 4
        pendingQci := none
        pendingLeft := 0 }, some found.2)
  else (s, none)

def qciLine (s : Scan F) (lower : List Char) : Scan F :=
  match if contains "qci" lower then integerAfterCi lower "qci" else none with
  | none => s
  | some qci =>
      match if 0 < s.contextLeft then s.context else none with
      | some i => { s with candidates := s.candidates.modify i fun c => { c with qci := some qci } }
      | none =>
          let s := { s with fallbackQci := s.fallbackQci.or (some qci) }
          if contains "default bearer qci" lower then
            { s with pendingQci := some qci, pendingLeft := 4 }
          else s

def rates (lower : List Char) (c : Candidate F) : Candidate F :=
  if contains "session_ambr" lower then
    { c with
      dl := sessionAmbr fl lower "session_ambr_dl=" "session_ambr_dl_unit="
      ul := sessionAmbr fl lower "session_ambr_ul=" "session_ambr_ul_unit=" }
  else if contains "apn_ambr" lower then
    { c with dl := apnAmbr fl lower "apn_ambr_dl", ul := apnAmbr fl lower "apn_ambr_ul" }
  else c

def ambrLine (s : Scan F) (lower : List Char) : Option Nat → Scan F
  | some i => { s with candidates := s.candidates.modify i (rates fl lower) }
  | none => s

/-- What is remembered of earlier lines is forgotten after four. -/
def age (s : Scan F) : Scan F :=
  { s with
    contextLeft := s.contextLeft - 1
    context := if s.contextLeft - 1 = 0 then none else s.context
    pendingLeft := s.pendingLeft - 1
    pendingQci := if s.pendingLeft - 1 = 0 then none else s.pendingQci }

/-- One line with `[DATA]` on it. -/
def line (current : Bool) (s : Scan F) (l : List Char) : Scan F :=
  let lower := lower l
  let (s, bearer) := { s with seq := s.seq + 1 }.bearerLine current lower
  ((s.qciLine lower).ambrLine fl lower bearer).age

def text (s : Scan F) (t : String × Bool) : Scan F :=
  ((lines t.1.toList).filter (contains "[DATA]")).foldl (line fl t.2)
    { s with context := none, contextLeft := 0, pendingQci := none, pendingLeft := 0 }

end Scan

variable {F : Type} (fl : Floats F)

def collect (texts : List (String × Bool)) : Parsed F :=
  let s := texts.foldl (Scan.text fl) {}
  { candidates := s.candidates, fallbackQci := s.fallbackQci }

/-! ### Choosing a bearer -/

/-- The bearer names a network that is neither the serving nor the home one. -/
def foreign (query : Query) (c : Candidate F) : Bool :=
  match query.serving, c.mcc, c.mnc with
  | some serving, some m, some n =>
      decide ((m, n) ≠ serving) && decide (some (m, n) ≠ query.home)
  | _, _, _ => false

/-- The values of a bearer; `bare` is the QCI that was seen outside any. -/
def shown (query : Query) (bare : Option Int) (c : Candidate F) : Values where
  qci := ((c.qci).or bare).getD 0
  ambrDl := (c.dl.map (formatMbps fl)).getD ""
  ambrUl := (c.ul.map (formatMbps fl)).getD ""
  bearer := c.core.name
  stale := decide (query.core ≠ .unknown) && decide (c.core ≠ .unknown) &&
    decide (c.core ≠ query.core)

/-- Current log first, then no foreign network, then the newest. -/
def rank (query : Query) (c : Candidate F) : (Bool ×ₗ Bool) ×ₗ ℕ :=
  toLex (toLex (c.current, !foreign query c), c.seq)

def selectedBearer (parsed : Parsed F) (query : Query) : Option (Candidate F) :=
  highest (rank query) (fun _ => true) parsed.candidates

section Fill

variable {β γ : Type} (parsed : Parsed F) (query : Query) (sel : Candidate F)
  (f : Candidate F → Option β)

/-- The newest bearer of the core that has the field and is older than the selected one. -/
def newestOlder : Option (Candidate F) :=
  highest Candidate.seq
    (fun c => decide (c.core = sel.core) && decide (c.seq < sel.seq) && (f c).isSome)
    parsed.candidates

/-- The first in rank of the bearers of the core that have the field. -/
def firstInRank : Option (Candidate F) :=
  highest (rank query) (fun c => decide (c.core = sel.core) && (f c).isSome) parsed.candidates

/-- The first in rank shows what the newest of the older ones shows, where the selected
    bearer lacks the field. -/
def Agrees (show' : Option β → γ) : Prop :=
  f sel = none →
    show' ((firstInRank parsed query sel f).bind f) = show' ((newestOlder parsed sel f).bind f)

end Fill

/-- The QCI that stands in for a missing one. -/
def bareQci (parsed : Parsed F) (sel : Candidate F) : Option Int :=
  if sel.core = .eps then parsed.fallbackQci else none

/-- The selected bearer, with what it lacks taken from the newest of the older ones. -/
def expected (parsed : Parsed F) (query : Query) : Values :=
  match selectedBearer parsed query with
  | none => { qci := parsed.fallbackQci.getD 0 }
  | some sel =>
      shown fl query (bareQci parsed sel)
        { sel with
          qci := sel.qci.or ((newestOlder parsed sel Candidate.qci).bind Candidate.qci)
          dl := sel.dl.or ((newestOlder parsed sel Candidate.dl).bind Candidate.dl)
          ul := sel.ul.or ((newestOlder parsed sel Candidate.ul).bind Candidate.ul) }

namespace Scan

variable {fl}

/-- The bearers were last named on different lines. -/
structure Dated (s : Scan F) : Prop where
  apart : (s.candidates.map Candidate.seq).Nodup
  past : ∀ n ∈ s.candidates.map Candidate.seq, n ≤ s.seq

theorem map_seq_modify {l : List (Candidate F)} {i : Nat} {g : Candidate F → Candidate F}
    (hg : ∀ c, (g c).seq = c.seq) : (l.modify i g).map Candidate.seq = l.map Candidate.seq := by
  apply List.ext_getElem?
  intro j
  simp only [List.getElem?_map, List.getElem?_modify]
  by_cases hij : i = j
  · cases l[j]? <;> simp [hij, hg]
  · simp [hij]

theorem map_seq_renew {l : List (Candidate F)} {i n : Nat} {current : Bool} {pending : Option Int} :
    (l.modify i (renew current n pending)).map Candidate.seq = (l.map Candidate.seq).set i n := by
  apply List.ext_getElem?
  intro j
  simp only [List.getElem?_map, List.getElem?_modify, List.getElem?_set]
  by_cases hij : i = j
  · subst hij
    cases h : l[i]? with
    | none =>
      have := List.getElem?_eq_none_iff.mp h
      simp [this]
    | some c =>
      obtain ⟨hi, -⟩ := List.getElem?_eq_some_iff.mp h
      simp [hi, renew]
  · simp [hij]

/-- Only the age of the bearer that is named changes. -/
theorem Dated.of_seq {s s' : Scan F} (h : s.Dated)
    (hseq : s'.candidates.map Candidate.seq = s.candidates.map Candidate.seq)
    (hnow : s'.seq = s.seq) : s'.Dated := ⟨hseq ▸ h.apart, by rw [hseq, hnow]; exact h.past⟩

/-- What a line with a bearer on it does to the ages. -/
theorem seq_bearerLine (s : Scan F) (current : Bool) (lower : List Char) :
    (s.bearerLine current lower).1.candidates.map Candidate.seq = s.candidates.map Candidate.seq ∨
      (∃ i, (s.bearerLine current lower).1.candidates.map Candidate.seq =
        (s.candidates.map Candidate.seq).set i s.seq) ∨
      (s.bearerLine current lower).1.candidates.map Candidate.seq =
        s.candidates.map Candidate.seq ++ [s.seq] := by
  unfold bearerLine
  split
  · simp only [map_seq_renew]
    unfold locate
    split
    · exact Or.inr (Or.inl ⟨_, rfl⟩)
    · refine Or.inr (Or.inr ?_)
      rw [List.map_append, List.set_append_right _ _ (by simp)]
      simp
  · exact Or.inl rfl

/-- **A line with a bearer on it**: its age is the number of the line, which is new. -/
theorem Dated.bearerLine {s : Scan F} (h : (s.candidates.map Candidate.seq).Nodup)
    (hpast : ∀ m ∈ s.candidates.map Candidate.seq, m < s.seq) (current : Bool)
    (lower : List Char) : (s.bearerLine current lower).1.Dated := by
  have hfresh : s.seq ∉ s.candidates.map Candidate.seq := fun hm => lt_irrefl _ (hpast _ hm)
  have hseq : (s.bearerLine current lower).1.seq = s.seq := by
    unfold Scan.bearerLine
    split <;> rfl
  rcases seq_bearerLine s current lower with hl | ⟨i, hl⟩ | hl
  · constructor
    · rwa [hl]
    · rw [hl, hseq]
      exact fun m hm => (hpast m hm).le
  · constructor
    · rw [hl]
      exact h.set hfresh
    · rw [hl, hseq]
      intro m hm
      rcases List.mem_or_eq_of_mem_set hm with hm | rfl
      · exact (hpast m hm).le
      · exact le_refl _
  · constructor
    · rw [hl]
      exact h.append (List.nodup_singleton _) (by simpa using hfresh)
    · rw [hl, hseq]
      intro m hm
      rcases List.mem_append.mp hm with hm | hm
      · exact (hpast m hm).le
      · exact (List.mem_singleton.mp hm).le

theorem Dated.qciLine {s : Scan F} (h : s.Dated) (lower : List Char) : (s.qciLine lower).Dated := by
  unfold Scan.qciLine
  split
  · exact h
  · split
    · exact h.of_seq (map_seq_modify fun _ => rfl) rfl
    · dsimp only
      split
      · exact h.of_seq rfl rfl
      · exact h.of_seq rfl rfl

theorem Dated.ambrLine {s : Scan F} (h : s.Dated) (lower : List Char) (bearer : Option Nat) :
    (s.ambrLine fl lower bearer).Dated := by
  cases bearer with
  | none => exact h
  | some i =>
    refine h.of_seq (map_seq_modify fun c => ?_) rfl
    unfold rates
    split
    · rfl
    · split <;> rfl

theorem Dated.line {s : Scan F} (h : s.Dated) (current : Bool) (l : List Char) :
    (s.line fl current l).Dated := by
  have hbearer := Dated.bearerLine (s := { s with seq := s.seq + 1 }) h.apart
    (fun m hm => Nat.lt_succ_of_le (h.past m hm)) current (lower l)
  exact (((hbearer.qciLine (lower l)).ambrLine (lower l) _).of_seq rfl rfl)

theorem Dated.text {s : Scan F} (h : s.Dated) (t : String × Bool) : (s.text fl t).Dated := by
  unfold Scan.text
  have hlines : ∀ (ls : List (List Char)) (s : Scan F), s.Dated →
      (ls.foldl (Scan.line fl t.2) s).Dated := by
    intro ls
    induction ls with
    | nil => exact fun s h => h
    | cons l ls ih => exact fun s h => ih _ (h.line t.2 l)
  exact hlines _ _ ⟨h.apart, h.past⟩

end Scan

section Select

variable {fl} {parsed : Parsed F} {query : Query}

end Select

end Qos

end Datad
