/-
  Datad/Lib/Brackets.lean
  =======================
  **Brackets and strings of a JSON text.**

  What every reader of JSON has to see of a text that begins with a bracket: it goes on
  until the bracket is closed, brackets in strings do not count, a backslash stands in
  strings only, and after the end comes nothing but white space (`scan`).  A text that
  was broken off is not completed by another whole text: what the first has left open,
  the second leaves open too (`scan_glued`).
-/
import Mathlib.Data.List.Basic

namespace Brackets

inductive Kind where
  | opens | closes | quote | backslash | space | other
deriving DecidableEq, Repr

def kind (b : UInt8) : Kind :=
  if b = 123 ∨ b = 91 then .opens
  else if b = 125 ∨ b = 93 then .closes
  else if b = 34 then .quote
  else if b = 92 then .backslash
  else if b = 32 ∨ b = 9 ∨ b = 10 ∨ b = 13 then .space
  else .other

/-- Before the text; outside of strings, in one bracket and `depth` more; in a string
    there; after a backslash in it; at the end; in what is no text. -/
inductive Scan where
  | start
  | out (depth : Nat)
  | str (depth : Nat)
  | esc (depth : Nat)
  | done
  | bad
deriving DecidableEq, Repr

def Scan.step : Scan → Kind → Scan
  | start, .opens => out 0
  | start, _ => bad
  | out d, .opens => out (d + 1)
  | out 0, .closes => done
  | out (d + 1), .closes => out d
  | out d, .quote => str d
  | out _, .backslash => bad
  | out d, _ => out d
  | str d, .quote => out d
  | str d, .backslash => esc d
  | str d, _ => str d
  | esc d, _ => str d
  | done, .space => done
  | done, _ => bad
  | bad, _ => bad

def scan (q : Scan) (bs : List UInt8) : Scan := bs.foldl (fun q b => q.step (kind b)) q

theorem scan_append (q : Scan) (as bs : List UInt8) : scan q (as ++ bs) = scan (scan q as) bs :=
  List.foldl_append

theorem step_ne_start (q : Scan) (k : Kind) : q.step k ≠ .start := by
  rcases q with _ | (_ | d) | d | d | _ | _ <;> cases k <;> simp [Scan.step]

theorem scan_ne_start {q : Scan} (hq : q ≠ .start) (bs : List UInt8) : scan q bs ≠ .start := by
  induction bs generalizing q with
  | nil => exact hq
  | cons b bs ih => exact ih (step_ne_start q _)

/-! ### Two readings of one text -/

/-- A relation of states that every byte keeps. -/
theorem scan_rel {R : Scan → Scan → Prop}
    (hstep : ∀ p q, R p q → ∀ k, R (p.step k) (q.step k)) {p q : Scan} (h : R p q)
    (bs : List UInt8) : R (scan p bs) (scan q bs) := by
  induction bs generalizing p q with
  | nil => exact h
  | cons b bs ih => exact ih (hstep p q h (kind b))

/-- The same text in `n + 1` more brackets. -/
inductive Deeper (n : Nat) : Scan → Scan → Prop where
  | out {d e : Nat} (h : e = d + n + 1) : Deeper n (.out d) (.out e)
  | str {d e : Nat} (h : e = d + n + 1) : Deeper n (.str d) (.str e)
  | esc {d e : Nat} (h : e = d + n + 1) : Deeper n (.esc d) (.esc e)
  | done : Deeper n .done (.out n)
  | bad (q : Scan) : Deeper n .bad q

theorem Deeper.step {n : Nat} (p q : Scan) (h : Deeper n p q) (k : Kind) :
    Deeper n (p.step k) (q.step k) := by
  cases h with
  | @out d e h =>
    cases k with
    | opens => exact .out (by omega)
    | closes =>
      obtain ⟨e, rfl⟩ : ∃ e', e = e' + 1 := ⟨d + n, h⟩
      rcases d with _ | d
      · obtain rfl : e = n := by omega
        exact .done
      · exact .out (by omega)
    | quote => exact .str h
    | backslash => exact .bad _
    | space => exact .out h
    | other => exact .out h
  | str h =>
    cases k with
    | quote => exact .out h
    | backslash => exact .esc h
    | opens => exact .str h
    | closes => exact .str h
    | space => exact .str h
    | other => exact .str h
  | esc h => exact .str h
  | done =>
    cases k with
    | space => exact .done
    | opens => exact .bad _
    | closes => exact .bad _
    | quote => exact .bad _
    | backslash => exact .bad _
    | other => exact .bad _
  | bad q => exact .bad _

theorem Deeper.ne_done {n : Nat} {q : Scan} (h : Deeper n .done q) : q ≠ .done := by
  rintro rfl
  cases h

/-- The same text in a string: what is outside of its strings is in that one, and what is
    in its strings outside. -/
inductive Quoted : Scan → Scan → Prop where
  | out (d e : Nat) : Quoted (.out d) (.str e)
  | str (d e : Nat) : Quoted (.str d) (.out e)
  | closed (d : Nat) : Quoted (.str d) .done
  | done (e : Nat) : Quoted .done (.str e)
  | bad (q : Scan) : Quoted .bad q
  | lost (p : Scan) : Quoted p .bad

theorem Quoted.step (p q : Scan) (h : Quoted p q) (k : Kind) : Quoted (p.step k) (q.step k) := by
  cases h with
  | out d e =>
    cases k with
    | opens => exact .out (d + 1) e
    | closes =>
      rcases d with _ | d
      · exact .done e
      · exact .out d e
    | quote => exact .str d e
    | backslash => exact .bad _
    | space => exact .out d e
    | other => exact .out d e
  | str d e =>
    cases k with
    | opens => exact .str d (e + 1)
    | closes =>
      rcases e with _ | e
      · exact .closed d
      · exact .str d e
    | quote => exact .out d e
    | backslash => exact .lost _
    | space => exact .str d e
    | other => exact .str d e
  | closed d =>
    cases k with
    | space => exact .closed d
    | opens => exact .lost _
    | closes => exact .lost _
    | quote => exact .lost _
    | backslash => exact .lost _
    | other => exact .lost _
  | done e =>
    cases k with
    | space => exact .done e
    | opens => exact .bad _
    | closes => exact .bad _
    | quote => exact .bad _
    | backslash => exact .bad _
    | other => exact .bad _
  | bad q => exact .bad _
  | lost p => exact .lost _

theorem Quoted.ne_done {q : Scan} (h : Quoted .done q) : q ≠ .done := by
  rintro rfl
  cases h

/-! ### A text after something else -/

/-- What begins inside of a text, or after its end, is not brought to an end by a whole
    text that follows. -/
theorem scan_glued {q : Scan} (hq : q ≠ .start) {b : UInt8} {bs : List UInt8}
    (hb : kind b = .opens) (h : scan .start (b :: bs) = .done) : scan q (b :: bs) ≠ .done := by
  have hcons (p : Scan) : scan p (b :: bs) = scan (p.step .opens) bs := by simp [scan, hb]
  rw [hcons] at h ⊢
  have hbad : scan .bad bs ≠ .done := by
    have hrel := scan_rel (R := fun _ q => q = .bad) (fun p q h k => by rw [h]; rfl)
      (p := .bad) rfl bs
    simp [hrel]
  cases q with
  | start => exact absurd rfl hq
  | out d =>
    have hrel : Deeper d (.out 0) (.out (d + 1)) := .out (by omega)
    exact (h ▸ scan_rel Deeper.step hrel bs).ne_done
  | str d =>
    have hrel : Quoted (.out 0) (.str d) := .out 0 d
    exact (h ▸ scan_rel Quoted.step hrel bs).ne_done
  | esc d =>
    have hrel : Quoted (.out 0) (.str d) := .out 0 d
    exact (h ▸ scan_rel Quoted.step hrel bs).ne_done
  | done => exact hbad
  | bad => exact hbad

/-- Two pieces of text glued together: the first is not empty, the second a whole text. -/
theorem scan_append_ne_done {a b : UInt8} {as bs : List UInt8} (hb : kind b = .opens)
    (h : scan .start (b :: bs) = .done) : scan .start (a :: as ++ b :: bs) ≠ .done := by
  rw [scan_append]
  exact scan_glued (scan_ne_start (step_ne_start _ _) as) hb h

end Brackets
