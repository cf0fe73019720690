/-
  Datad/Uci/Parser.lean
  =====================
  **The parser of uci files** (`rust/src/uci.rs`).

  A file is a sequence of `config`, `option` and `list` commands; `package` is checked
  and has no effect.  Any error makes the whole file unreadable.
-/
import Datad.Uci.Lexer

namespace Datad

namespace Uci

open Bytes

inductive Value where
  | str (v : List UInt8)
  | list (items : List (List UInt8))
deriving DecidableEq, Repr

structure Section where
  /-- Anonymous, if there is none. -/
  name : Option (List UInt8)
  stype : List UInt8
  options : List (List UInt8 × Value) := []
deriving DecidableEq, Repr

structure Package where
  sections : List Section := []
deriving DecidableEq, Repr

structure Parser where
  pkg : Package := {}
  current : Option Nat := none
deriving DecidableEq, Repr

/-- What an `option` or `list` line does to the options of a section.  An empty string
    neither sets nor removes one; a list grows, and takes the place of a string. -/
def putOption (options : List (List UInt8 × Value)) (name value : List UInt8) (list : Bool) :
    List (List UInt8 × Value) :=
  match options.findIdx? (fun o => o.1 = name), list with
  | none, true => options ++ [(name, .list [value])]
  | some i, true =>
      options.modify i fun o =>
        match o.2 with
        | .list items => (o.1, .list (items ++ [value]))
        | .str old => (o.1, .list [old, value])
  | found, false =>
      if value.isEmpty then options
      else
        match found with
        | none => options ++ [(name, .str value)]
        | some i => options.modify i fun o => (o.1, .str value)

namespace Parser

def push (p : Parser) (s : Section) : Parser :=
  { pkg := ⟨p.pkg.sections ++ [s]⟩, current := some p.pkg.sections.length }

/-- Go on with the section of this name, or begin a new one. -/
def enter (p : Parser) (name stype : List UInt8) (lx : Lexer) : Except ParseError Parser :=
  if name.isEmpty then .ok (p.push { name := none, stype })
  else
    match p.pkg.sections.findIdx? (fun s => s.name = some name) with
    | none => .ok (p.push { name := some name, stype })
    | some i =>
        if (p.pkg.sections[i]?.map (·.stype)) ≠ some stype then
          .error (lx.err "section of different type overwrites prior section with same name")
        else .ok { p with current := some i }

def config (p : Parser) (lx : Lexer) : Except ParseError (Parser × Lexer) := do
  let lx ← lx.skipKeyword "config without name"
  let (stype, lx) ← lx.nextArg true false false
  if validateStr stype false false then
    let (name, lx) ← lx.nextArg false true false
    let lx ← lx.assertEol
    let p ← p.enter name stype lx
    .ok (p, lx)
  else .error (lx.err "invalid character in type field")

def option (p : Parser) (lx : Lexer) (list : Bool) : Except ParseError (Parser × Lexer) :=
  match p.current with
  | none => .error (lx.err "option/list command found before the first section")
  | some cur => do
      let lx ← lx.skipKeyword "option without name"
      let (name, lx) ← lx.nextArg true true false
      let (value, lx) ← lx.nextArg false false false
      let lx ← lx.assertEol
      let sections := p.pkg.sections.modify cur fun s =>
        { s with options := putOption s.options name value list }
      .ok ({ p with pkg := ⟨sections⟩ }, lx)

def package (lx : Lexer) : Except ParseError Lexer := do
  let lx ← lx.skipKeyword "package without name"
  let (_, lx) ← lx.nextArg true true true
  lx.assertEol

/-- A keyword is written out or by its first letter. -/
def isKeyword (full : String) (first : UInt8) (rest : List UInt8) : Bool :=
  (utf8 full).head? = some first && (rest.isEmpty || rest = (utf8 full).tail)

def command (p : Parser) (first : UInt8) (rest : List UInt8) (lx : Lexer) :
    Except ParseError (Parser × Lexer) :=
  if isKeyword "package" first rest then do
    let lx ← package lx
    .ok (p, lx)
  else if isKeyword "config" first rest then p.config lx
  else if isKeyword "option" first rest then p.option lx false
  else if isKeyword "list" first rest then p.option lx true
  else .error (lx.err "invalid command")

end Parser

/-! ### Every command is work done -/

section Work

variable {p p' : Parser} {lx lx' : Lexer}

theorem bind_eq_ok {ε α β : Type} {x : Except ε α} {f : α → Except ε β} {b : β}
    (h : x >>= f = .ok b) : ∃ a, x = .ok a ∧ f a = .ok b := by
  cases x with
  | error e => cases h
  | ok a => exact ⟨a, rfl, h⟩

theorem Parser.config_work (hpos : lx.pos < lx.buf.length) (h : p.config lx = .ok (p', lx')) :
    lx'.work < lx.work := by
  rw [config] at h
  obtain ⟨lx₁, hkey, h⟩ := bind_eq_ok h
  obtain ⟨⟨stype, lx₂⟩, htype, h⟩ := bind_eq_ok h
  dsimp only at h
  split at h
  · obtain ⟨⟨name, lx₃⟩, hname, h⟩ := bind_eq_ok h
    obtain ⟨lx₄, heol, h⟩ := bind_eq_ok h
    obtain ⟨q, henter, h⟩ := bind_eq_ok h
    cases h
    exact lt_of_le_of_lt ((Lexer.assertEol_work heol).trans ((Lexer.nextArg_work hname).trans
      (Lexer.nextArg_work htype))) (Lexer.skipKeyword_work hpos hkey)
  · cases h

theorem Parser.option_work {list : Bool} (hpos : lx.pos < lx.buf.length)
    (h : p.option lx list = .ok (p', lx')) : lx'.work < lx.work := by
  rw [option] at h
  split at h
  · cases h
  · obtain ⟨lx₁, hkey, h⟩ := bind_eq_ok h
    obtain ⟨⟨name, lx₂⟩, hname, h⟩ := bind_eq_ok h
    obtain ⟨⟨value, lx₃⟩, hvalue, h⟩ := bind_eq_ok h
    obtain ⟨lx₄, heol, h⟩ := bind_eq_ok h
    cases h
    exact lt_of_le_of_lt ((Lexer.assertEol_work heol).trans ((Lexer.nextArg_work hvalue).trans
      (Lexer.nextArg_work hname))) (Lexer.skipKeyword_work hpos hkey)

theorem Parser.package_work (hpos : lx.pos < lx.buf.length) (h : package lx = .ok lx') :
    lx'.work < lx.work := by
  rw [package] at h
  obtain ⟨lx₁, hkey, h⟩ := bind_eq_ok h
  obtain ⟨⟨name, lx₂⟩, hname, h⟩ := bind_eq_ok h
  exact lt_of_le_of_lt ((Lexer.assertEol_work h).trans (Lexer.nextArg_work hname))
    (Lexer.skipKeyword_work hpos hkey)

theorem Parser.command_work {first : UInt8} {rest : List UInt8} (hpos : lx.pos < lx.buf.length)
    (h : p.command first rest lx = .ok (p', lx')) : lx'.work < lx.work := by
  rw [command] at h
  split at h
  · obtain ⟨lx₁, hpack, h⟩ := bind_eq_ok h
    cases h
    exact package_work hpos hpack
  split at h
  · exact config_work hpos h
  split at h
  · exact option_work hpos h
  split at h
  · exact option_work hpos h
  · cases h

end Work

/-! ### Files -/

namespace Parser

/-- The commands on a line. -/
def commands (p : Parser) (lx : Lexer) : Except ParseError (Parser × Lexer) :=
  match _h : lx.strtok.1 with
  | [] => .ok (p, lx.strtok.2)
  | first :: rest =>
      if first = HASH then .ok (p, lx.strtok.2)
      else
        match _h' : p.command first rest lx.strtok.2 with
        | .error e => .error e
        | .ok r => commands r.1 r.2
termination_by lx.work
decreasing_by
  have hword : lx.strtok.1 ≠ [] := by rw [‹lx.strtok.1 = _›]; exact List.cons_ne_nil _ _
  rw [← lx.strtok_work]
  exact command_work (Lexer.strtok_pos hword) ‹_›

def line (p : Parser) (lx : Lexer) : Except ParseError (Parser × Lexer) :=
  p.commands lx.skipWhitespace

theorem commands_work {p p' : Parser} {lx lx' : Lexer} (h : p.commands lx = .ok (p', lx')) :
    lx'.work ≤ lx.work := by
  fun_induction commands p lx with
  | case1 p lx =>
    cases h
    exact lx.strtok_work.le
  | case2 p lx =>
    cases h
    exact lx.strtok_work.le
  | case3 => cases h
  | case4 p lx first rest hword _ r hc ih =>
    have hne : lx.strtok.1 ≠ [] := by rw [hword]; exact List.cons_ne_nil _ _
    refine (ih h).trans ?_
    rw [← lx.strtok_work]
    exact (command_work (Lexer.strtok_pos hne) hc).le

/-- Line by line through the input. -/
def lines (p : Parser) (lx : Lexer) : Except ParseError Package :=
  if _h : lx.rest.isEmpty then .ok p.pkg
  else
    let lx' := { lx with pos := 0 }.getln 0
    if lx'.ch 0 ≠ 0 then
      match _h' : p.line lx' with
      | .error e => .error e
      | .ok r => lines r.1 r.2
    else lines p lx'
termination_by lx.rest.length
decreasing_by
  · have hne : lx.rest ≠ [] := by simpa using _h
    have hline : r.2.work ≤ lx'.work :=
      (commands_work ‹p.line lx' = .ok r›).trans (Lexer.skipWhitespace_work _)
    have hwork : lx'.work < 2 * lx.rest.length := Lexer.getln_zero_work hne
    simp only [Lexer.work] at hline hwork
    omega
  · have hne : lx.rest ≠ [] := by simpa using _h
    have hwork := Lexer.getln_zero_work hne
    simp only [Lexer.work] at hwork
    omega

end Parser

def parse (input : List UInt8) : Except ParseError Package :=
  if input.contains 0 then .error ⟨0, "NUL byte in file"⟩
  else Parser.lines {} { rest := input }

end Uci

end Datad
