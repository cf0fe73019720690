/-
  Datad/Uci/Reader.lean
  =====================
  **The parser of uci files, with what could stop it** (`Lexer` and `Parser` of
  `rust/src/uci.rs`).

  The state is the source's own: the whole input and how far it is read, the line buffer
  and the position in it.  Every slice is checked, every loop has a number of turns to
  spend, and two things the lexer relies on are asserted: a line is put at a place inside
  the buffer or at its end (`getln`), and a turn that goes on has moved the position or
  taken a line (`goOn`).  A failed assertion stops the program.
-/
import Datad.Lib.Checked
import Datad.Uci.Parser

namespace Datad

namespace Uci

open Checked

structure Reader where
  input : List UInt8
  ipos : Nat := 0
  buf : List UInt8 := []
  pos : Nat := 0
  filled : Nat := 0
  line : Nat := 0
deriving DecidableEq, Repr

/-- What the lexer may do: fail with an error, or stop. -/
abbrev Reading (α : Type) := Checked ParseError α

namespace Reader

/-- The state as `Lexer.lean` has it. -/
def lexer (r : Reader) : Lexer :=
  { rest := r.input.drop r.ipos, buf := r.buf, pos := r.pos, filled := r.filled, line := r.line }

def ch (r : Reader) (i : Nat) : UInt8 := r.buf.getD i 0

def cur (r : Reader) : UInt8 := r.ch r.pos

def set (r : Reader) (i : Nat) (c : UInt8) : Reader := { r with buf := r.buf.set i c }

def err (r : Reader) (reason : String) : ParseError := ⟨r.line, reason⟩

/-- Put the next line at `offset`, which is not beyond the end of the buffer. -/
def getln (r : Reader) (offset : Nat) : Reading Reader :=
  if offset > r.buf.length then stop
  else
    let buf := r.buf.take offset
    if r.ipos ≥ r.input.length then pure { r with buf }
    else do
      let rest ← sliceFrom r.input r.ipos
      let n := ((rest.findIdx? (· = NEWLINE)).map (· + 1)).getD rest.length
      let buf := buf ++ (← slice rest 0 n)
      pure
        { r with
          ipos := r.ipos + n
          buf
          filled := buf.length
          line := if buf.getLast? = some NEWLINE then r.line + 1 else r.line }

/-- The next turn of a loop, which has to be ahead of this one. -/
def goOn {σ ρ : Type} (r r' : Reader) (s : σ) : Reading (LoopStep σ ρ) :=
  if r.pos < r'.pos ∨ r.ipos < r'.ipos then pure (.next s) else stop

def next (r : Reader) : Reader := { r with pos := r.pos + 1 }

def skipTurn (r : Reader) : Reading (LoopStep Reader Reader) :=
  if r.cur ≠ 0 ∧ isSpace r.cur then goOn r r.next r.next else pure (.done r)

def skipWhitespace (turns : Nat) (r : Reader) : Reading Reader := loop skipTurn turns r

def addc (r : Reader) (dest : Nat) : Reader :=
  { r with buf := r.buf.set dest r.cur, pos := r.pos + 1 }

def backslash (r : Reader) : Reading (Bool × Reader) :=
  let r := r.next
  if r.cur = 0 ∨ r.cur = NEWLINE ∨
      r.cur = RETURN ∧ r.ch (r.pos + 1) = NEWLINE ∧ r.ch (r.pos + 2) = 0 then do
    pure (false, ← r.getln r.pos)
  else pure (true, r)

/-! ### Quoted strings -/

def doubleTurn (s : Nat × Reader) : Reading (LoopStep (Nat × Reader) (Nat × Reader)) :=
  let (dest, r) := s
  if r.cur = DQUOTE then pure (.done (dest, r.next))
  else if r.cur = 0 then do
    let r' ← r.getln r.pos
    if r'.cur = 0 then throw (r'.err "EOF with unterminated \"") else goOn r r' (dest, r')
  else if r.cur = BACKSLASH then do
    let (taken, r') ← r.backslash
    if taken then goOn r (r'.addc dest) (dest + 1, r'.addc dest) else goOn r r' (dest, r')
  else goOn r (r.addc dest) (dest + 1, r.addc dest)

def doubleQuote (turns : Nat) (r : Reader) (dest : Nat) : Reading (Nat × Reader) :=
  loop doubleTurn turns (dest, r.next)

def singleTurn (s : Nat × Reader) : Reading (LoopStep (Nat × Reader) (Nat × Reader)) :=
  let (dest, r) := s
  if r.cur = QUOTE then pure (.done (dest, r.next))
  else if r.cur = 0 then do
    let r' ← r.getln r.pos
    if r'.cur = 0 then throw (r'.err "EOF with unterminated '") else goOn r r' (dest, r')
  else goOn r (r.addc dest) (dest + 1, r.addc dest)

def singleQuote (turns : Nat) (r : Reader) (dest : Nat) : Reading (Nat × Reader) :=
  loop singleTurn turns (dest, r.next)

/-! ### Arguments -/

/-- The end of a turn of `parse_str`: an argument ends at whitespace. -/
def strEnd (r : Reader) (s : Nat × Reader) :
    Reading (LoopStep (Nat × Reader) (Bool × Nat × Reader)) :=
  if s.2.cur = 0 ∨ isSpace s.2.cur then pure (.done (true, s)) else goOn r s.2 s

def strTurn (turns : Nat) (s : Nat × Reader) :
    Reading (LoopStep (Nat × Reader) (Bool × Nat × Reader)) :=
  let (dest, r) := s
  if r.cur = QUOTE then do r.strEnd (← r.singleQuote turns dest)
  else if r.cur = DQUOTE then do r.strEnd (← r.doubleQuote turns dest)
  else if r.cur = HASH then pure (.done (true, dest, r.set r.pos 0))
  else if r.cur = 0 then pure (.done (true, dest, r))
  else if r.cur = SEMICOLON then pure (.done (false, dest, r))
  else if r.cur = BACKSLASH then do
    let (taken, r') ← r.backslash
    if taken then r.strEnd (dest + 1, r'.addc dest) else r.strEnd (dest, r')
  else r.strEnd (dest + 1, r.addc dest)

def parseStr (turns : Nat) (r : Reader) (dest : Nat) : Reading Reader := do
  let (next, dest, r) ← loop (strTurn turns) turns (dest, r)
  let r := if r.cur ≠ 0 ∧ next then r.next else r
  pure (r.set dest 0)

/-- The bytes from `i` on, up to a NUL; none beyond the end. -/
def strAt (r : Reader) (i : Nat) : Reading (List UInt8) :=
  let tail := r.buf.drop i
  slice tail 0 ((tail.findIdx? (· = 0)).getD tail.length)

/-- The middle of `next_arg`: a semicolon is an argument without bytes. -/
def takeArg (turns : Nat) (r : Reader) : Reading Reader :=
  if r.cur = SEMICOLON then pure (r.set r.pos 0).next else r.parseStr turns r.pos

def nextArg (turns : Nat) (r : Reader) (required name package : Bool) :
    Reading (List UInt8 × Reader) := do
  let r ← r.skipWhitespace turns
  let val := r.pos
  let r ← r.takeArg turns
  let s ← r.strAt val
  if s.isEmpty then
    if required then throw (r.err "insufficient arguments") else pure (s, r)
  else if name ∧ ¬ validateStr s name package then
    throw (r.err "invalid character in name field")
  else pure (s, r)

def assertEol (turns : Nat) (r : Reader) : Reading Reader := do
  let r ← r.skipWhitespace turns
  let (s, r) ← r.nextArg turns false false false
  if s.isEmpty then pure r else throw (r.err "too many arguments")

def skipKeyword (r : Reader) (reason : String) : Reading Reader := do
  let len := (← r.strAt r.pos).length
  if r.pos + len + 1 > r.filled then throw (r.err reason)
  else pure { r with pos := r.pos + len + 1 }

/-- A loop of `strtok`: go on while the byte has the property. -/
def scanTurn (r : Reader) (p : UInt8 → Bool) (i : Nat) : Reading (LoopStep Nat Nat) :=
  if p (r.ch i) then pure (.next (i + 1)) else pure (.done i)

def strtok (turns : Nat) (r : Reader) : Reading (List UInt8 × Reader) := do
  let start ← loop (r.scanTurn Lexer.isBlank) turns r.pos
  let i ← loop (r.scanTurn fun c => c ≠ 0 && !(Lexer.isBlank c)) turns start
  let word ← slice r.buf (min start r.buf.length) (min i r.buf.length)
  pure (word, if word.isEmpty then r else r.set i 0)

end Reader

/-! ### Commands -/

/-- `putOption`, with its indices. -/
def putOptionChecked (options : List (List UInt8 × Value)) (name value : List UInt8)
    (list : Bool) : Reading (List (List UInt8 × Value)) :=
  match options.findIdx? (fun o => o.1 = name), list with
  | none, true => pure (options ++ [(name, .list [value])])
  | some i, true => do
      let o ← index options i
      match o.2 with
      | .list items => pure (options.set i (o.1, .list (items ++ [value])))
      | .str old => pure (options.set i (o.1, .list [old, value]))
  | found, false =>
      if value.isEmpty then pure options
      else
        match found with
        | none => pure (options ++ [(name, .str value)])
        | some i => do
            let o ← index options i
            pure (options.set i (o.1, .str value))

namespace Parser

open Reader

def enterChecked (p : Parser) (name stype : List UInt8) (r : Reader) : Reading Parser :=
  if name.isEmpty then pure (p.push { name := none, stype })
  else
    match p.pkg.sections.findIdx? (fun s => s.name = some name) with
    | none => pure (p.push { name := some name, stype })
    | some i => do
        let s ← index p.pkg.sections i
        if s.stype ≠ stype then
          throw (r.err "section of different type overwrites prior section with same name")
        else pure { p with current := some i }

def configChecked (turns : Nat) (p : Parser) (r : Reader) : Reading (Parser × Reader) := do
  let r ← r.skipKeyword "config without name"
  let (stype, r) ← r.nextArg turns true false false
  if validateStr stype false false then
    let (name, r) ← r.nextArg turns false true false
    let r ← r.assertEol turns
    let p ← p.enterChecked name stype r
    pure (p, r)
  else throw (r.err "invalid character in type field")

def optionChecked (turns : Nat) (p : Parser) (r : Reader) (list : Bool) :
    Reading (Parser × Reader) :=
  match p.current with
  | none => throw (r.err "option/list command found before the first section")
  | some cur => do
      let r ← r.skipKeyword "option without name"
      let (name, r) ← r.nextArg turns true true false
      let (value, r) ← r.nextArg turns false false false
      let r ← r.assertEol turns
      let s ← index p.pkg.sections cur
      let options ← putOptionChecked s.options name value list
      pure ({ p with pkg := ⟨p.pkg.sections.set cur { s with options }⟩ }, r)

def packageChecked (turns : Nat) (r : Reader) : Reading Reader := do
  let r ← r.skipKeyword "package without name"
  let (_, r) ← r.nextArg turns true true true
  r.assertEol turns

def commandChecked (turns : Nat) (p : Parser) (first : UInt8) (rest : List UInt8) (r : Reader) :
    Reading (Parser × Reader) :=
  if isKeyword "package" first rest then do
    let r ← packageChecked turns r
    pure (p, r)
  else if isKeyword "config" first rest then p.configChecked turns r
  else if isKeyword "option" first rest then p.optionChecked turns r false
  else if isKeyword "list" first rest then p.optionChecked turns r true
  else throw (r.err "invalid command")

/-- A turn of `line`: one command. -/
def commandTurn (turns : Nat) (s : Parser × Reader) :
    Reading (LoopStep (Parser × Reader) (Parser × Reader)) := do
  let (p, r) := s
  let (word, r') ← r.strtok turns
  match word[0]? with
  | none => pure (.done (p, r'))
  | some first => do
      let rest ← sliceFrom word 1
      if first = HASH then pure (.done (p, r'))
      else do
        let s' ← p.commandChecked turns first rest r'
        goOn r s'.2 s'

def lineChecked (turns : Nat) (p : Parser) (r : Reader) : Reading (Parser × Reader) := do
  let r ← r.skipWhitespace turns
  loop (commandTurn turns) turns (p, r)

/-- A turn of `parse`: one line, and what is read with it. -/
def lineTurn (turns : Nat) (s : Parser × Reader) : Reading (LoopStep (Parser × Reader) Package) :=
  let (p, r) := s
  if r.ipos < r.input.length then do
    let r' ← { r with pos := 0 }.getln 0
    if r'.ch 0 ≠ 0 then do
      let s' ← p.lineChecked turns r'
      if r.ipos < s'.2.ipos then pure (.next s') else stop
    else if r.ipos < r'.ipos then pure (.next (p, r')) else stop
  else pure (.done p.pkg)

end Parser

def parseChecked (turns : Nat) (input : List UInt8) : Reading Package :=
  if input.contains 0 then throw ⟨0, "NUL byte in file"⟩
  else loop (Parser.lineTurn turns) turns ({}, { input })

end Uci

end Datad
