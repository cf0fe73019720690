/-
  Datad/Uci/Lexer.lean
  ====================
  **The lexer of uci files** (`rust/src/uci.rs`).

  Arguments are taken apart in the line buffer itself: quotes and backslashes are
  dropped by copying what follows them to the front, and a NUL ends each argument.  A
  quoted value may go on over several lines; each is appended to the buffer when it is
  needed.  An index beyond the buffer reads as NUL.

  Every loop either moves the read position or takes a line from the input, so the
  `work` that is left goes down.
-/
import Datad.Lib.Bytes
import Mathlib.Data.List.GetD

namespace Datad

namespace Uci

/-! ### Bytes -/

def NEWLINE : UInt8 := 10
def SPACE : UInt8 := 32
def TAB : UInt8 := 9
def DQUOTE : UInt8 := 34
def HASH : UInt8 := 35
def QUOTE : UInt8 := 39
def SEMICOLON : UInt8 := 59
def BACKSLASH : UInt8 := 92
def RETURN : UInt8 := 13

def isSpace (c : UInt8) : Bool :=
  c = SPACE || c = TAB || c = NEWLINE || c = 0x0b || c = 0x0c || c = RETURN

def isAlphanumeric (c : UInt8) : Bool :=
  48 ≤ c && c ≤ 57 || 65 ≤ c && c ≤ 90 || 97 ≤ c && c ≤ 122

def validateStr (s : List UInt8) (name package : Bool) : Bool :=
  !s.isEmpty && s.all fun c =>
    isAlphanumeric c || c = 95 || (c = 45 && package) || (!name && 33 ≤ c && c ≤ 126)

structure ParseError where
  line : Nat
  reason : String
deriving DecidableEq, Repr

/-- The next line of the input, with its newline. -/
def splitLine : List UInt8 → List UInt8 × List UInt8
  | [] => ([], [])
  | c :: s => if c = NEWLINE then ([c], s) else (c :: (splitLine s).1, (splitLine s).2)

theorem splitLine_length (s : List UInt8) :
    (splitLine s).1.length + (splitLine s).2.length = s.length := by
  induction s with
  | nil => rfl
  | cons c s ih =>
    rw [splitLine]
    split
    · simp [Nat.add_comm]
    · simp only [List.length_cons]
      omega

theorem splitLine_pos {s : List UInt8} (h : s ≠ []) : 0 < (splitLine s).1.length := by
  cases s with
  | nil => exact absurd rfl h
  | cons c s =>
    rw [splitLine]
    split
    · exact Nat.one_pos
    · exact Nat.succ_pos _

/-! ### The line buffer -/

structure Lexer where
  /-- The input that has not been read. -/
  rest : List UInt8
  buf : List UInt8 := []
  pos : Nat := 0
  filled : Nat := 0
  line : Nat := 0
deriving DecidableEq, Repr

namespace Lexer

def ch (lx : Lexer) (i : Nat) : UInt8 := lx.buf.getD i 0

def cur (lx : Lexer) : UInt8 := lx.ch lx.pos

def set (lx : Lexer) (i : Nat) (c : UInt8) : Lexer := { lx with buf := lx.buf.set i c }

def err (lx : Lexer) (reason : String) : ParseError := ⟨lx.line, reason⟩

/-- Put the next line at `offset`.  Without one, there is a NUL. -/
def getln (lx : Lexer) (offset : Nat) : Lexer :=
  let buf := lx.buf.take offset
  if lx.rest.isEmpty then { lx with buf }
  else
    let buf := buf ++ (splitLine lx.rest).1
    { rest := (splitLine lx.rest).2
      buf
      pos := lx.pos
      filled := buf.length
      line := if buf.getLast? = some NEWLINE then lx.line + 1 else lx.line }

def skipWhitespace (lx : Lexer) : Lexer :=
  { lx with pos := lx.pos + ((lx.buf.drop lx.pos).takeWhile isSpace).length }

/-- Copy the current byte to `dest`. -/
def addc (lx : Lexer) (dest : Nat) : Lexer :=
  { lx with buf := lx.buf.set dest lx.cur, pos := lx.pos + 1 }

/-- Is the byte after the backslash taken as it is?  Else the line goes on. -/
def backslash (lx : Lexer) : Bool × Lexer :=
  let lx := { lx with pos := lx.pos + 1 }
  if lx.cur = 0 ∨ lx.cur = NEWLINE ∨
      lx.cur = RETURN ∧ lx.ch (lx.pos + 1) = NEWLINE ∧ lx.ch (lx.pos + 2) = 0 then
    (false, lx.getln lx.pos)
  else (true, lx)

/-- What is left to be read.  An unread byte counts twice, so that taking a line into
    the buffer is progress. -/
def work (lx : Lexer) : Nat := 2 * lx.rest.length + (lx.buf.length - lx.pos)

theorem pos_lt_of_cur {lx : Lexer} (h : lx.cur ≠ 0) : lx.pos < lx.buf.length := by
  by_contra hge
  exact h (List.getD_eq_default _ _ (Nat.le_of_not_lt hge))

theorem addc_work_le (lx : Lexer) (dest : Nat) : (lx.addc dest).work ≤ lx.work := by
  simp only [work, addc, List.length_set]
  omega

theorem addc_work {lx : Lexer} (h : lx.cur ≠ 0) (dest : Nat) : (lx.addc dest).work < lx.work := by
  have := pos_lt_of_cur h
  simp only [work, addc, List.length_set]
  omega

/-- A line that is taken is work done, and so is what is cut off. -/
theorem getln_work (lx : Lexer) :
    (lx.getln lx.pos).work ≤ lx.work ∧
      ((lx.getln lx.pos).cur ≠ 0 → (lx.getln lx.pos).work < lx.work) := by
  rw [getln]
  dsimp only
  split
  · constructor
    · simp only [work, List.length_take]
      omega
    · intro h
      exact absurd (List.getD_eq_default _ _ (List.length_take_le _ _)) h
  · rename_i hrest
    have hne : lx.rest ≠ [] := by simpa using hrest
    have hlen := splitLine_length lx.rest
    have hpos := splitLine_pos hne
    have hlt : 2 * (splitLine lx.rest).2.length +
        ((lx.buf.take lx.pos ++ (splitLine lx.rest).1).length - lx.pos) <
          2 * lx.rest.length + (lx.buf.length - lx.pos) := by
      rw [List.length_append, List.length_take]
      omega
    exact ⟨hlt.le, fun _ => hlt⟩

/-- The next line of the file. -/
theorem getln_zero_work {lx : Lexer} (h : lx.rest ≠ []) :
    ({ lx with pos := 0 }.getln 0).work < 2 * lx.rest.length := by
  have hlen := splitLine_length lx.rest
  have hpos := splitLine_pos h
  rw [getln]
  dsimp only
  rw [if_neg (by simpa using h)]
  simp only [work, List.take_zero, List.nil_append]
  omega

theorem backslash_work {lx : Lexer} (h : lx.cur ≠ 0) : lx.backslash.2.work < lx.work := by
  have hlt := pos_lt_of_cur h
  have hstep : ({ lx with pos := lx.pos + 1 } : Lexer).work < lx.work := by
    simp only [work]
    omega
  rw [backslash]
  dsimp only
  split
  · exact lt_of_le_of_lt (getln_work _).1 hstep
  · exact hstep

/-! ### Quoted strings -/

def singleLoop (lx : Lexer) (dest : Nat) : Except ParseError (Nat × Lexer) :=
  if lx.cur = QUOTE then .ok (dest, { lx with pos := lx.pos + 1 })
  else if lx.cur = 0 then
    if (lx.getln lx.pos).cur = 0 then
      .error ((lx.getln lx.pos).err "EOF with unterminated '")
    else singleLoop (lx.getln lx.pos) dest
  else singleLoop (lx.addc dest) (dest + 1)
termination_by lx.work
decreasing_by
  · exact (getln_work lx).2 ‹_›
  · exact addc_work ‹_› dest

def singleQuote (lx : Lexer) (dest : Nat) : Except ParseError (Nat × Lexer) :=
  singleLoop { lx with pos := lx.pos + 1 } dest

def doubleLoop (lx : Lexer) (dest : Nat) : Except ParseError (Nat × Lexer) :=
  if lx.cur = DQUOTE then .ok (dest, { lx with pos := lx.pos + 1 })
  else if lx.cur = 0 then
    if (lx.getln lx.pos).cur = 0 then
      .error ((lx.getln lx.pos).err "EOF with unterminated \"")
    else doubleLoop (lx.getln lx.pos) dest
  else if lx.cur = BACKSLASH then
    if lx.backslash.1 then doubleLoop (lx.backslash.2.addc dest) (dest + 1)
    else doubleLoop lx.backslash.2 dest
  else doubleLoop (lx.addc dest) (dest + 1)
termination_by lx.work
decreasing_by
  · exact (getln_work lx).2 ‹_›
  · exact lt_of_le_of_lt (addc_work_le _ dest) (backslash_work ‹_›)
  · exact backslash_work ‹_›
  · exact addc_work ‹_› dest

def doubleQuote (lx : Lexer) (dest : Nat) : Except ParseError (Nat × Lexer) :=
  doubleLoop { lx with pos := lx.pos + 1 } dest

theorem next_work_le (lx : Lexer) : ({ lx with pos := lx.pos + 1 } : Lexer).work ≤ lx.work := by
  simp only [work]
  omega

theorem next_work {lx : Lexer} (h : lx.cur ≠ 0) :
    ({ lx with pos := lx.pos + 1 } : Lexer).work < lx.work := by
  have := pos_lt_of_cur h
  simp only [work]
  omega

theorem singleLoop_work {lx lx' : Lexer} {dest dest' : Nat}
    (h : lx.singleLoop dest = .ok (dest', lx')) : lx'.work ≤ lx.work := by
  fun_induction singleLoop lx dest with
  | case1 lx dest =>
    cases h
    exact lx.next_work_le
  | case2 => cases h
  | case3 lx dest _ _ _ ih => exact (ih h).trans (getln_work lx).1
  | case4 lx dest _ _ ih => exact (ih h).trans (lx.addc_work_le dest)

theorem doubleLoop_work {lx lx' : Lexer} {dest dest' : Nat}
    (h : lx.doubleLoop dest = .ok (dest', lx')) : lx'.work ≤ lx.work := by
  fun_induction doubleLoop lx dest with
  | case1 lx dest =>
    cases h
    exact lx.next_work_le
  | case2 => cases h
  | case3 lx dest _ _ _ ih => exact (ih h).trans (getln_work lx).1
  | case4 lx dest _ hz _ _ ih =>
    exact (ih h).trans ((addc_work_le _ dest).trans (backslash_work hz).le)
  | case5 lx dest _ hz _ _ ih => exact (ih h).trans (backslash_work hz).le
  | case6 lx dest _ _ _ ih => exact (ih h).trans (lx.addc_work_le dest)

/-! ### Arguments -/

/-- One piece of an argument: a quoted string or a byte.  An argument ends at the end of
    the line, before a semicolon, and at a hash sign, which becomes its NUL. -/
inductive Piece where
  | go (dest : Nat) (lx : Lexer)
  | stop (next : Bool) (lx : Lexer)

def piece (lx : Lexer) (dest : Nat) : Except ParseError Piece :=
  if lx.cur = QUOTE then (lx.singleQuote dest).map fun r => .go r.1 r.2
  else if lx.cur = DQUOTE then (lx.doubleQuote dest).map fun r => .go r.1 r.2
  else if lx.cur = HASH then .ok (.stop true (lx.set lx.pos 0))
  else if lx.cur = 0 then .ok (.stop true lx)
  else if lx.cur = SEMICOLON then .ok (.stop false lx)
  else if lx.cur = BACKSLASH then
    if lx.backslash.1 then .ok (.go (dest + 1) (lx.backslash.2.addc dest))
    else .ok (.go dest lx.backslash.2)
  else .ok (.go (dest + 1) (lx.addc dest))

theorem piece_work {lx lx' : Lexer} {dest dest' : Nat}
    (h : lx.piece dest = .ok (.go dest' lx')) : lx'.work < lx.work := by
  rw [piece] at h
  split at h
  · rename_i hq
    have hz : lx.cur ≠ 0 := by rw [hq]; decide
    rcases hs : lx.singleQuote dest with e | r
    · rw [hs] at h
      cases h
    · rw [hs] at h
      cases h
      exact lt_of_le_of_lt (singleLoop_work hs) (next_work hz)
  split at h
  · rename_i hq
    have hz : lx.cur ≠ 0 := by rw [hq]; decide
    rcases hs : lx.doubleQuote dest with e | r
    · rw [hs] at h
      cases h
    · rw [hs] at h
      cases h
      exact lt_of_le_of_lt (doubleLoop_work hs) (next_work hz)
  split at h
  · cases h
  split at h
  · cases h
  rename_i hz
  split at h
  · cases h
  split at h
  · split at h
    · cases h
      exact lt_of_le_of_lt (addc_work_le _ dest) (backslash_work hz)
    · cases h
      exact backslash_work hz
  · cases h
    exact addc_work hz dest

def strLoop (lx : Lexer) (dest : Nat) : Except ParseError (Bool × Nat × Lexer) :=
  match _h : lx.piece dest with
  | .error e => .error e
  | .ok (.stop next lx) => .ok (next, dest, lx)
  | .ok (.go dest lx) =>
      if lx.cur = 0 ∨ isSpace lx.cur then .ok (true, dest, lx) else strLoop lx dest
termination_by lx.work
decreasing_by exact piece_work ‹_›

def parseStr (lx : Lexer) (dest : Nat) : Except ParseError Lexer :=
  match lx.strLoop dest with
  | .error e => .error e
  | .ok (next, dest, lx) =>
      let lx := if lx.cur ≠ 0 ∧ next then { lx with pos := lx.pos + 1 } else lx
      .ok (lx.set dest 0)

/-- The bytes from `i` on, up to a NUL. -/
def strAt (lx : Lexer) (i : Nat) : List UInt8 := (lx.buf.drop i).takeWhile (· ≠ 0)

def nextArg (lx : Lexer) (required name package : Bool) : Except ParseError (List UInt8 × Lexer) :=
  let lx := lx.skipWhitespace
  let val := lx.pos
  match
    if lx.cur = SEMICOLON then .ok { lx.set lx.pos 0 with pos := lx.pos + 1 }
    else lx.parseStr val
  with
  | .error e => .error e
  | .ok lx =>
      let s := lx.strAt val
      if s.isEmpty then
        if required then .error (lx.err "insufficient arguments") else .ok (s, lx)
      else if name ∧ ¬ validateStr s name package then
        .error (lx.err "invalid character in name field")
      else .ok (s, lx)

def assertEol (lx : Lexer) : Except ParseError Lexer :=
  match lx.skipWhitespace.nextArg false false false with
  | .error e => .error e
  | .ok (s, lx) => if s.isEmpty then .ok lx else .error (lx.err "too many arguments")

def skipKeyword (lx : Lexer) (reason : String) : Except ParseError Lexer :=
  let len := (lx.strAt lx.pos).length
  if lx.pos + len + 1 > lx.filled then .error (lx.err reason)
  else .ok { lx with pos := lx.pos + len + 1 }

section Work

variable {lx lx' : Lexer}

theorem set_work (lx : Lexer) (i : Nat) (c : UInt8) : (lx.set i c).work = lx.work := by
  simp only [work, set, List.length_set]

theorem skipWhitespace_work (lx : Lexer) : lx.skipWhitespace.work ≤ lx.work := by
  simp only [work, skipWhitespace]
  omega

theorem piece_stop_work {dest : Nat} {next : Bool}
    (h : lx.piece dest = .ok (.stop next lx')) : lx'.work = lx.work := by
  rw [piece] at h
  split at h
  · rcases hs : lx.singleQuote dest with e | r <;> rw [hs] at h <;> cases h
  split at h
  · rcases hs : lx.doubleQuote dest with e | r <;> rw [hs] at h <;> cases h
  split at h
  · cases h
    exact set_work ..
  split at h
  · cases h
    rfl
  split at h
  · cases h
    rfl
  split at h
  · split at h <;> cases h
  · cases h

theorem strLoop_work {dest dest' : Nat} {next : Bool}
    (h : lx.strLoop dest = .ok (next, dest', lx')) : lx'.work ≤ lx.work := by
  fun_induction strLoop lx dest with
  | case1 => cases h
  | case2 lx dest _ _ hp =>
    cases h
    exact (piece_stop_work hp).le
  | case3 lx dest _ _ hp _ =>
    cases h
    exact (piece_work hp).le
  | case4 lx dest _ _ hp _ ih => exact (ih h).trans (piece_work hp).le

theorem parseStr_work {dest : Nat} (h : lx.parseStr dest = .ok lx') : lx'.work ≤ lx.work := by
  rw [parseStr] at h
  split at h
  · cases h
  · rename_i next dest' lx₁ hs
    cases h
    rw [set_work]
    split
    · exact lx₁.next_work_le.trans (strLoop_work hs)
    · exact strLoop_work hs

theorem nextArg_work {required name package : Bool} {s : List UInt8}
    (h : lx.nextArg required name package = .ok (s, lx')) : lx'.work ≤ lx.work := by
  have hskip := lx.skipWhitespace_work
  rw [nextArg] at h
  dsimp only at h
  split at h
  · cases h
  · rename_i lx₁ hparse
    have hle : lx₁.work ≤ lx.work := by
      split at hparse
      · cases hparse
        have hnext := next_work_le (lx.skipWhitespace.set lx.skipWhitespace.pos 0)
        exact (hnext.trans (set_work ..).le).trans hskip
      · exact (parseStr_work hparse).trans hskip
    split at h
    · split at h
      · cases h
      · cases h
        exact hle
    split at h
    · cases h
    · cases h
      exact hle

theorem assertEol_work (h : lx.assertEol = .ok lx') : lx'.work ≤ lx.work := by
  rw [assertEol] at h
  split at h
  · cases h
  · rename_i s lx₁ harg
    split at h
    · cases h
      exact (nextArg_work harg).trans lx.skipWhitespace_work
    · cases h

theorem skipKeyword_work {reason : String} (hpos : lx.pos < lx.buf.length)
    (h : lx.skipKeyword reason = .ok lx') : lx'.work < lx.work := by
  rw [skipKeyword] at h
  split at h
  · cases h
  · cases h
    simp only [work]
    omega

end Work

def isBlank (c : UInt8) : Bool := c = SPACE || c = TAB

/-- The next keyword, none at the end of the line; a NUL is put after it. -/
def strtok (lx : Lexer) : List UInt8 × Lexer :=
  let start := lx.pos + ((lx.buf.drop lx.pos).takeWhile isBlank).length
  let word := (lx.buf.drop start).takeWhile fun c => c ≠ 0 && !isBlank c
  (word, if word.isEmpty then lx else lx.set (start + word.length) 0)

theorem strtok_work (lx : Lexer) : lx.strtok.2.work = lx.work := by
  rw [strtok]
  dsimp only
  split
  · rfl
  · exact set_work ..

theorem strtok_pos {lx : Lexer} (h : lx.strtok.1 ≠ []) :
    lx.strtok.2.pos < lx.strtok.2.buf.length := by
  have hlt : lx.pos < lx.buf.length := by
    by_contra hge
    refine h ?_
    have hnil : lx.buf.drop lx.pos = [] := List.drop_eq_nil_of_le (Nat.le_of_not_lt hge)
    simp [strtok, hnil]
  rw [strtok]
  dsimp only
  split
  · exact hlt
  · simpa [set] using hlt

end Lexer

end Uci

end Datad
