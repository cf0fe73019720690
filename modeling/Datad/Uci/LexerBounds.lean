/-
  Datad/Uci/LexerBounds.lean
  ==========================
  **The lexer of uci files stays inside its buffer.**

  The position is in the buffer or at its end, and as long as it is inside, the buffer is
  filled as far as the lexer believes (`Inv`): a line that was cut off without another one
  in its place leaves the position at the end.  Each function of the lexer keeps this and
  does what its counterpart in `Lexer.lean` does (`Follows`); each turn of a loop is ahead
  of the one before (`Advance`), and the `work` that is left bounds their number.
-/
import Datad.Uci.Reader
import Datad.Uci.Text

namespace Datad

namespace Uci

open Checked

/-! ### The line buffer -/

theorem splitLine_eq (s : List UInt8) :
    splitLine s =
      (s.take (((s.findIdx? (· = NEWLINE)).map (· + 1)).getD s.length),
        s.drop (((s.findIdx? (· = NEWLINE)).map (· + 1)).getD s.length)) := by
  induction s with
  | nil => rfl
  | cons c s ih =>
    rw [splitLine, List.findIdx?_cons]
    by_cases hc : c = NEWLINE
    · simp [hc]
    · rw [if_neg hc, ih]
      cases hf : s.findIdx? (· = NEWLINE) with
      | none => simp [hc]
      | some i => simp [hc]

namespace Reader

variable {r₀ r r' : Reader} {lx : Lexer}

/-- The position is in the buffer or at its end, and up to there the buffer is filled as far
    as the lexer believes. -/
structure Inv (r : Reader) : Prop where
  pos_le : r.pos ≤ r.buf.length
  filled : r.pos < r.buf.length → r.filled = r.buf.length

/-- The reader has gone on from `r₀` and stands where the lexer `lx` does. -/
structure Follows (r₀ r : Reader) (lx : Lexer) : Prop where
  lexer : r.lexer = lx
  inv : r.Inv
  pos : r₀.pos ≤ r.pos
  ipos : r₀.ipos ≤ r.ipos

theorem Follows.refl (h : r.Inv) : Follows r r r.lexer := ⟨rfl, h, Nat.le_refl _, Nat.le_refl _⟩

theorem Follows.trans (h : Follows r r' lx) (h₀ : r₀.pos ≤ r.pos ∧ r₀.ipos ≤ r.ipos) :
    Follows r₀ r' lx :=
  ⟨h.lexer, h.inv, h₀.1.trans h.pos, h₀.2.trans h.ipos⟩

theorem pos_lt_of_cur (h : r.cur ≠ 0) : r.pos < r.buf.length :=
  @Lexer.pos_lt_of_cur r.lexer h

theorem getln_spec {offset : Nat} (h : offset ≤ r.buf.length) :
    ∃ r', r.getln offset = pure r' ∧ r'.lexer = r.lexer.getln offset ∧ r'.pos = r.pos ∧
      ((r.ipos < r'.ipos ∧ r'.filled = r'.buf.length ∧ offset ≤ r'.buf.length) ∨
        (r.input.length ≤ r.ipos ∧ r'.ipos = r.ipos ∧ r'.buf.length = offset)) := by
  have hoff : ¬offset > r.buf.length := Nat.not_lt.2 h
  by_cases hend : r.ipos ≥ r.input.length
  · refine ⟨{ r with buf := r.buf.take offset }, ?_, ?_, rfl, .inr ⟨hend, rfl, ?_⟩⟩
    · rw [getln, if_neg hoff]
      exact if_pos hend
    · have hrest : (r.input.drop r.ipos).isEmpty = true := by
        rw [List.isEmpty_iff, List.drop_eq_nil_iff]
        exact hend
      exact (if_pos hrest).symm
    · exact List.length_take_of_le h
  · have hlt : r.ipos < r.input.length := Nat.not_le.1 hend
    have hrest : ¬(r.input.drop r.ipos).isEmpty = true := by
      rw [List.isEmpty_iff, List.drop_eq_nil_iff]
      exact hend
    have hline := splitLine_eq (r.input.drop r.ipos)
    have hpos := splitLine_pos fun hnil => hrest (List.isEmpty_iff.2 hnil)
    rw [getln, if_neg hoff, if_neg hend, sliceFrom_eq hlt.le, pure_bind]
    generalize hn : (((r.input.drop r.ipos).findIdx? (· = NEWLINE)).map (· + 1)).getD
      (r.input.drop r.ipos).length = n at hline
    have hle : n ≤ (r.input.drop r.ipos).length := by
      rw [← hn]
      cases hf : (r.input.drop r.ipos).findIdx? (· = NEWLINE) with
      | none => exact Nat.le_refl _
      | some i => exact (List.findIdx?_eq_some_iff_getElem.1 hf).1
    have hn0 : 0 < n := by
      rw [hline, List.length_take] at hpos
      omega
    dsimp only
    rw [slice_eq (Nat.zero_le _) hle, pure_bind, List.drop_zero]
    refine ⟨_, rfl, ?_, rfl, .inl ⟨Nat.lt_add_of_pos_right hn0, rfl, ?_⟩⟩
    · refine Eq.trans ?_ (if_neg hrest).symm
      simp only [lexer, hline, List.drop_drop]
    · dsimp only
      rw [List.length_append, List.length_take_of_le h]
      exact Nat.le_add_right _ _

/-- A line is put at the position. -/
theorem getln_follows (h : r.pos ≤ r.buf.length) :
    ∃ r', r.getln r.pos = pure r' ∧ Follows r r' (r.lexer.getln r.pos) ∧
      (r'.cur ≠ 0 → r.ipos < r'.ipos) := by
  obtain ⟨r', heq, hlexer, hpos, hcase⟩ := getln_spec h
  rcases hcase with ⟨hipos, hfilled, hlen⟩ | ⟨-, hipos, hlen⟩
  · exact ⟨r', heq, ⟨hlexer, ⟨hpos.le.trans hlen, fun _ => hfilled⟩, hpos.ge, hipos.le⟩,
      fun _ => hipos⟩
  · refine ⟨r', heq, ⟨hlexer, ⟨(hpos.trans hlen.symm).le, fun hlt => ?_⟩, hpos.ge, hipos.ge⟩,
      fun hcur => ?_⟩
    · rw [hpos, hlen] at hlt
      exact absurd hlt (Nat.lt_irrefl _)
    · have hlt := pos_lt_of_cur hcur
      rw [hpos, hlen] at hlt
      exact absurd hlt (Nat.lt_irrefl _)

theorem next_follows (hr : r.Inv) (h : r.cur ≠ 0) :
    Follows r r.next { r.lexer with pos := r.pos + 1 } :=
  ⟨rfl, ⟨pos_lt_of_cur h, fun _ => hr.filled (pos_lt_of_cur h)⟩, Nat.le_succ _, Nat.le_refl _⟩

theorem set_inv (hr : r.Inv) (i : Nat) (c : UInt8) : (r.set i c).Inv := by
  have hlen : (r.set i c).buf.length = r.buf.length := List.length_set
  constructor
  · rw [hlen]
    exact hr.pos_le
  · rw [hlen]
    exact hr.filled

theorem set_follows (hr : r.Inv) (i : Nat) (c : UInt8) :
    Follows r (r.set i c) (r.lexer.set i c) :=
  ⟨rfl, set_inv hr i c, Nat.le_refl _, Nat.le_refl _⟩

theorem addc_follows (hr : r.Inv) (h : r.cur ≠ 0) (dest : Nat) :
    Follows r (r.addc dest) (r.lexer.addc dest) := by
  have hnext := (next_follows hr h).inv
  exact ⟨rfl, set_inv hnext dest r.cur, Nat.le_succ _, Nat.le_refl _⟩

theorem goOn_eq {σ ρ : Type} {s : σ} (h : r.pos < r'.pos ∨ r.ipos < r'.ipos) :
    (goOn r r' s : Reading (LoopStep σ ρ)) = pure (.next s) := if_pos h

/-- After a backslash the line ends, and goes on in the next one. -/
def Ends (lx : Lexer) : Prop :=
  lx.cur = 0 ∨ lx.cur = NEWLINE ∨
    lx.cur = RETURN ∧ lx.ch (lx.pos + 1) = NEWLINE ∧ lx.ch (lx.pos + 2) = 0

theorem backslash_spec (hr : r.Inv) (h : r.cur ≠ 0) :
    ∃ r', r.backslash = pure (r.lexer.backslash.1, r') ∧ Follows r r' r.lexer.backslash.2 ∧
      r.pos < r'.pos ∧ (r.lexer.backslash.1 = true → r'.cur ≠ 0) := by
  have hnext := next_follows hr h
  by_cases hends : Ends r.next.lexer
  · obtain ⟨r', heq, hf, -⟩ := getln_follows hnext.inv.pos_le
    have hlexer : r.lexer.backslash = (false, r.next.lexer.getln r.next.pos) := if_pos hends
    have hreader : r.backslash = (do pure (false, ← r.next.getln r.next.pos)) := if_pos hends
    rw [hlexer, hreader, heq]
    exact ⟨r', rfl, hf.trans ⟨hnext.pos, hnext.ipos⟩, hf.pos, fun hfalse => (by cases hfalse)⟩
  · have hlexer : r.lexer.backslash = (true, r.next.lexer) := if_neg hends
    have hreader : r.backslash = pure (true, r.next) := if_neg hends
    rw [hlexer, hreader]
    exact ⟨r.next, rfl, hnext, Nat.lt_succ_self _, fun _ hz => hends (.inl hz)⟩

/-! ### Loops over the reader -/

section Loops

variable {α β ρ : Type} {R : ρ → β → Prop} {f : α × Reader → Except ParseError β} {a a' : α}

/-- The same result, and the reader after it follows. -/
def Same (r₀ : Reader) (x : α × Reader) (y : α × Lexer) : Prop :=
  x.1 = y.1 ∧ Follows r₀ x.2 y.2

/-- What every turn of a loop keeps, and what goes down. -/
abbrev Advance (r₀ : Reader) (R : ρ → β → Prop) (f : α × Reader → Except ParseError β)
    (r : Reader) (x : Except ParseError β) : Reading (LoopStep (α × Reader) ρ) → Prop :=
  Progress (fun s => Follows r₀ s.2 s.2.lexer) (fun s => s.2.lexer.work) R f r.lexer.work x

theorem goOn_advance {x : Except ParseError β} (hr : Follows r₀ r r.lexer) (h : Follows r r' lx)
    (hahead : r.pos < r'.pos ∨ r.ipos < r'.ipos) (hwork : lx.work < r.lexer.work)
    (hf : x = f (a, r')) : Advance r₀ R f r x (goOn r r' (a, r')) := by
  rw [goOn_eq hahead]
  have hlater := h.trans ⟨hr.pos, hr.ipos⟩
  have hlexer := h.lexer
  exact .next ⟨rfl, hlater.inv, hlater.pos, hlater.ipos⟩ (hlexer ▸ hwork) hf

theorem loop_meets {turn : α × Reader → Reading (LoopStep (α × Reader) ρ)} {turns : Nat}
    {s : α × Reader} (hturn : ∀ a r, Follows r₀ r r.lexer → r.lexer.work < turns →
      Advance r₀ R f r (f (a, r)) (turn (a, r)))
    (hs : Follows r₀ s.2 s.2.lexer) (hw : s.2.lexer.work < turns) :
    Meets R (loop turn turns s) (f s) :=
  Meets.loop (fun s hs hw => hturn s.1 s.2 hs hw) hs hw

/-- Inside quotes the end of a line is not the end of the argument: the next line is read. -/
theorem quoted_advance {R : ρ → β → Prop} {F : Nat → Lexer → Except ParseError β} {dest : Nat}
    (hr : Follows r₀ r r.lexer) (reason : String) :
    Advance r₀ R (fun s => F s.1 s.2.lexer) r
      (if (r.lexer.getln r.lexer.pos).cur = 0 then
          .error ((r.lexer.getln r.lexer.pos).err reason)
        else F dest (r.lexer.getln r.lexer.pos))
      (do
        let r' ← r.getln r.pos
        if r'.cur = 0 then throw (r'.err reason) else goOn r r' (dest, r')) := by
  obtain ⟨r', heq, hf, hahead⟩ := getln_follows hr.inv.pos_le
  have hlexer : r.lexer.getln r.lexer.pos = r'.lexer := hf.lexer.symm
  rw [heq, pure_bind, hlexer]
  refine .ite (fun _ => .throw rfl) fun hz => ?_
  refine goOn_advance hr hf (.inr (hahead hz)) ((Lexer.getln_work r.lexer).2 ?_) rfl
  rw [hlexer]
  exact hz

end Loops

theorem cur_ne_zero {c : UInt8} (h : r.cur = c) (hc : c ≠ 0 := by decide) : r.cur ≠ 0 := by
  rw [h]
  exact hc

theorem singleTurn_spec {dest : Nat} (hr : Follows r₀ r r.lexer) :
    Advance r₀ (Same r₀) (fun s => s.2.lexer.singleLoop s.1) r (r.lexer.singleLoop dest)
      (singleTurn (dest, r)) := by
  rw [Lexer.singleLoop.eq_def, singleTurn]
  refine .ite (fun hq => ?_) fun _ => .ite (fun hz => ?_) fun hz => ?_
  · exact .done rfl ⟨rfl, (next_follows hr.inv (cur_ne_zero hq)).trans ⟨hr.pos, hr.ipos⟩⟩
  · exact quoted_advance (F := fun dest lx => lx.singleLoop dest) hr _
  · exact goOn_advance hr (addc_follows hr.inv hz dest) (.inl (Nat.lt_succ_self _))
      (Lexer.addc_work hz dest) rfl

theorem doubleTurn_spec {dest : Nat} (hr : Follows r₀ r r.lexer) :
    Advance r₀ (Same r₀) (fun s => s.2.lexer.doubleLoop s.1) r (r.lexer.doubleLoop dest)
      (doubleTurn (dest, r)) := by
  rw [Lexer.doubleLoop.eq_def, doubleTurn]
  refine .ite (fun hq => ?_) fun _ => .ite (fun hz => ?_) fun hz => .ite (fun _ => ?_) fun _ => ?_
  · exact .done rfl ⟨rfl, (next_follows hr.inv (cur_ne_zero hq)).trans ⟨hr.pos, hr.ipos⟩⟩
  · exact quoted_advance (F := fun dest lx => lx.doubleLoop dest) hr _
  · obtain ⟨r', heq, hf, hpos, hcur⟩ := backslash_spec hr.inv hz
    have hwork : r.lexer.backslash.2.work < r.lexer.work := Lexer.backslash_work hz
    have hlexer := hf.lexer.symm
    rw [heq, pure_bind, hlexer]
    rw [hlexer] at hwork
    refine .ite (fun htaken => ?_) fun _ => goOn_advance hr hf (.inl hpos) (hlexer ▸ hwork) rfl
    have hadd := addc_follows hf.inv (hcur htaken) dest
    exact goOn_advance hr (hadd.trans ⟨hf.pos, hf.ipos⟩) (.inl (hpos.trans (Nat.lt_succ_self _)))
      (lt_of_le_of_lt (Lexer.addc_work_le _ dest) hwork) rfl
  · exact goOn_advance hr (addc_follows hr.inv hz dest) (.inl (Nat.lt_succ_self _))
      (Lexer.addc_work hz dest) rfl

section Quotes

variable {turns : Nat}

theorem singleQuote_meets (hr : r.Inv) (hz : r.cur ≠ 0) (hw : r.lexer.work < turns) (dest : Nat) :
    Meets (Same r.next) (r.singleQuote turns dest) (r.lexer.singleQuote dest) := by
  have hnext := (next_follows hr hz).inv
  have hwork : r.next.lexer.work ≤ r.lexer.work := r.lexer.next_work_le
  exact loop_meets (fun _ _ hs _ => singleTurn_spec hs) (Follows.refl hnext)
    (lt_of_le_of_lt hwork hw)

theorem doubleQuote_meets (hr : r.Inv) (hz : r.cur ≠ 0) (hw : r.lexer.work < turns) (dest : Nat) :
    Meets (Same r.next) (r.doubleQuote turns dest) (r.lexer.doubleQuote dest) := by
  have hnext := (next_follows hr hz).inv
  have hwork : r.next.lexer.work ≤ r.lexer.work := r.lexer.next_work_le
  exact loop_meets (fun _ _ hs _ => doubleTurn_spec hs) (Follows.refl hnext)
    (lt_of_le_of_lt hwork hw)

end Quotes

/-- What `parse_str` returns, and the reader after it follows. -/
def SameStr (r₀ : Reader) (x : Bool × Nat × Reader) (y : Bool × Nat × Lexer) : Prop :=
  x.1 = y.1 ∧ Same r₀ x.2 y.2

theorem strLoop_error {dest : Nat} {e : ParseError} (hp : lx.piece dest = .error e) :
    lx.strLoop dest = .error e := by
  rw [Lexer.strLoop]
  split <;> simp_all

theorem strLoop_stop {dest : Nat} {next : Bool} {lx' : Lexer}
    (hp : lx.piece dest = .ok (.stop next lx')) : lx.strLoop dest = .ok (next, dest, lx') := by
  rw [Lexer.strLoop]
  split <;> simp_all

/-- The end of a turn after a piece of an argument. -/
theorem strEnd_spec {dest : Nat} {s : Nat × Reader} (hr : Follows r₀ r r.lexer)
    (hf : Follows r s.2 lx) (hahead : r.pos < s.2.pos)
    (hp : r.lexer.piece dest = .ok (.go s.1 lx)) :
    Advance r₀ (SameStr r₀) (fun s => s.2.lexer.strLoop s.1) r (r.lexer.strLoop dest)
      (r.strEnd s) := by
  have hlexer := hf.lexer
  subst hlexer
  rw [strLoop_go hp, strEnd]
  refine .ite (fun _ => .done rfl ⟨rfl, rfl, hf.trans ⟨hr.pos, hr.ipos⟩⟩) fun _ => ?_
  exact goOn_advance hr hf (.inl hahead) (Lexer.piece_work hp) rfl

/-- A turn that takes a quoted string in. -/
theorem quote_advance {dest : Nat} {m : Reading (Nat × Reader)}
    {y : Except ParseError (Nat × Lexer)} (hr : Follows r₀ r r.lexer) (hm : Meets (Same r.next) m y)
    (hp : r.lexer.piece dest = y.map fun r => .go r.1 r.2) :
    Advance r₀ (SameStr r₀) (fun s => s.2.lexer.strLoop s.1) r (r.lexer.strLoop dest)
      (m >>= r.strEnd) := by
  refine .bind hm ?_ ?_
  · rintro e rfl
    exact strLoop_error hp
  · rintro s ⟨dest', lx⟩ rfl ⟨hdest, hf⟩
    refine strEnd_spec hr (hf.trans ⟨Nat.le_succ _, Nat.le_refl _⟩) hf.pos ?_
    rw [hp, hdest]
    rfl

theorem strTurn_spec {turns dest : Nat} (hr : Follows r₀ r r.lexer)
    (hw : r.lexer.work < turns) :
    Advance r₀ (SameStr r₀) (fun s => s.2.lexer.strLoop s.1) r (r.lexer.strLoop dest)
      (strTurn turns (dest, r)) := by
  have hpiece := Lexer.piece.eq_def r.lexer dest
  rw [strTurn]
  by_cases hq : r.cur = QUOTE
  · rw [if_pos hq]
    exact quote_advance hr (singleQuote_meets hr.inv (cur_ne_zero hq) hw dest)
      (hpiece.trans (if_pos hq))
  replace hpiece := hpiece.trans (if_neg hq)
  rw [if_neg hq]
  by_cases hd : r.cur = DQUOTE
  · rw [if_pos hd]
    exact quote_advance hr (doubleQuote_meets hr.inv (cur_ne_zero hd) hw dest)
      (hpiece.trans (if_pos hd))
  replace hpiece := hpiece.trans (if_neg hd)
  rw [if_neg hd]
  by_cases hh : r.cur = HASH
  · rw [if_pos hh, strLoop_stop (hpiece.trans (if_pos hh))]
    exact .done rfl ⟨rfl, rfl, (set_follows hr.inv r.pos 0).trans ⟨hr.pos, hr.ipos⟩⟩
  replace hpiece := hpiece.trans (if_neg hh)
  rw [if_neg hh]
  by_cases hz : r.cur = 0
  · rw [if_pos hz, strLoop_stop (hpiece.trans (if_pos hz))]
    exact .done rfl ⟨rfl, rfl, hr⟩
  replace hpiece := hpiece.trans (if_neg hz)
  rw [if_neg hz]
  by_cases hs : r.cur = SEMICOLON
  · rw [if_pos hs, strLoop_stop (hpiece.trans (if_pos hs))]
    exact .done rfl ⟨rfl, rfl, hr⟩
  replace hpiece := hpiece.trans (if_neg hs)
  rw [if_neg hs]
  by_cases hb : r.cur = BACKSLASH
  · obtain ⟨r', heq, hf, hpos, hcur⟩ := backslash_spec hr.inv hz
    replace hpiece := hpiece.trans (if_pos hb)
    rw [if_pos hb, heq, pure_bind]
    dsimp only
    by_cases htaken : r.lexer.backslash.1 = true
    · have hadd := addc_follows hf.inv (hcur htaken) dest
      rw [if_pos htaken] at hpiece ⊢
      refine strEnd_spec hr (hadd.trans ⟨hf.pos, hf.ipos⟩) (hpos.trans (Nat.lt_succ_self _)) ?_
      rw [hpiece, hf.lexer]
    · rw [if_neg htaken] at hpiece ⊢
      exact strEnd_spec hr hf hpos hpiece
  · rw [if_neg hb]
    exact strEnd_spec hr (addc_follows hr.inv hz dest) (Nat.lt_succ_self _)
      (hpiece.trans (if_neg hb))

/-! ### Arguments -/

theorem drop_pos (h : r.pos < r.buf.length) :
    r.buf.drop r.pos = r.cur :: r.buf.drop (r.pos + 1) := by
  have hcur : r.cur = r.buf[r.pos] := List.getD_eq_getElem r.buf 0 h
  rw [hcur]
  exact List.drop_eq_getElem_cons h

theorem isSpace_next (h : r.cur ≠ 0 ∧ isSpace r.cur = true) :
    r.lexer.skipWhitespace = r.next.lexer.skipWhitespace := by
  have hdrop := drop_pos (pos_lt_of_cur h.1)
  have hlen : ((r.buf.drop r.pos).takeWhile isSpace).length =
      ((r.buf.drop (r.pos + 1)).takeWhile isSpace).length + 1 := by
    rw [hdrop, List.takeWhile_cons, if_pos h.2, List.length_cons]
  have hpos : r.pos + ((r.buf.drop r.pos).takeWhile isSpace).length =
      r.pos + 1 + ((r.buf.drop (r.pos + 1)).takeWhile isSpace).length := by
    omega
  exact congrArg (fun pos => { r.lexer with pos }) hpos

theorem isSpace_last (h : ¬(r.cur ≠ 0 ∧ isSpace r.cur = true)) :
    r.lexer.skipWhitespace = r.lexer := by
  have hnil : (r.buf.drop r.pos).takeWhile isSpace = [] := by
    by_cases hlt : r.pos < r.buf.length
    · have hspace : ¬isSpace r.cur = true := by
        intro hspace
        refine h ⟨fun hz => ?_, hspace⟩
        rw [hz] at hspace
        exact absurd hspace (by decide)
      rw [drop_pos hlt, List.takeWhile_cons, if_neg hspace]
    · rw [List.drop_eq_nil_of_le (Nat.le_of_not_lt hlt), List.takeWhile_nil]
  have hpos : r.pos + ((r.buf.drop r.pos).takeWhile isSpace).length = r.pos := by
    rw [hnil]
    rfl
  exact congrArg (fun pos => { r.lexer with pos }) hpos

theorem skipTurn_spec (hr : Follows r₀ r r.lexer) :
    Progress (fun r => Follows r₀ r r.lexer) (fun r => r.lexer.work) (Follows r₀)
      (fun r => .ok r.lexer.skipWhitespace) r.lexer.work (.ok r.lexer.skipWhitespace)
      (skipTurn r) := by
  rw [skipTurn]
  by_cases h : r.cur ≠ 0 ∧ isSpace r.cur = true
  · have hnext := (next_follows hr.inv h.1).trans ⟨hr.pos, hr.ipos⟩
    rw [if_pos h, goOn_eq (.inl (Nat.lt_succ_self _))]
    have hcur : r.lexer.cur ≠ 0 := h.1
    exact .next hnext (Lexer.next_work hcur) (congrArg _ (isSpace_next h))
  · rw [if_neg h]
    exact .done (congrArg _ (isSpace_last h)) hr

theorem skipWhitespace_meets {turns : Nat} (hr : r.Inv) (hw : r.lexer.work < turns) :
    Meets (Follows r) (r.skipWhitespace turns) (.ok r.lexer.skipWhitespace) :=
  Meets.loop (fun _ hs _ => skipTurn_spec hs) (Follows.refl hr) hw

/-- After whitespace a reading goes on from a reader that follows. -/
theorem skipped_meets {ρ β : Type} {R : ρ → β → Prop} {turns : Nat} {k : Reader → Reading ρ}
    {x : Except ParseError β} (hr : r.Inv) (hw : r.lexer.work < turns)
    (h : ∀ r₁, r₁.lexer = r.lexer.skipWhitespace → Follows r r₁ r₁.lexer →
      r₁.lexer.work < turns → Meets R (k r₁) x) :
    Meets R (r.skipWhitespace turns >>= k) x := by
  refine (skipWhitespace_meets hr hw).bind (g := fun _ => x) ?_
  intro r₁ lx₁ hskip hf
  cases hskip
  refine h r₁ hf.lexer ⟨rfl, hf.inv, hf.pos, hf.ipos⟩ ?_
  rw [hf.lexer]
  exact lt_of_le_of_lt r.lexer.skipWhitespace_work hw

theorem parseStr_eq (lx : Lexer) (dest : Nat) :
    lx.parseStr dest = (lx.strLoop dest >>= fun s =>
      .ok ((if s.2.2.cur ≠ 0 ∧ s.1 then { s.2.2 with pos := s.2.2.pos + 1 } else s.2.2).set
        s.2.1 0)) := by
  rw [Lexer.parseStr]
  cases lx.strLoop dest with
  | error e => rfl
  | ok s => rfl

theorem parseStr_meets {turns : Nat} (hr : r.Inv) (hw : r.lexer.work < turns) (dest : Nat) :
    Meets (Follows r) (r.parseStr turns dest) (r.lexer.parseStr dest) := by
  have hloop : Meets (SameStr r) (loop (strTurn turns) turns (dest, r)) (r.lexer.strLoop dest) :=
    loop_meets (fun _ _ hs hw => strTurn_spec hs hw) (Follows.refl hr) hw
  rw [parseStr_eq, parseStr]
  refine hloop.bind ?_
  rintro ⟨next, dest', r'⟩ ⟨_, _, lx⟩ - ⟨rfl, rfl, hf⟩
  have hlexer := hf.lexer
  dsimp only at hlexer ⊢
  subst hlexer
  refine .pure ?_
  by_cases hnext : r'.cur ≠ 0 ∧ next = true
  · have hlexer : r'.lexer.cur ≠ 0 ∧ next = true := hnext
    rw [if_pos hnext, if_pos hlexer]
    have hf' := (next_follows hf.inv hnext.1).trans ⟨hf.pos, hf.ipos⟩
    exact (set_follows hf'.inv dest' 0).trans ⟨hf'.pos, hf'.ipos⟩
  · have hlexer : ¬(r'.lexer.cur ≠ 0 ∧ next = true) := hnext
    rw [if_neg hnext, if_neg hlexer]
    exact (set_follows hf.inv dest' 0).trans ⟨hf.pos, hf.ipos⟩

theorem strAt_eq (r : Reader) (i : Nat) : r.strAt i = pure (r.lexer.strAt i) := by
  have hbytes : ((r.buf.drop i).takeWhile fun b => !(decide (b = 0))) = r.lexer.strAt i := by
    simp only [decide_not, Lexer.strAt]
    rfl
  rw [strAt, slice_findIdx?, hbytes]

/-- How an argument ends: what was taken, and whether it may be. -/
theorem nextArg_eq (lx : Lexer) (required name package : Bool) :
    lx.nextArg required name package =
      ((if lx.skipWhitespace.cur = SEMICOLON then
          .ok { lx.skipWhitespace.set lx.skipWhitespace.pos 0 with
            pos := lx.skipWhitespace.pos + 1 }
        else lx.skipWhitespace.parseStr lx.skipWhitespace.pos) >>= fun lx' =>
        if (lx'.strAt lx.skipWhitespace.pos).isEmpty then
          if required then .error (lx'.err "insufficient arguments")
          else .ok (lx'.strAt lx.skipWhitespace.pos, lx')
        else if name ∧ ¬ validateStr (lx'.strAt lx.skipWhitespace.pos) name package then
          .error (lx'.err "invalid character in name field")
        else .ok (lx'.strAt lx.skipWhitespace.pos, lx')) := by
  rw [Lexer.nextArg]
  dsimp only
  generalize (if lx.skipWhitespace.cur = SEMICOLON then _ else _) = x
  cases x with
  | error e => rfl
  | ok lx' => rfl

theorem nextArg_meets {turns : Nat} (hr : r.Inv) (hw : r.lexer.work < turns)
    (required name package : Bool) :
    Meets (Same r) (r.nextArg turns required name package)
      (r.lexer.nextArg required name package) := by
  rw [nextArg_eq, nextArg]
  refine skipped_meets hr hw fun r₁ hlexer₁ hf₁ hw₁ => ?_
  rw [← hlexer₁]
  have harg : Meets (Follows r₁) (r₁.takeArg turns)
      (if r₁.lexer.cur = SEMICOLON then
          .ok { r₁.lexer.set r₁.lexer.pos 0 with pos := r₁.lexer.pos + 1 }
        else r₁.lexer.parseStr r₁.lexer.pos) := by
    refine .ite (fun hs => .pure ?_) fun _ => parseStr_meets hf₁.inv hw₁ r₁.pos
    have hlt := pos_lt_of_cur (cur_ne_zero hs)
    have hset := set_inv hf₁.inv r₁.pos 0
    have hlen : (r₁.set r₁.pos 0).buf.length = r₁.buf.length := List.length_set
    refine ⟨rfl, ⟨?_, fun _ => hset.filled ?_⟩, Nat.le_succ _, Nat.le_refl _⟩
    · exact hlen ▸ hlt
    · exact hlen ▸ hlt
  refine Meets.bind harg ?_
  intro r₂ lx₂ _ hf₂
  have hlexer₂ := hf₂.lexer
  subst hlexer₂
  rw [strAt_eq, pure_bind]
  have hsame : ∀ s : List UInt8, Same r (s, r₂) (s, r₂.lexer) :=
    fun s => ⟨rfl, hf₂.trans ⟨hf₁.pos, hf₁.ipos⟩⟩
  refine .ite (fun _ => .ite (fun _ => .throw _) fun _ => .pure (hsame _)) fun _ => ?_
  exact .ite (fun _ => .throw _) fun _ => .pure (hsame _)

theorem assertEol_meets {turns : Nat} (hr : r.Inv) (hw : r.lexer.work < turns) :
    Meets (Follows r) (r.assertEol turns) r.lexer.assertEol := by
  have heq : r.lexer.assertEol = (r.lexer.skipWhitespace.nextArg false false false >>= fun s =>
      if s.1.isEmpty then .ok s.2 else .error (s.2.err "too many arguments")) := by
    rw [Lexer.assertEol]
    cases r.lexer.skipWhitespace.nextArg false false false with
    | error e => rfl
    | ok s => rfl
  rw [heq, assertEol]
  refine skipped_meets hr hw fun r₁ hlexer₁ hf₁ hw₁ => ?_
  rw [← hlexer₁]
  refine (nextArg_meets hf₁.inv hw₁ false false false).bind ?_
  rintro ⟨s, r₂⟩ ⟨_, lx₂⟩ - ⟨rfl, hf₂⟩
  have hlexer₂ := hf₂.lexer
  dsimp only at hlexer₂ ⊢
  subst hlexer₂
  exact .ite (fun _ => .pure (hf₂.trans ⟨hf₁.pos, hf₁.ipos⟩)) fun _ => .throw _

/-- A keyword is behind the position, and there is a byte after it. -/
theorem skipKeyword_meets (hr : r.Inv) (hlt : r.pos < r.buf.length) (reason : String) :
    Meets (fun r' lx => Follows r r' lx ∧ r.pos < r'.pos) (r.skipKeyword reason)
      (r.lexer.skipKeyword reason) := by
  rw [skipKeyword, strAt_eq, pure_bind, Lexer.skipKeyword]
  refine .ite (fun _ => .throw _) fun hlen => .pure ?_
  have hfilled := hr.filled hlt
  refine ⟨⟨rfl, ⟨?_, fun _ => hfilled⟩, ?_, Nat.le_refl _⟩, ?_⟩
  · dsimp only
    omega
  · dsimp only
    omega
  · dsimp only
    omega

/-! ### Keywords -/

theorem scanTurn_spec {p : UInt8 → Bool} (h0 : p 0 = false) (i : Nat) :
    Progress (fun _ => True) (fun i => r.buf.length - i) Eq
      (fun i => .ok (i + ((r.buf.drop i).takeWhile p).length)) (r.buf.length - i)
      (.ok (i + ((r.buf.drop i).takeWhile p).length)) (r.scanTurn p i) := by
  rw [scanTurn]
  by_cases hlt : i < r.buf.length
  · have hch : r.ch i = r.buf[i] := List.getD_eq_getElem r.buf 0 hlt
    have hdrop : r.buf.drop i = r.ch i :: r.buf.drop (i + 1) := by
      rw [hch]
      exact List.drop_eq_getElem_cons hlt
    rw [hdrop, List.takeWhile_cons]
    by_cases hp : p (r.ch i) = true
    · rw [if_pos hp, if_pos hp, List.length_cons]
      refine .next trivial (by omega) (congrArg _ ?_)
      omega
    · rw [if_neg hp, if_neg hp]
      exact .done rfl rfl
  · have hch : r.ch i = 0 := List.getD_eq_default _ _ (Nat.le_of_not_lt hlt)
    rw [hch, h0, List.drop_eq_nil_of_le (Nat.le_of_not_lt hlt)]
    exact .done rfl rfl

theorem scan_eq {p : UInt8 → Bool} (h0 : p 0 = false) {turns i : Nat}
    (hi : r.buf.length - i < turns) :
    loop (r.scanTurn p) turns i = pure (i + ((r.buf.drop i).takeWhile p).length) :=
  (Meets.loop (fun i _ _ => scanTurn_spec h0 i) trivial hi).eq_some

/-- The slice of a word behind `start`, which may be beyond the end when there is none. -/
theorem slice_word {buf word : List UInt8} {start : Nat} (h : word <+: buf.drop start) :
    (slice buf (min start buf.length) (min (start + word.length) buf.length) :
      Reading (List UInt8)) = pure word := by
  have hlen := h.length_le
  rw [List.length_drop] at hlen
  rw [slice_eq (by omega) (Nat.min_le_right _ _), List.drop_take]
  refine congrArg pure ?_
  have hword := (List.prefix_iff_eq_take.1 h).symm
  by_cases hstart : start ≤ buf.length
  · have hn : min (start + word.length) buf.length - min start buf.length = word.length := by
      omega
    rw [hn, Nat.min_eq_left hstart]
    exact hword
  · have hnil : word = [] := List.eq_nil_of_length_eq_zero (by omega)
    have hdrop : buf.drop (min start buf.length) = [] := List.drop_eq_nil_of_le (by omega)
    rw [hnil, hdrop, List.take_nil]

theorem strtok_spec {turns : Nat} (hr : r.Inv) (hw : r.lexer.work < turns) :
    ∃ r', r.strtok turns = pure (r.lexer.strtok.1, r') ∧ Follows r r' r.lexer.strtok.2 ∧
      r'.pos = r.pos := by
  have hwork : r.buf.length - r.pos < turns := by
    have hle : r.buf.length - r.pos ≤ r.lexer.work := Nat.le_add_left _ _
    omega
  rw [strtok, scan_eq (by decide) hwork, pure_bind]
  generalize hstart : r.pos + ((r.buf.drop r.pos).takeWhile Lexer.isBlank).length = start
  have hstart' : r.buf.length - start < turns := by omega
  rw [scan_eq (by decide) hstart', pure_bind]
  generalize hword : (r.buf.drop start).takeWhile (fun c => c ≠ 0 && !(Lexer.isBlank c)) = word
  have hlexer : r.lexer.strtok =
      (word, if word.isEmpty then r.lexer else r.lexer.set (start + word.length) 0) := by
    subst hword
    subst hstart
    rfl
  have hslice : (slice r.buf (min start r.buf.length) (min (start + word.length) r.buf.length) :
      Reading (List UInt8)) = pure word := slice_word (hword ▸ List.takeWhile_prefix _)
  rw [hslice, pure_bind, hlexer]
  by_cases hempty : word.isEmpty = true
  · rw [if_pos hempty, if_pos hempty]
    exact ⟨r, rfl, Follows.refl hr, rfl⟩
  · rw [if_neg hempty, if_neg hempty]
    exact ⟨_, rfl, set_follows hr _ 0, rfl⟩

end Reader

end Uci

end Datad
