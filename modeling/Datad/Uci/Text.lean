/-
  Datad/Uci/Text.lean
  ===================
  **A package written to a file is read back** (`quote`, `parse`).

  The lexer stands in the text that is still to come, part of which is in the buffer: up
  to the end of a line (`Live`), or nothing (`Dry`).  What it has copied of an argument
  stands in front of the read position (`Wrote`), and never crosses it.
-/
import Datad.Uci.Parser

namespace Datad

namespace Uci

open Bytes

/-! ### Writing -/

def quoteBody (v : List UInt8) : List UInt8 :=
  v.flatMap fun c => if c = QUOTE then [QUOTE, BACKSLASH, QUOTE, QUOTE] else [c]

def quote (v : List UInt8) : List UInt8 := QUOTE :: quoteBody v ++ [QUOTE]

/-- An `option` or `list` line. -/
def lineText (indent : List UInt8) (keyword : String) (name v : List UInt8) : List UInt8 :=
  indent ++ (utf8 keyword ++ SPACE :: (name ++ SPACE :: (quote v ++ [NEWLINE])))

def optionText (indent name : List UInt8) : Value → List UInt8
  | .str v => lineText indent "option" name v
  | .list items => items.flatMap (lineText indent "list" name)

def nameText : Option (List UInt8) → List UInt8
  | none => []
  | some n => SPACE :: n

def configText (s : Section) : List UInt8 :=
  utf8 "config" ++ SPACE :: (quote s.stype ++ (nameText s.name ++ [NEWLINE]))

/-- The file of a package: a `config` line for each section, then a line for each option
    and each item of a list. -/
def fileText (indent : List UInt8) (pkg : Package) : List UInt8 :=
  pkg.sections.flatMap fun s =>
    configText s ++ s.options.flatMap fun o => optionText indent o.1 o.2

def Value.valid : Value → Bool
  | .str v => !v.isEmpty && !v.contains 0
  | .list items => !items.isEmpty && items.all fun v => !v.contains 0

/-- Names and types are valid and no string is empty. -/
structure Section.Valid (s : Section) : Prop where
  stype : validateStr s.stype false false = true
  name : ∀ n, s.name = some n → validateStr n true false = true
  optionNames : ∀ o ∈ s.options, validateStr o.1 true false = true
  values : ∀ o ∈ s.options, o.2.valid = true
  unique : (s.options.map (·.1)).Nodup

structure Package.Valid (pkg : Package) : Prop where
  sections : ∀ s ∈ pkg.sections, s.Valid
  unique : (pkg.sections.filterMap (·.name)).Nodup

/-! ### Where the lexer stands -/

/-- In the buffer `ahead` is to be read, and `rest` is left in the input. -/
structure Reads (lx : Lexer) (ahead rest : List UInt8) : Prop where
  ahead : lx.buf.drop lx.pos = ahead
  rest : lx.rest = rest
  pos : lx.pos ≤ lx.buf.length
  filled : lx.filled = lx.buf.length

/-- The text `s` is to be read, its first line from the buffer. -/
def Live (lx : Lexer) (s : List UInt8) : Prop := Reads lx (splitLine s).1 (splitLine s).2

/-- The text `s` is to be read, from the input. -/
def Dry (lx : Lexer) (s : List UInt8) : Prop := Reads lx [] s

/-- The argument that begins after `base` is `w` so far. -/
structure Wrote (lx : Lexer) (base w : List UInt8) : Prop where
  take : lx.buf.take (base.length + w.length) = base ++ w
  le : base.length + w.length ≤ lx.pos

section Standing

variable {lx : Lexer} {c : UInt8} {a r s base w : List UInt8}

theorem Reads.cur (h : Reads lx (c :: a) r) : lx.cur = c := by
  have hget : lx.buf[lx.pos]? = some c := by
    rw [← List.head?_drop, h.ahead]
    rfl
  rw [Lexer.cur, Lexer.ch, List.getD_eq_getElem?_getD, hget]
  rfl

theorem Reads.cur_nil (h : Reads lx [] r) : lx.cur = 0 :=
  List.getD_eq_default _ _ (List.drop_eq_nil_iff.mp h.ahead)

theorem Reads.pos_lt (h : Reads lx (c :: a) r) : lx.pos < lx.buf.length := by
  by_contra hge
  have := h.ahead
  rw [List.drop_eq_nil_of_le (Nat.le_of_not_lt hge)] at this
  cases this

theorem Reads.next (h : Reads lx (c :: a) r) : Reads { lx with pos := lx.pos + 1 } a r where
  ahead := by
    show lx.buf.drop (lx.pos + 1) = a
    rw [← List.drop_drop, h.ahead]
    rfl
  rest := h.rest
  pos := h.pos_lt
  filled := h.filled

theorem Live.cons (h : Live lx (c :: s)) (hc : c ≠ NEWLINE) :
    Reads lx (c :: (splitLine s).1) (splitLine s).2 := by
  rw [Live, splitLine, if_neg hc] at h
  exact h

theorem Live.newline (h : Live lx (NEWLINE :: s)) : Reads lx [NEWLINE] s := by
  rw [Live, splitLine, if_pos rfl] at h
  exact h

theorem Live.reads (h : Live lx (c :: s)) : ∃ a r, Reads lx (c :: a) r := by
  by_cases hc : c = NEWLINE
  · rw [hc] at h ⊢
    exact ⟨_, _, h.newline⟩
  · exact ⟨_, _, h.cons hc⟩

theorem Live.cur (h : Live lx (c :: s)) : lx.cur = c := by
  obtain ⟨a, r, h⟩ := h.reads
  exact h.cur

/-- Writing in front of the read position does not disturb what is read. -/
theorem Reads.set {i : Nat} (h : Reads lx a r) (hi : i < lx.pos) (b : UInt8) :
    Reads (lx.set i b) a r where
  ahead := by
    show (lx.buf.set i b).drop lx.pos = a
    rw [List.drop_set_of_lt hi, h.ahead]
  rest := h.rest
  pos := by
    show lx.pos ≤ (lx.buf.set i b).length
    rw [List.length_set]
    exact h.pos
  filled := by
    show lx.filled = (lx.buf.set i b).length
    rw [List.length_set]
    exact h.filled

/-- Copying a byte. -/
theorem Reads.addc (h : Reads lx (c :: a) r) (hw : Wrote lx base w) :
    Reads (lx.addc (base.length + w.length)) a r ∧
      Wrote (lx.addc (base.length + w.length)) base (w ++ [c]) := by
  have hlt := h.pos_lt
  have hle := hw.le
  constructor
  · have hset := h.next.set (i := base.length + w.length) (Nat.lt_succ_of_le hle) c
    rw [Lexer.addc, h.cur]
    exact hset
  · constructor
    · show (lx.buf.set (base.length + w.length) lx.cur).take _ = _
      rw [h.cur, List.length_append, List.length_singleton, ← Nat.add_assoc,
        List.take_add_one, List.take_set_of_le (Nat.le_refl _), hw.take, List.getElem?_set_self
          (by omega)]
      simp
    · show base.length + (w ++ [c]).length ≤ lx.pos + 1
      rw [List.length_append, List.length_singleton]
      omega

theorem Dry.pos_eq (h : Dry lx s) : lx.pos = lx.buf.length :=
  Nat.le_antisymm h.pos (List.drop_eq_nil_iff.mp h.ahead)

/-- The next line is taken when the buffer is read up. -/
theorem Dry.getln (h : Dry lx s) (hs : s ≠ []) (hw : Wrote lx base w) :
    Live (lx.getln lx.pos) s ∧ Wrote (lx.getln lx.pos) base w := by
  have hpos := h.pos_eq
  have hle := hw.le
  have hrest : ¬ lx.rest.isEmpty = true := by
    rw [h.rest]
    simpa using hs
  have hbuf : lx.buf.take lx.pos = lx.buf := List.take_of_length_le hpos.ge
  have hget : lx.getln lx.pos =
      { rest := (splitLine s).2
        buf := lx.buf ++ (splitLine s).1
        pos := lx.pos
        filled := (lx.buf ++ (splitLine s).1).length
        line := if (lx.buf ++ (splitLine s).1).getLast? = some NEWLINE then lx.line + 1
          else lx.line } := by
    rw [Lexer.getln, if_neg hrest, hbuf, h.rest]
  rw [hget]
  constructor
  · constructor
    · show (lx.buf ++ (splitLine s).1).drop lx.pos = _
      rw [hpos, List.drop_left]
    · rfl
    · show lx.pos ≤ (lx.buf ++ (splitLine s).1).length
      rw [List.length_append]
      omega
    · rfl
  · constructor
    · show (lx.buf ++ (splitLine s).1).take _ = _
      rw [List.take_append_of_le_length (by omega), hw.take]
    · exact hle

/-! ### Quoted strings -/

theorem singleLoop_dry (h : Dry lx (c :: s)) (hc : c ≠ 0) (hw : Wrote lx base w) (dest : Nat) :
    lx.singleLoop dest = (lx.getln lx.pos).singleLoop dest := by
  have hcur : (lx.getln lx.pos).cur = c := (h.getln (List.cons_ne_nil c s) hw).1.cur
  rw [Lexer.singleLoop, if_neg (by rw [h.cur_nil]; decide), if_pos h.cur_nil,
    if_neg (by rw [hcur]; exact hc)]

/-- After the opening quote: everything up to the closing one is copied. -/
theorem singleLoop_spec {p : List UInt8} (hq : QUOTE ∉ p) (hz : 0 ∉ p)
    (h : Live lx (p ++ QUOTE :: s)) (hw : Wrote lx base w) :
    ∃ lx', lx.singleLoop (base.length + w.length) = .ok (base.length + (w ++ p).length, lx') ∧
      Live lx' s ∧ Wrote lx' base (w ++ p) := by
  induction p generalizing lx w with
  | nil =>
    have hr := h.cons (by decide)
    rw [List.append_nil, Lexer.singleLoop, if_pos hr.cur]
    exact ⟨_, rfl, hr.next, hw.take, Nat.le_succ_of_le hw.le⟩
  | cons c p ih =>
    rw [List.mem_cons, not_or] at hq hz
    have hcur : lx.cur = c := h.cur
    have hlen : base.length + w.length + 1 = base.length + (w ++ [c]).length := by
      rw [List.length_append, List.length_singleton, Nat.add_assoc]
    have hcons : w ++ c :: p = w ++ [c] ++ p := by simp
    rw [Lexer.singleLoop, if_neg (by rw [hcur]; exact Ne.symm hq.1),
      if_neg (by rw [hcur]; exact Ne.symm hz.1), hlen, hcons]
    by_cases hc : c = NEWLINE
    · -- the line is read up, and the next one begins with more of the value or its end
      rw [hc] at h
      obtain ⟨hdry, hw'⟩ := h.newline.addc hw
      rw [← hc] at hw'
      obtain ⟨b, t, hb, hbz⟩ : ∃ b t, p ++ QUOTE :: s = b :: t ∧ b ≠ 0 := by
        cases p with
        | nil => exact ⟨QUOTE, s, rfl, by decide⟩
        | cons b p => exact ⟨b, p ++ QUOTE :: s, rfl, fun hb => hz.2 (by simp [hb])⟩
      have hdry : Dry (lx.addc (base.length + w.length)) (p ++ QUOTE :: s) := hdry
      rw [hb] at hdry
      obtain ⟨hl, hw''⟩ := hdry.getln (List.cons_ne_nil b t) hw'
      rw [singleLoop_dry hdry hbz hw']
      rw [← hb] at hl
      exact ih hq.2 hz.2 hl hw''
    · obtain ⟨hl, hw'⟩ := (h.cons hc).addc hw
      exact ih hq.2 hz.2 hl hw'

/-! ### Arguments -/

/-- A byte that stands for itself outside of quotes. -/
def plain (c : UInt8) : Bool :=
  c ≠ QUOTE && c ≠ DQUOTE && c ≠ HASH && c ≠ 0 && c ≠ SEMICOLON && c ≠ BACKSLASH && !isSpace c

/-- The end of an argument. -/
def Delimits (d : UInt8) : Prop := d = SPACE ∨ d = NEWLINE

theorem Delimits.spec {d : UInt8} (h : Delimits d) : isSpace d = true ∧ d ≠ 0 := by
  rcases h with rfl | rfl <;> decide

theorem strLoop_go {dest dest' : Nat} {lx' : Lexer} (hp : lx.piece dest = .ok (.go dest' lx')) :
    lx.strLoop dest =
      if lx'.cur = 0 ∨ isSpace lx'.cur then .ok (true, dest', lx') else lx'.strLoop dest' := by
  rw [Lexer.strLoop]
  split
  · rename_i heq
    rw [hp] at heq
    cases heq
  · rename_i heq
    rw [hp] at heq
    cases heq
  · rename_i heq
    rw [hp] at heq
    cases heq
    rfl

/-- A piece after which the argument is over. -/
theorem strLoop_last {d : UInt8} {dest dest' : Nat} {lx' : Lexer} (hd : Delimits d)
    (hp : lx.piece dest = .ok (.go dest' lx')) (h : Live lx' (d :: s)) :
    lx.strLoop dest = .ok (true, dest', lx') := by
  rw [strLoop_go hp, if_pos (.inr (by rw [h.cur]; exact hd.spec.1))]

/-- A piece after which it goes on. -/
theorem strLoop_more {dest dest' : Nat} {lx' : Lexer}
    (hp : lx.piece dest = .ok (.go dest' lx')) (h : Live lx' (c :: s)) (hz : c ≠ 0)
    (hc : isSpace c = false) : lx.strLoop dest = lx'.strLoop dest' := by
  rw [strLoop_go hp, if_neg (by rw [h.cur, hc]; simpa using hz)]

theorem piece_quoted {p : List UInt8} (hq : QUOTE ∉ p) (hz : 0 ∉ p)
    (h : Live lx (QUOTE :: (p ++ QUOTE :: s))) (hw : Wrote lx base w) :
    ∃ lx', lx.piece (base.length + w.length) = .ok (.go (base.length + (w ++ p).length) lx') ∧
      Live lx' s ∧ Wrote lx' base (w ++ p) := by
  have hr := h.cons (by decide)
  obtain ⟨lx', hs, hl, hw'⟩ := singleLoop_spec hq hz hr.next ⟨hw.take, Nat.le_succ_of_le hw.le⟩
  refine ⟨lx', ?_, hl, hw'⟩
  rw [Lexer.piece, if_pos hr.cur, Lexer.singleQuote, hs]
  rfl

theorem piece_escaped (h : Live lx (BACKSLASH :: QUOTE :: s)) (hw : Wrote lx base w) :
    ∃ lx', lx.piece (base.length + w.length) =
        .ok (.go (base.length + (w ++ [QUOTE]).length) lx') ∧
      Live lx' s ∧ Wrote lx' base (w ++ [QUOTE]) := by
  have hr := h.cons (by decide)
  have hr' : Live { lx with pos := lx.pos + 1 } (QUOTE :: s) := hr.next
  have hcur : ({ lx with pos := lx.pos + 1 } : Lexer).cur = QUOTE := hr'.cur
  have hback : lx.backslash = (true, { lx with pos := lx.pos + 1 }) := by
    rw [Lexer.backslash, hcur, if_neg (by simp [QUOTE, NEWLINE, RETURN])]
  obtain ⟨hl, hw'⟩ := (hr'.cons (by decide)).addc ⟨hw.take, Nat.le_succ_of_le hw.le⟩
  refine ⟨_, ?_, hl, hw'⟩
  rw [Lexer.piece, hr.cur, if_neg (by decide), if_neg (by decide), if_neg (by decide),
    if_neg (by decide), if_neg (by decide), if_pos rfl, hback, if_pos rfl,
    List.length_append, List.length_singleton, Nat.add_assoc]

theorem piece_plain (hc : plain c = true) (h : Live lx (c :: s)) (hw : Wrote lx base w) :
    ∃ lx', lx.piece (base.length + w.length) = .ok (.go (base.length + (w ++ [c]).length) lx') ∧
      Live lx' s ∧ Wrote lx' base (w ++ [c]) := by
  simp only [plain, Bool.and_eq_true, decide_eq_true_eq, Bool.not_eq_true'] at hc
  obtain ⟨⟨⟨⟨⟨⟨h₁, h₂⟩, h₃⟩, h₄⟩, h₅⟩, h₆⟩, h₇⟩ := hc
  have hnl : c ≠ NEWLINE := by
    intro hnl
    rw [hnl] at h₇
    cases h₇
  have hr := h.cons hnl
  obtain ⟨hl, hw'⟩ := hr.addc hw
  refine ⟨_, ?_, hl, hw'⟩
  rw [Lexer.piece, hr.cur, if_neg h₁, if_neg h₂, if_neg h₃, if_neg h₄, if_neg h₅, if_neg h₆,
    List.length_append, List.length_singleton, Nat.add_assoc]

theorem quoteBody_append (u v : List UInt8) : quoteBody (u ++ v) = quoteBody u ++ quoteBody v :=
  List.flatMap_append

theorem quoteBody_plain {p : List UInt8} (hq : QUOTE ∉ p) : quoteBody p = p := by
  induction p with
  | nil => rfl
  | cons c p ih =>
    rw [List.mem_cons, not_or] at hq
    rw [quoteBody, List.flatMap_cons, if_neg (Ne.symm hq.1)]
    exact congrArg (c :: ·) (ih hq.2)

/-- Up to the first quote of a value. -/
theorem exists_first_quote (v : List UInt8) :
    ∃ p, QUOTE ∉ p ∧ (v = p ∨ ∃ u, v = p ++ QUOTE :: u) := by
  induction v with
  | nil => exact ⟨[], List.not_mem_nil, .inl rfl⟩
  | cons c v ih =>
    by_cases hc : c = QUOTE
    · exact ⟨[], List.not_mem_nil, .inr ⟨v, by rw [hc]; rfl⟩⟩
    · obtain ⟨p, hp, hv⟩ := ih
      refine ⟨c :: p, by simp [hp, Ne.symm hc], ?_⟩
      rcases hv with hv | ⟨u, hv⟩
      · exact .inl (by rw [hv])
      · exact .inr ⟨u, by rw [hv]; rfl⟩

/-- **A quoted value is copied as it is**, from any number of lines, its quotes being put
    together from the pieces around them. -/
theorem strLoop_quoted {d : UInt8} (hd : Delimits d) (n : Nat) :
    ∀ {lx : Lexer} {v w : List UInt8}, v.length ≤ n → 0 ∉ v → Live lx (quote v ++ d :: s) →
      Wrote lx base w →
      ∃ lx', lx.strLoop (base.length + w.length) = .ok (true, base.length + (w ++ v).length, lx') ∧
        Live lx' (d :: s) ∧ Wrote lx' base (w ++ v) := by
  induction n with
  | zero =>
    intro lx v w hn hz h hw
    obtain rfl : v = [] := List.length_eq_zero_iff.mp (Nat.le_zero.mp hn)
    obtain ⟨lx', hp, hl, hw'⟩ := piece_quoted (p := []) (by simp) (by simp) h hw
    exact ⟨lx', strLoop_last hd hp hl, hl, hw'⟩
  | succ n ih =>
    intro lx v w hn hz h hw
    obtain ⟨p, hq, rfl | ⟨u, rfl⟩⟩ := exists_first_quote v
    · have hquote : quote v ++ d :: s = QUOTE :: (v ++ QUOTE :: d :: s) := by
        simp [quote, quoteBody_plain hq]
      rw [hquote] at h
      obtain ⟨lx', hp, hl, hw'⟩ := piece_quoted hq hz h hw
      exact ⟨lx', strLoop_last hd hp hl, hl, hw'⟩
    · -- a quote of the value ends the piece; it is written between two of them
      have hquote : quote (p ++ QUOTE :: u) ++ d :: s =
          QUOTE :: (p ++ QUOTE :: BACKSLASH :: QUOTE :: (quote u ++ d :: s)) := by
        rw [quote, quoteBody_append, quoteBody_plain hq]
        simp [quote, quoteBody]
      rw [List.mem_append, List.mem_cons, not_or, not_or] at hz
      rw [List.length_append, List.length_cons] at hn
      rw [hquote] at h
      obtain ⟨lx₁, hp₁, hl₁, hw₁⟩ := piece_quoted hq hz.1 h hw
      obtain ⟨lx₂, hp₂, hl₂, hw₂⟩ := piece_escaped hl₁ hw₁
      obtain ⟨lx₃, hs, hl₃, hw₃⟩ := ih (by omega) hz.2.2 hl₂ hw₂
      have heq : w ++ p ++ [QUOTE] ++ u = w ++ (p ++ QUOTE :: u) := by simp
      rw [heq] at hs hw₃
      refine ⟨lx₃, ?_, hl₃, hw₃⟩
      rw [strLoop_more hp₁ hl₁ (by decide) (by decide), strLoop_more hp₂ hl₂ (by decide)
        (by decide), hs]

/-- A plain word is copied onto itself. -/
theorem strLoop_plain {d : UInt8} (hd : Delimits d) {v : List UInt8} (hv : v ≠ [])
    (hp : v.all plain = true) (h : Live lx (v ++ d :: s)) (hw : Wrote lx base w) :
    ∃ lx', lx.strLoop (base.length + w.length) = .ok (true, base.length + (w ++ v).length, lx') ∧
      Live lx' (d :: s) ∧ Wrote lx' base (w ++ v) := by
  induction v generalizing lx w with
  | nil => exact absurd rfl hv
  | cons c v ih =>
    rw [List.all_cons, Bool.and_eq_true] at hp
    obtain ⟨lx₁, hgo, hl, hw₁⟩ := piece_plain hp.1 h hw
    cases v with
    | nil => exact ⟨lx₁, strLoop_last hd hgo hl, hl, hw₁⟩
    | cons b v =>
      obtain ⟨lx₂, hs, hl₂, hw₂⟩ := ih (List.cons_ne_nil b v) hp.2 hl hw₁
      have heq : w ++ [c] ++ b :: v = w ++ c :: b :: v := by simp
      rw [heq] at hs hw₂
      refine ⟨lx₂, ?_, hl₂, hw₂⟩
      have hb : plain b = true := (Bool.and_eq_true _ _ ▸ hp.2 : _ ∧ _).1
      simp only [plain, Bool.and_eq_true, decide_eq_true_eq, Bool.not_eq_true'] at hb
      rw [strLoop_more hgo hl hb.1.1.1.2 hb.2, hs]

/-- The argument is cut off with a NUL, and the byte that ended it is skipped. -/
theorem parseStr_spec {d : UInt8} (hd : Delimits d) {v : List UInt8} (hz : 0 ∉ v)
    {lx₁ : Lexer} (hs : lx.strLoop base.length = .ok (true, base.length + v.length, lx₁))
    (hl : Live lx₁ (d :: s)) (hw : Wrote lx₁ base v) :
    ∃ lx', lx.parseStr base.length = .ok lx' ∧ lx'.strAt base.length = v ∧
      (d = SPACE → Live lx' s) ∧ (d = NEWLINE → Dry lx' s) := by
  obtain ⟨hspace, hdz⟩ := hd.spec
  obtain ⟨a, r, hr⟩ := hl.reads
  have hcur := hl.cur
  have hlt := hr.pos_lt
  have hle := hw.le
  let lx₂ : Lexer := { lx₁ with pos := lx₁.pos + 1 }
  have hdest : base.length + v.length < lx₂.pos := Nat.lt_succ_of_le hle
  refine ⟨lx₂.set (base.length + v.length) 0, ?_, ?_, ?_, ?_⟩
  · rw [Lexer.parseStr, hs]
    simp only
    rw [if_pos ⟨by rw [hcur]; exact hdz, trivial⟩]
  · -- what stands behind the beginning of the argument is the argument and the NUL
    have hbuf : lx₁.buf.set (base.length + v.length) 0 =
        base ++ (v ++ 0 :: lx₁.buf.drop (base.length + v.length + 1)) := by
      rw [List.set_eq_take_append_cons_drop, if_pos (by omega), hw.take, List.append_assoc]
    show ((lx₁.buf.set (base.length + v.length) 0).drop base.length).takeWhile _ = v
    rw [hbuf, List.drop_left, List.takeWhile_append_of_pos]
    · simp
    · intro b hb
      exact decide_eq_true fun hb0 => hz (hb0 ▸ hb)
  · intro hsp
    rw [hsp] at hl
    exact (hl.cons (by decide)).next.set hdest 0
  · intro hnl
    rw [hnl] at hl
    exact hl.newline.next.set hdest 0

theorem Reads.skipWhitespace_cons (h : Reads lx (c :: a) r) (hc : isSpace c = false) :
    lx.skipWhitespace = lx := by
  rw [Lexer.skipWhitespace, h.ahead, List.takeWhile_cons, hc]
  rfl

theorem Dry.skipWhitespace (h : Dry lx s) : lx.skipWhitespace = lx := by
  rw [Lexer.skipWhitespace, h.ahead]
  rfl

theorem splitLine_append {u : List UInt8} (hu : NEWLINE ∉ u) (s : List UInt8) :
    splitLine (u ++ s) = (u ++ (splitLine s).1, (splitLine s).2) := by
  induction u with
  | nil => rfl
  | cons c u ih =>
    rw [List.mem_cons, not_or] at hu
    rw [List.cons_append, splitLine, if_neg (Ne.symm hu.1), ih hu.2]
    rfl

/-- Further on in the line. -/
theorem Live.skip {u : List UInt8} (hu : NEWLINE ∉ u) (h : Live lx (u ++ s)) :
    Live { lx with pos := lx.pos + u.length } s := by
  rw [Live, splitLine_append hu] at h
  constructor
  · show lx.buf.drop (lx.pos + u.length) = _
    rw [← List.drop_drop, h.ahead, List.drop_left]
  · exact h.rest
  · have hlen := congrArg List.length h.ahead
    have hpos := h.pos
    rw [List.length_drop, List.length_append] at hlen
    show lx.pos + u.length ≤ lx.buf.length
    omega
  · exact h.filled

theorem newline_not_mem {u : List UInt8} (hu : u.all Lexer.isBlank = true) : NEWLINE ∉ u :=
  fun hmem => absurd (List.all_eq_true.mp hu NEWLINE hmem) (by decide)

/-- The blanks before a command. -/
theorem Live.skipWhitespace {u : List UInt8} (hu : u.all Lexer.isBlank = true)
    (hc : isSpace c = false) (h : Live lx (u ++ c :: s)) : Live lx.skipWhitespace (c :: s) := by
  have hnl : c ≠ NEWLINE := by
    intro hnl
    rw [hnl] at hc
    cases hc
  have hspaces : ∀ b ∈ u, isSpace b = true := by
    intro b hb
    have := List.all_eq_true.mp hu b hb
    simp only [Lexer.isBlank, Bool.or_eq_true, decide_eq_true_eq] at this
    rcases this with rfl | rfl <;> rfl
  have hahead : lx.buf.drop lx.pos = u ++ c :: (splitLine s).1 := by
    have := h.ahead
    rw [splitLine_append (newline_not_mem hu), splitLine, if_neg hnl] at this
    exact this
  have hskip : (lx.buf.drop lx.pos).takeWhile isSpace = u := by
    rw [hahead, List.takeWhile_append_of_pos hspaces, List.takeWhile_cons, hc]
    exact List.append_nil u
  rw [Lexer.skipWhitespace, hskip]
  exact h.skip (newline_not_mem hu)

theorem wrote_nil (h : lx.pos ≤ lx.buf.length) : Wrote lx (lx.buf.take lx.pos) [] := by
  have hlen : (lx.buf.take lx.pos).length = lx.pos := by
    rw [List.length_take, Nat.min_eq_left h]
  constructor
  · rw [List.append_nil, List.length_nil, Nat.add_zero, hlen]
  · rw [List.length_nil, Nat.add_zero, hlen]

/-- What `next_arg` makes of an argument that `parse_str` finds. -/
theorem nextArg_of_strLoop {d : UInt8} (hd : Delimits d) {v : List UInt8} (hz : 0 ∉ v)
    (required name package : Bool) (hr : required = true → v ≠ [])
    (hn : name = true → v ≠ [] → validateStr v name package = true)
    (h : Live lx (c :: a)) (hc : isSpace c = false) (hsemi : c ≠ SEMICOLON)
    (hs : ∀ base, Wrote lx base [] → ∃ lx₁,
      lx.strLoop (base.length + ([] : List UInt8).length) =
          .ok (true, base.length + ([] ++ v).length, lx₁) ∧
        Live lx₁ (d :: s) ∧ Wrote lx₁ base ([] ++ v)) :
    ∃ lx', lx.nextArg required name package = .ok (v, lx') ∧
      (d = SPACE → Live lx' s) ∧ (d = NEWLINE → Dry lx' s) := by
  obtain ⟨a', r, hreads⟩ := h.reads
  have hw := wrote_nil hreads.pos
  have hlen : (lx.buf.take lx.pos).length = lx.pos := by
    rw [List.length_take, Nat.min_eq_left hreads.pos]
  obtain ⟨lx₁, hloop, hl, hw₁⟩ := hs _ hw
  rw [List.length_nil, Nat.add_zero, List.nil_append] at hloop
  obtain ⟨lx', hparse, hstr, hsp, hnl⟩ := parseStr_spec hd hz hloop hl hw₁
  rw [hlen] at hparse hstr
  refine ⟨lx', ?_, hsp, hnl⟩
  rw [Lexer.nextArg, hreads.skipWhitespace_cons hc]
  dsimp only
  rw [if_neg (by rw [h.cur]; exact hsemi), hparse]
  dsimp only
  rw [hstr]
  by_cases hv : v = []
  · have hreq : ¬ required = true := fun hreq => hr hreq hv
    rw [if_pos (by rw [hv]; rfl), if_neg hreq]
  · rw [if_neg (by simpa using hv), if_neg (fun hname => hname.2 (hn hname.1 hv))]

theorem nextArg_quoted {d : UInt8} (hd : Delimits d) {v : List UInt8} (hz : 0 ∉ v)
    (required package : Bool) (hr : required = true → v ≠ [])
    (h : Live lx (quote v ++ d :: s)) :
    ∃ lx', lx.nextArg required false package = .ok (v, lx') ∧
      (d = SPACE → Live lx' s) ∧ (d = NEWLINE → Dry lx' s) := by
  refine nextArg_of_strLoop hd hz required false package hr (fun h => (by cases h)) h (by decide)
    (by decide) fun base hw => ?_
  exact strLoop_quoted hd v.length le_rfl hz h hw

theorem nextArg_plain {d : UInt8} (hd : Delimits d) {v : List UInt8} (hp : v.all plain = true)
    (required package : Bool) (hv : validateStr v true package = true)
    (h : Live lx (v ++ d :: s)) :
    ∃ lx', lx.nextArg required true package = .ok (v, lx') ∧
      (d = SPACE → Live lx' s) ∧ (d = NEWLINE → Dry lx' s) := by
  have hne : v ≠ [] := by
    intro hnil
    rw [hnil] at hv
    cases hv
  have hz : 0 ∉ v := fun hz => absurd (List.all_eq_true.mp hp 0 hz) (by decide)
  obtain ⟨c, u, rfl⟩ := List.exists_cons_of_ne_nil hne
  have hc : plain c = true := List.all_eq_true.mp hp c List.mem_cons_self
  simp only [plain, Bool.and_eq_true, decide_eq_true_eq, Bool.not_eq_true'] at hc
  refine nextArg_of_strLoop hd hz required true package (fun _ => hne) (fun _ _ => hv) h hc.2
    hc.1.1.2 fun base hw => ?_
  exact strLoop_plain hd hne hp h hw

/-- There is no argument left on the line. -/
theorem Dry.nextArg (h : Dry lx s) (name package : Bool) :
    lx.nextArg false name package = .ok ([], lx) := by
  have hcur := h.cur_nil
  have hset : lx.set lx.pos 0 = lx := by
    rw [Lexer.set, List.set_eq_of_length_le h.pos_eq.ge]
  have hpiece : lx.piece lx.pos = .ok (.stop true lx) := by
    rw [Lexer.piece, hcur, if_neg (by decide), if_neg (by decide), if_neg (by decide), if_pos rfl]
  have hloop : lx.strLoop lx.pos = .ok (true, lx.pos, lx) := by
    rw [Lexer.strLoop]
    split
    · rename_i heq
      rw [hpiece] at heq
      cases heq
    · rename_i heq
      rw [hpiece] at heq
      cases heq
      rfl
    · rename_i heq
      rw [hpiece] at heq
      cases heq
  have hparse : lx.parseStr lx.pos = .ok lx := by
    rw [Lexer.parseStr, hloop]
    dsimp only
    rw [if_neg (by rw [hcur]; simp), hset]
  have hstr : lx.strAt lx.pos = [] := by
    rw [Lexer.strAt, h.ahead]
    rfl
  rw [Lexer.nextArg, h.skipWhitespace]
  dsimp only
  rw [if_neg (by rw [hcur]; decide), hparse]
  dsimp only
  rw [hstr]
  rfl

theorem Dry.assertEol (h : Dry lx s) : lx.assertEol = .ok lx := by
  rw [Lexer.assertEol, h.skipWhitespace, h.nextArg]
  rfl

/-! ### Commands -/

theorem plain_spec (hc : plain c = true) : c ≠ 0 ∧ c ≠ NEWLINE ∧ Lexer.isBlank c = false := by
  simp only [plain, Bool.and_eq_true, decide_eq_true_eq, Bool.not_eq_true'] at hc
  refine ⟨hc.1.1.1.2, ?_, ?_⟩
  · intro hnl
    rw [hnl] at hc
    cases hc.2
  · by_contra hb
    simp only [Lexer.isBlank, Bool.not_eq_false, Bool.or_eq_true, decide_eq_true_eq] at hb
    rcases hb with rfl | rfl <;> cases hc.2

/-- A keyword and the blank after it. -/
theorem Live.keyword {u : List UInt8} (hne : u ≠ []) (hu : u.all plain = true)
    (h : Live lx (u ++ SPACE :: s)) (reason : String) :
    lx.strtok.1 = u ∧ ∃ lx', lx.strtok.2.skipKeyword reason = .ok lx' ∧ Live lx' s := by
  have hplain : ∀ b ∈ u, b ≠ 0 ∧ b ≠ NEWLINE ∧ Lexer.isBlank b = false :=
    fun b hb => plain_spec (List.all_eq_true.mp hu b hb)
  have hnl : NEWLINE ∉ u ++ [SPACE] := by
    rw [List.mem_append, not_or]
    exact ⟨fun hb => (hplain NEWLINE hb).2.1 rfl, by decide⟩
  rw [← List.singleton_append, ← List.append_assoc] at h
  have hskip := h.skip hnl
  have hahead : lx.buf.drop lx.pos = u ++ SPACE :: (splitLine s).1 := by
    have := h.ahead
    rw [splitLine_append hnl] at this
    simpa using this
  -- the keyword begins where the lexer stands, and ends with the blank
  have hblank : ((lx.buf.drop lx.pos).takeWhile Lexer.isBlank).length = 0 := by
    obtain ⟨b, t, rfl⟩ := List.exists_cons_of_ne_nil hne
    rw [hahead, List.cons_append, List.takeWhile_cons, (hplain b List.mem_cons_self).2.2]
    rfl
  have hword : (lx.buf.drop lx.pos).takeWhile (fun c => c ≠ 0 && !Lexer.isBlank c) = u := by
    rw [hahead, List.takeWhile_append_of_pos]
    · rw [List.takeWhile_cons]
      exact List.append_nil u
    · intro b hb
      simp [(hplain b hb).1, (hplain b hb).2.2]
  have hstrtok : lx.strtok = (u, lx.set (lx.pos + u.length) 0) := by
    rw [Lexer.strtok]
    simp only [hblank, Nat.add_zero, hword]
    rw [if_neg (by simpa using hne)]
  rw [hstrtok]
  refine ⟨rfl, { lx.set (lx.pos + u.length) 0 with pos := lx.pos + u.length + 1 }, ?_, ?_⟩
  · have hstr : (lx.set (lx.pos + u.length) 0).strAt lx.pos = u := by
      show ((lx.buf.set (lx.pos + u.length) 0).drop lx.pos).takeWhile _ = u
      rw [List.drop_set, if_neg (by omega), hahead, Nat.add_sub_cancel_left,
        List.set_append_right _ _ le_rfl, Nat.sub_self, List.takeWhile_append_of_pos]
      · simp
      · exact fun b hb => decide_eq_true (hplain b hb).1
    have hle : lx.pos + u.length + 1 ≤ lx.filled := by
      have := hskip.pos
      rw [h.filled]
      simpa [Nat.add_assoc] using this
    show Lexer.skipKeyword _ _ = _
    rw [Lexer.skipKeyword]
    show (if lx.pos + ((lx.set (lx.pos + u.length) 0).strAt lx.pos).length + 1 > lx.filled then _
      else _) = _
    rw [hstr, if_neg (by omega)]
    simp only [Lexer.set] at hstr ⊢
    rw [hstr]
  · have hset := hskip.set (i := lx.pos + u.length) (by simp) 0
    have hpos : lx.pos + (u ++ [SPACE]).length = lx.pos + u.length + 1 := by simp [Nat.add_assoc]
    rw [hpos] at hset
    exact hset

theorem Dry.strtok (h : Dry lx s) : lx.strtok = ([], lx) := by
  rw [Lexer.strtok, h.ahead]
  simp [List.drop_eq_nil_of_le h.pos_eq.ge]

end Standing

theorem Lexer.getln_pos (lx : Lexer) (i : Nat) : (lx.getln i).pos = lx.pos := by
  rw [getln]
  dsimp only
  split <;> rfl

section Commands

variable {p p' : Parser} {lx lx' : Lexer} {s : List UInt8}

theorem commands_dry (h : Dry lx s) (p : Parser) : p.commands lx = .ok (p, lx) := by
  have htok := h.strtok
  rw [Parser.commands]
  split
  · rw [htok]
  · rename_i heq
    rw [htok] at heq
    cases heq

/-- A line with one command. -/
theorem commands_single {first : UInt8} {rest : List UInt8} (hword : lx.strtok.1 = first :: rest)
    (hfirst : first ≠ HASH) (hc : p.command first rest lx.strtok.2 = .ok (p', lx'))
    (h : Dry lx' s) : p.commands lx = .ok (p', lx') := by
  rw [Parser.commands]
  split
  · rename_i heq
    rw [hword] at heq
    cases heq
  · rename_i heq
    rw [hword] at heq
    cases heq
    rw [if_neg hfirst]
    split
    · rename_i herr
      rw [hc] at herr
      cases herr
    · rename_i hok
      rw [hc] at hok
      cases hok
      exact commands_dry h p'

/-- The commands of a line in the file, and the lines after it. -/
theorem lines_line {c : UInt8} {t : List UInt8} (hrest : lx.rest = c :: t) (hc : c ≠ 0)
    (hline : ∀ lx₀, Live lx₀ (c :: t) → ∃ lx₁, p.line lx₀ = .ok (p', lx₁) ∧ Dry lx₁ s) :
    ∃ lx₁, p.lines lx = p'.lines lx₁ ∧ lx₁.rest = s := by
  have hempty : Dry { lx with buf := [], pos := 0, filled := 0 } (c :: t) :=
    ⟨rfl, hrest, le_rfl, rfl⟩
  have hget : { lx with pos := 0 }.getln 0 =
      ({ lx with buf := [], pos := 0, filled := 0 } : Lexer).getln 0 := by
    rw [Lexer.getln, Lexer.getln]
    simp [hrest]
  obtain ⟨hlive, -⟩ := hempty.getln (List.cons_ne_nil c t) (wrote_nil le_rfl)
  have hlive : Live ({ lx with pos := 0 }.getln 0) (c :: t) := hget ▸ hlive
  have hpos : ({ lx with pos := 0 }.getln 0).pos = 0 := Lexer.getln_pos ..
  have hcur : ({ lx with pos := 0 }.getln 0).ch 0 = c := by
    rw [← hlive.cur, Lexer.cur, hpos]
  obtain ⟨lx₁, hl, hdry⟩ := hline _ hlive
  refine ⟨lx₁, ?_, hdry.rest⟩
  rw [Parser.lines]
  rw [dif_neg (by rw [hrest]; simp)]
  dsimp only
  rw [if_pos (by rw [hcur]; exact hc)]
  split
  · rename_i herr
    rw [hl] at herr
    cases herr
  · rename_i hok
    rw [hl] at hok
    cases hok
    rfl

theorem plain_of_name {v : List UInt8} (h : validateStr v true false = true) :
    v.all plain = true := by
  have hbyte : ∀ n : Fin 256, (isAlphanumeric (UInt8.ofNat n) || UInt8.ofNat n = 95) = true →
      plain (UInt8.ofNat n) = true := by decide +kernel
  rw [validateStr, Bool.and_eq_true] at h
  refine List.all_eq_true.mpr fun c hc => ?_
  have hv := List.all_eq_true.mp h.2 c hc
  simp only [Bool.and_false, Bool.or_false, Bool.not_true, Bool.false_and] at hv
  have := hbyte ⟨c.toNat, c.toNat_lt⟩
  simp only [UInt8.ofNat_toNat] at this
  exact this hv

theorem validateStr_spec {v : List UInt8} {name package : Bool}
    (h : validateStr v name package = true) : v ≠ [] ∧ 0 ∉ v := by
  rw [validateStr, Bool.and_eq_true] at h
  refine ⟨fun hnil => (by rw [hnil] at h; cases h.1), fun hz => ?_⟩
  have := List.all_eq_true.mp h.2 0 hz
  simp [isAlphanumeric] at this

/-- The words that begin the lines. -/
theorem keyword_config : utf8 "config" = 99 :: [111, 110, 102, 105, 103] := by decide +kernel

theorem keyword_option : utf8 "option" = 111 :: [112, 116, 105, 111, 110] := by decide +kernel

theorem keyword_list : utf8 "list" = 108 :: [105, 115, 116] := by decide +kernel

theorem enter_new {n stype : List UInt8} (hne : n ≠ [])
    (hnew : ∀ t ∈ p.pkg.sections, t.name ≠ some n) :
    p.enter n stype lx = .ok (p.push { name := some n, stype }) := by
  have hfind : p.pkg.sections.findIdx? (fun t => decide (t.name = some n)) = none := by
    rw [List.findIdx?_eq_none_iff]
    exact fun t ht => decide_eq_false (hnew t ht)
  rw [Parser.enter, if_neg (by simpa using hne), hfind]

/-- A `config` line begins a section. -/
theorem line_config {sec : Section} (hv : sec.Valid)
    (hnew : ∀ n, sec.name = some n → ∀ t ∈ p.pkg.sections, t.name ≠ some n)
    (h : Live lx (configText sec ++ s)) :
    ∃ lx', p.line lx = .ok (p.push { sec with options := [] }, lx') ∧ Dry lx' s := by
  obtain ⟨hne, hz⟩ := validateStr_spec hv.stype
  rw [configText, keyword_config] at h
  have hskip := h.skipWhitespace (u := []) (by rfl) (by decide)
  have hkey : Live lx.skipWhitespace (utf8 "config" ++ SPACE :: (quote sec.stype ++
      (nameText sec.name ++ NEWLINE :: s))) := by
    rw [keyword_config]
    simpa using hskip
  obtain ⟨hword, lx₁, hlx₁, hl₁⟩ := hkey.keyword (by decide +kernel) (by decide +kernel)
    "config without name"
  rw [keyword_config] at hword
  suffices hcfg : ∃ lx', p.config lx.skipWhitespace.strtok.2 =
      .ok (p.push { sec with options := [] }, lx') ∧ Dry lx' s by
    obtain ⟨lx', hc, hdry⟩ := hcfg
    refine ⟨lx', commands_single hword (by decide) ?_ hdry, hdry⟩
    rw [Parser.command, if_neg (by decide +kernel), if_pos (by decide +kernel)]
    exact hc
  rw [Parser.config, hlx₁]
  rcases hname : sec.name with _ | n
  · rw [hname, nameText, List.nil_append] at hl₁
    obtain ⟨lx₂, htype, -, hdry⟩ := nextArg_quoted (.inr rfl) hz true false (fun _ => hne) hl₁
    have hdry := hdry rfl
    refine ⟨lx₂, ?_, hdry⟩
    simp only [bind, Except.bind, htype, if_pos hv.stype, hdry.nextArg, hdry.assertEol]
    rfl
  · rw [hname, nameText, List.cons_append] at hl₁
    obtain ⟨lx₂, htype, hl₂, -⟩ := nextArg_quoted (.inl rfl) hz true false (fun _ => hne) hl₁
    obtain ⟨lx₃, hn, -, hdry⟩ := nextArg_plain (.inr rfl) (plain_of_name (hv.name n hname)) false
      false (hv.name n hname) (hl₂ rfl)
    have hdry := hdry rfl
    refine ⟨lx₃, ?_, hdry⟩
    simp only [bind, Except.bind, htype, if_pos hv.stype, hn, hdry.assertEol]
    rw [enter_new (validateStr_spec (hv.name n hname)).1 (hnew n hname)]

/-- The parser in the middle of a section. -/
def building (pre : List Section) (sec : Section) (options : List (List UInt8 × Value)) : Parser :=
  { pkg := ⟨pre ++ [{ sec with options }]⟩, current := some pre.length }

theorem modify_last {α : Type} (pre : List α) (a : α) (f : α → α) :
    (pre ++ [a]).modify pre.length f = pre ++ [f a] := by
  induction pre with
  | nil => rfl
  | cons b pre ih => simp [ih]

/-- The two words for a line that sets an option. -/
structure Sets (keyword : String) (list : Bool) (first : UInt8) (rest : List UInt8) : Prop where
  utf8 : utf8 keyword = first :: rest
  plain : (first :: rest).all plain = true
  space : isSpace first = false
  hash : first ≠ HASH
  command : ∀ (p : Parser) (lx : Lexer), p.command first rest lx = p.option lx list

theorem sets_option : Sets "option" false 111 [112, 116, 105, 111, 110] where
  utf8 := keyword_option
  plain := by decide
  space := by decide
  hash := by decide
  command p lx := by
    rw [Parser.command, if_neg (by decide +kernel), if_neg (by decide +kernel),
      if_pos (by decide +kernel)]

theorem sets_list : Sets "list" true 108 [105, 115, 116] where
  utf8 := keyword_list
  plain := by decide
  space := by decide
  hash := by decide
  command p lx := by
    rw [Parser.command, if_neg (by decide +kernel), if_neg (by decide +kernel),
      if_neg (by decide +kernel), if_pos (by decide +kernel)]

/-- A line that sets an option, or adds to a list. -/
theorem line_option {indent name v : List UInt8} {keyword : String} {list : Bool} {first : UInt8}
    {rest : List UInt8} (hk : Sets keyword list first rest) (pre : List Section) (sec : Section)
    (options : List (List UInt8 × Value)) (hindent : indent.all Lexer.isBlank = true)
    (hname : validateStr name true false = true) (hz : 0 ∉ v)
    (h : Live lx (lineText indent keyword name v ++ s)) :
    ∃ lx', (building pre sec options).line lx =
        .ok (building pre sec (putOption options name v list), lx') ∧ Dry lx' s := by
  have htext : lineText indent keyword name v ++ s =
      indent ++ first :: (rest ++ SPACE :: (name ++ SPACE :: (quote v ++ NEWLINE :: s))) := by
    simp [lineText, hk.utf8]
  rw [htext] at h
  have hskip := h.skipWhitespace hindent hk.space
  rw [← List.cons_append] at hskip
  obtain ⟨hword, lx₁, hlx₁, hl₁⟩ := hskip.keyword (List.cons_ne_nil _ _) hk.plain
    "option without name"
  obtain ⟨lx₂, hn, hl₂, -⟩ := nextArg_plain (.inl rfl) (plain_of_name hname) true false hname hl₁
  obtain ⟨lx₃, hval, -, hdry⟩ := nextArg_quoted (.inr rfl) hz false false
    (fun h => (by cases h)) (hl₂ rfl)
  have hdry := hdry rfl
  refine ⟨lx₃, commands_single hword hk.hash ?_ hdry, hdry⟩
  rw [hk.command, Parser.option, building]
  simp only [hlx₁, bind, Except.bind, hn, hval, hdry.assertEol, modify_last, building]

/-! ### Sections and files -/

section Options

variable {options : List (List UInt8 × Value)} {name v : List UInt8}

theorem findIdx?_new (hnew : ∀ o ∈ options, o.1 ≠ name) :
    options.findIdx? (fun o => decide (o.1 = name)) = none := by
  rw [List.findIdx?_eq_none_iff]
  exact fun o ho => decide_eq_false (hnew o ho)

theorem putOption_str (hnew : ∀ o ∈ options, o.1 ≠ name) (hv : v ≠ []) :
    putOption options name v false = options ++ [(name, .str v)] := by
  unfold putOption
  rw [findIdx?_new hnew]
  simp [hv]

theorem putOption_first (hnew : ∀ o ∈ options, o.1 ≠ name) :
    putOption options name v true = options ++ [(name, .list [v])] := by
  unfold putOption
  rw [findIdx?_new hnew]

theorem putOption_item {items : List (List UInt8)} (hnew : ∀ o ∈ options, o.1 ≠ name) :
    putOption (options ++ [(name, .list items)]) name v true =
      options ++ [(name, .list (items ++ [v]))] := by
  have hfind : (options ++ [(name, Value.list items)]).findIdx?
      (fun o => decide (o.1 = name)) = some options.length := by
    rw [List.findIdx?_append, findIdx?_new hnew]
    simp [List.findIdx?_cons]
  unfold putOption
  rw [hfind]
  exact modify_last ..

end Options

section Lines

variable {indent name : List UInt8} (pre : List Section) (sec : Section)
  (options : List (List UInt8 × Value))

/-- One line of the file that sets an option. -/
theorem lines_lineText {keyword : String} {list : Bool} {first : UInt8} {rest v : List UInt8}
    (hk : Sets keyword list first rest) (hindent : indent.all Lexer.isBlank = true)
    (hname : validateStr name true false = true) (hz : 0 ∉ v)
    (hrest : lx.rest = lineText indent keyword name v ++ s) :
    ∃ lx₁, (building pre sec options).lines lx =
        (building pre sec (putOption options name v list)).lines lx₁ ∧ lx₁.rest = s := by
  obtain ⟨c, t, htext, hc⟩ : ∃ c t, lineText indent keyword name v ++ s = c :: t ∧ c ≠ 0 := by
    rw [lineText, hk.utf8]
    cases indent with
    | nil =>
      have := List.all_eq_true.mp hk.plain first List.mem_cons_self
      exact ⟨first, _, rfl, (plain_spec this).1⟩
    | cons b u =>
      refine ⟨b, _, rfl, fun hb => ?_⟩
      have := List.all_eq_true.mp hindent b List.mem_cons_self
      rw [hb] at this
      cases this
  rw [htext] at hrest
  refine lines_line hrest hc fun lx₀ hlive => ?_
  rw [← htext] at hlive
  exact line_option hk pre sec options hindent hname hz hlive

theorem lines_items (hindent : indent.all Lexer.isBlank = true)
    (hname : validateStr name true false = true) (hnew : ∀ o ∈ options, o.1 ≠ name)
    (items : List (List UInt8)) : ∀ (done : List (List UInt8)) {lx : Lexer},
      (∀ v ∈ items, 0 ∉ v) →
      lx.rest = items.flatMap (lineText indent "list" name) ++ s →
      ∃ lx₁, (building pre sec (options ++ [(name, .list done)])).lines lx =
          (building pre sec (options ++ [(name, .list (done ++ items))])).lines lx₁ ∧
        lx₁.rest = s := by
  induction items with
  | nil =>
    intro done lx _ hrest
    exact ⟨lx, by rw [List.append_nil], hrest⟩
  | cons v items ih =>
    intro done lx hz hrest
    rw [List.flatMap_cons, List.append_assoc] at hrest
    obtain ⟨lx₁, hl₁, hrest₁⟩ := lines_lineText pre sec (options ++ [(name, .list done)])
      sets_list hindent hname (hz v List.mem_cons_self) hrest
    obtain ⟨lx₂, hl₂, hrest₂⟩ := ih (done ++ [v])
      (fun u hu => hz u (List.mem_cons_of_mem _ hu)) hrest₁
    refine ⟨lx₂, ?_, hrest₂⟩
    rw [hl₁, putOption_item hnew, hl₂, List.append_assoc]
    rfl

/-- The lines of an option add it to the section. -/
theorem lines_optionText {value : Value} (hindent : indent.all Lexer.isBlank = true)
    (hname : validateStr name true false = true) (hv : value.valid = true)
    (hnew : ∀ o ∈ options, o.1 ≠ name) (hrest : lx.rest = optionText indent name value ++ s) :
    ∃ lx₁, (building pre sec options).lines lx =
        (building pre sec (options ++ [(name, value)])).lines lx₁ ∧ lx₁.rest = s := by
  cases value with
  | str v =>
    simp only [Value.valid, Bool.and_eq_true, Bool.not_eq_true', List.isEmpty_eq_false_iff] at hv
    have hz : 0 ∉ v := by simpa using hv.2
    obtain ⟨lx₁, hl₁, hrest₁⟩ := lines_lineText pre sec options sets_option hindent hname hz
      hrest
    exact ⟨lx₁, by rw [hl₁, putOption_str hnew hv.1], hrest₁⟩
  | list items =>
    simp only [Value.valid, Bool.and_eq_true, Bool.not_eq_true', List.isEmpty_eq_false_iff] at hv
    have hz : ∀ v ∈ items, 0 ∉ v := by
      intro v hmem
      have := List.all_eq_true.mp hv.2 v hmem
      simpa using this
    obtain ⟨v, items, rfl⟩ := List.exists_cons_of_ne_nil hv.1
    rw [optionText, List.flatMap_cons, List.append_assoc] at hrest
    obtain ⟨lx₁, hl₁, hrest₁⟩ := lines_lineText pre sec options sets_list hindent hname
      (hz v List.mem_cons_self) hrest
    obtain ⟨lx₂, hl₂, hrest₂⟩ := lines_items pre sec options hindent hname hnew items [v]
      (fun u hu => hz u (List.mem_cons_of_mem _ hu)) hrest₁
    refine ⟨lx₂, ?_, hrest₂⟩
    rw [hl₁, putOption_first hnew, hl₂]
    rfl

/-- All the options of a section. -/
theorem lines_options (hindent : indent.all Lexer.isBlank = true)
    (os : List (List UInt8 × Value)) : ∀ (done : List (List UInt8 × Value)) {lx : Lexer},
      (∀ o ∈ os, validateStr o.1 true false = true) → (∀ o ∈ os, o.2.valid = true) →
      ((done ++ os).map (·.1)).Nodup →
      lx.rest = os.flatMap (fun o => optionText indent o.1 o.2) ++ s →
      ∃ lx₁, (building pre sec done).lines lx = (building pre sec (done ++ os)).lines lx₁ ∧
        lx₁.rest = s := by
  induction os with
  | nil =>
    intro done lx _ _ _ hrest
    exact ⟨lx, by rw [List.append_nil], hrest⟩
  | cons o os ih =>
    intro done lx hnames hvalues hnodup hrest
    have hnew : ∀ o' ∈ done, o'.1 ≠ o.1 := by
      intro o' ho' heq
      rw [List.map_append, List.map_cons, List.nodup_append] at hnodup
      exact hnodup.2.2 o'.1 (List.mem_map_of_mem ho') o.1 List.mem_cons_self heq
    rw [List.flatMap_cons, List.append_assoc] at hrest
    obtain ⟨lx₁, hl₁, hrest₁⟩ := lines_optionText pre sec done hindent
      (hnames o List.mem_cons_self) (hvalues o List.mem_cons_self) hnew hrest
    have hcons : done ++ o :: os = done ++ [o] ++ os := by simp
    rw [hcons] at hnodup ⊢
    obtain ⟨lx₂, hl₂, hrest₂⟩ :=
      ih (done ++ [o]) (fun o' ho' => hnames o' (List.mem_cons_of_mem _ ho'))
      (fun o' ho' => hvalues o' (List.mem_cons_of_mem _ ho')) hnodup hrest₁
    exact ⟨lx₂, hl₁.trans hl₂, hrest₂⟩

end Lines

/-- All the sections of a file, after those in `pre`. -/
theorem lines_sections {indent : List UInt8} (hindent : indent.all Lexer.isBlank = true)
    (secs : List Section) : ∀ {pre : List Section} {p : Parser} {lx : Lexer},
      p.pkg.sections = pre → (∀ sec ∈ secs, sec.Valid) →
      ((pre ++ secs).filterMap (·.name)).Nodup → lx.rest = fileText indent ⟨secs⟩ →
      p.lines lx = .ok ⟨pre ++ secs⟩ := by
  induction secs with
  | nil =>
    intro pre p lx hp _ _ hrest
    rw [Parser.lines, dif_pos (by rw [hrest]; rfl), List.append_nil, ← hp]
  | cons sec secs ih =>
    intro pre p lx hp hvalid hnodup hrest
    have hv := hvalid sec List.mem_cons_self
    have hnew : ∀ n, sec.name = some n → ∀ t ∈ p.pkg.sections, t.name ≠ some n := by
      intro n hn t ht heq
      rw [hp] at ht
      rw [List.filterMap_append, List.filterMap_cons, hn, List.nodup_append] at hnodup
      exact hnodup.2.2 n (List.mem_filterMap.mpr ⟨t, ht, heq⟩) n List.mem_cons_self rfl
    have hrest : lx.rest = configText sec ++ (sec.options.flatMap
        (fun o => optionText indent o.1 o.2) ++ fileText indent ⟨secs⟩) := by
      rw [hrest, fileText, fileText, List.flatMap_cons, List.append_assoc]
    obtain ⟨c, t, htext, hc⟩ : ∃ c t, configText sec ++ (sec.options.flatMap
        (fun o => optionText indent o.1 o.2) ++ fileText indent ⟨secs⟩) = c :: t ∧ c ≠ 0 := by
      rw [configText, keyword_config]
      exact ⟨99, _, rfl, by decide⟩
    rw [htext] at hrest
    obtain ⟨lx₁, hl₁, hrest₁⟩ := lines_line hrest hc fun lx₀ hlive => by
      rw [← htext] at hlive
      exact line_config hv hnew hlive
    have hpush : p.push { sec with options := [] } = building pre sec [] := by
      rw [Parser.push, building, hp]
    rw [hpush] at hl₁
    obtain ⟨lx₂, hl₂, hrest₂⟩ := lines_options pre sec hindent sec.options [] hv.optionNames
      hv.values hv.unique hrest₁
    have hcons : pre ++ sec :: secs = pre ++ [sec] ++ secs := by simp
    rw [hl₁, hl₂, hcons]
    refine ih rfl (fun t ht => hvalid t (List.mem_cons_of_mem _ ht)) ?_ hrest₂
    rw [← hcons]
    exact hnodup

end Commands

/-! ### The round trip -/

theorem quote_nul {v : List UInt8} (hz : 0 ∉ v) : 0 ∉ quote v := by
  have hbody : 0 ∉ quoteBody v := by
    intro hmem
    obtain ⟨c, hc, hmem⟩ := List.mem_flatMap.mp hmem
    split at hmem
    · exact absurd hmem (by decide)
    · rw [List.mem_singleton] at hmem
      exact hz (hmem ▸ hc)
  rw [quote, List.cons_append, List.mem_cons, List.mem_append, not_or, not_or]
  exact ⟨by decide, hbody, by decide⟩

theorem lineText_nul {indent name v : List UInt8} {keyword : String} (hk : 0 ∉ utf8 keyword)
    (hindent : indent.all Lexer.isBlank = true) (hname : 0 ∉ name) (hz : 0 ∉ v) :
    0 ∉ lineText indent keyword name v := by
  have hblank : 0 ∉ indent := fun hmem =>
    absurd (List.all_eq_true.mp hindent 0 hmem) (by decide)
  have hquote := quote_nul hz
  simp only [lineText, List.mem_append, List.mem_cons, not_or]
  exact ⟨hblank, hk, by decide, hname, by decide, hquote, by decide, List.not_mem_nil⟩

theorem optionText_nul {indent name : List UInt8} {value : Value}
    (hindent : indent.all Lexer.isBlank = true) (hname : 0 ∉ name) (hv : value.valid = true) :
    0 ∉ optionText indent name value := by
  cases value with
  | str v =>
    simp only [Value.valid, Bool.and_eq_true, Bool.not_eq_true'] at hv
    exact lineText_nul (by decide +kernel) hindent hname (by simpa using hv.2)
  | list items =>
    simp only [Value.valid, Bool.and_eq_true] at hv
    intro hmem
    obtain ⟨v, hv', hmem⟩ := List.mem_flatMap.mp hmem
    have hz := List.all_eq_true.mp hv.2 v hv'
    exact lineText_nul (by decide +kernel) hindent hname (by simpa using hz) hmem

theorem configText_nul {sec : Section} (hv : sec.Valid) : 0 ∉ configText sec := by
  have hquote := quote_nul (validateStr_spec hv.stype).2
  have hname : 0 ∉ nameText sec.name := by
    rcases hn : sec.name with _ | n
    · exact List.not_mem_nil
    · rw [nameText, List.mem_cons, not_or]
      exact ⟨by decide, (validateStr_spec (hv.name n hn)).2⟩
  rw [configText, keyword_config]
  simp only [List.mem_append, List.mem_cons, not_or]
  exact ⟨by decide, by decide, hquote, hname, by decide, List.not_mem_nil⟩

theorem fileText_nul {indent : List UInt8} {pkg : Package}
    (hindent : indent.all Lexer.isBlank = true) (hv : pkg.Valid) : 0 ∉ fileText indent pkg := by
  intro hmem
  obtain ⟨sec, hsec, hmem⟩ := List.mem_flatMap.mp hmem
  have hvs := hv.sections sec hsec
  rcases List.mem_append.mp hmem with hmem | hmem
  · exact configText_nul hvs hmem
  · obtain ⟨o, ho, hmem⟩ := List.mem_flatMap.mp hmem
    exact optionText_nul hindent (validateStr_spec (hvs.optionNames o ho)).2 (hvs.values o ho) hmem

/-- **uci text round trip.**  A package that is written to a file, the types and values in
    quotes, is parsed back. -/
theorem parse_fileText (indent : List UInt8) (hindent : indent.all Lexer.isBlank = true)
    (pkg : Package) (hv : pkg.Valid) : parse (fileText indent pkg) = .ok pkg := by
  rw [parse, if_neg (by simpa using fileText_nul hindent hv)]
  exact lines_sections hindent pkg.sections rfl hv.sections hv.unique rfl

/-- A network name on two lines, with quotes and a hash sign. -/
def twoLines : Package :=
  ⟨[{ name := none, stype := utf8 "wifi's"
      options := [(utf8 "ssid", .str (utf8 "it's # one;\n\"two\" \\")),
        (utf8 "maclist", .list [utf8 "a b", []])] },
    { name := some (utf8 "main"), stype := utf8 "wifi-iface" }]⟩

theorem parse_fileText_twoLines : parse (fileText [TAB] twoLines) = .ok twoLines := by
  refine parse_fileText [TAB] (by decide) twoLines ⟨?_, by decide +kernel⟩
  intro sec hsec
  simp only [twoLines, List.mem_cons, List.not_mem_nil, or_false] at hsec
  rcases hsec with rfl | rfl
  · exact ⟨by decide +kernel, fun n hn => (by cases hn), by decide +kernel, by decide +kernel,
      by decide +kernel⟩
  · exact ⟨by decide +kernel, fun n hn => (by cases hn; decide +kernel), by decide +kernel,
      by decide +kernel, by decide +kernel⟩

end Uci

end Datad
