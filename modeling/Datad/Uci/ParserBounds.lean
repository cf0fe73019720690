/-
  Datad/Uci/ParserBounds.lean
  ===========================
  **`uci::parse` ends on every input, and is never stopped.**

  A command begins with a keyword that is behind the position, so the position moves; the
  section that options are put into is one of the package's.  The commands of a line are
  a loop of their own inside the loop over the lines.
-/
import Datad.Uci.LexerBounds

namespace Datad

namespace Uci

open Checked

/-! ### Commands -/

open Reader

theorem index_findIdx? {α : Type} {p : α → Bool} {xs : List α} {i : Nat}
    (h : xs.findIdx? p = some i) : ∃ x, xs[i]? = some x := by
  have hlt := (List.findIdx?_eq_some_iff_getElem.1 h).1
  exact ⟨_, List.getElem?_eq_getElem hlt⟩

theorem modify_eq_set {α : Type} {xs : List α} {i : Nat} {x : α} (h : xs[i]? = some x)
    (f : α → α) : xs.modify i f = xs.set i (f x) := by
  rw [List.modify_eq_set_getElem?, h]
  rfl

theorem putOption_spec (options : List (List UInt8 × Value)) (name value : List UInt8)
    (list : Bool) :
    putOptionChecked options name value list = pure (putOption options name value list) := by
  unfold putOptionChecked putOption
  cases hf : options.findIdx? (fun o => o.1 = name) with
  | none =>
    cases list with
    | true => rfl
    | false =>
      dsimp only
      split <;> rfl
  | some i =>
    obtain ⟨o, ho⟩ := index_findIdx? hf
    cases list with
    | true =>
      dsimp only
      rw [index_eq ho, pure_bind, modify_eq_set ho]
      cases o.2 with
      | str old => rfl
      | list items => rfl
    | false =>
      dsimp only
      split
      · rfl
      · rw [index_eq ho, pure_bind, modify_eq_set ho]

namespace Parser

/-- The current section is there. -/
def InRange (p : Parser) : Prop := ∀ i, p.current = some i → i < p.pkg.sections.length

/-- The same parser, with its current section in range, and the reader after it follows. -/
def SameParser (r₀ : Reader) (x : Parser × Reader) (y : Parser × Lexer) : Prop :=
  x.1 = y.1 ∧ x.1.InRange ∧ Follows r₀ x.2 y.2

variable {p : Parser} {r₀ r : Reader}

theorem push_inRange (p : Parser) (s : Section) : (p.push s).InRange := by
  intro i hi
  cases hi
  rw [push, List.length_append]
  exact Nat.lt_succ_self _

theorem enter_meets (p : Parser) (name stype : List UInt8) (r : Reader) :
    Meets (fun q q' => q = q' ∧ q.InRange) (p.enterChecked name stype r)
      (p.enter name stype r.lexer) := by
  rw [enterChecked, enter]
  refine .ite (fun _ => .pure ⟨rfl, push_inRange p _⟩) fun _ => ?_
  cases hf : p.pkg.sections.findIdx? (fun s => s.name = some name) with
  | none => exact .pure ⟨rfl, push_inRange p _⟩
  | some i =>
    obtain ⟨s, hs⟩ := index_findIdx? hf
    dsimp only
    rw [index_eq hs, pure_bind, hs]
    by_cases htype : s.stype ≠ stype
    · rw [if_pos htype, if_pos (by simpa using htype)]
      exact .throw _
    · rw [if_neg htype, if_neg (by simpa using htype)]
      refine .pure ⟨rfl, ?_⟩
      intro j hj
      cases hj
      exact (List.getElem?_eq_some_iff.1 hs).1

section Commands

variable {turns : Nat}

/-- From a keyword on, and as long as the command lasts. -/
def Within (turns : Nat) (r₀ r : Reader) : Prop :=
  Follows r₀ r r.lexer ∧ r₀.pos < r.pos ∧ r.lexer.work < turns

theorem skipKeyword_within {α β : Type} {R : α → β → Prop} {f : Reader → Reading α}
    {g : Lexer → Except ParseError β} (hr : r.Inv) (hlt : r.pos < r.buf.length)
    (hw : r.lexer.work < turns) (reason : String)
    (h : ∀ r', Within turns r r' → Meets R (f r') (g r'.lexer)) :
    Meets R (r.skipKeyword reason >>= f) (r.lexer.skipKeyword reason >>= g) := by
  refine (skipKeyword_meets hr hlt reason).bind ?_
  rintro r' _ hx ⟨hf, hpos⟩
  have hlexer := hf.lexer
  subst hlexer
  exact h r' ⟨hf, hpos, (Lexer.skipKeyword_work hlt hx).trans hw⟩

theorem nextArg_within {α β : Type} {R : α → β → Prop} {f : List UInt8 × Reader → Reading α}
    {g : List UInt8 × Lexer → Except ParseError β} (hr : Within turns r₀ r)
    (required name package : Bool)
    (h : ∀ s r', Within turns r₀ r' → Meets R (f (s, r')) (g (s, r'.lexer))) :
    Meets R (r.nextArg turns required name package >>= f)
      (r.lexer.nextArg required name package >>= g) := by
  refine (nextArg_meets hr.1.inv hr.2.2 required name package).bind ?_
  rintro ⟨s, r'⟩ ⟨_, _⟩ hx ⟨rfl, hf⟩
  have hlexer := hf.lexer
  dsimp only at hlexer
  subst hlexer
  have hwork := lt_of_le_of_lt (Lexer.nextArg_work hx) hr.2.2
  exact h s r' ⟨hf.trans ⟨hr.1.pos, hr.1.ipos⟩, lt_of_lt_of_le hr.2.1 hf.pos, hwork⟩

theorem assertEol_within {α β : Type} {R : α → β → Prop} {f : Reader → Reading α}
    {g : Lexer → Except ParseError β} (hr : Within turns r₀ r)
    (h : ∀ r', Within turns r₀ r' → Meets R (f r') (g r'.lexer)) :
    Meets R (r.assertEol turns >>= f) (r.lexer.assertEol >>= g) := by
  refine (assertEol_meets hr.1.inv hr.2.2).bind ?_
  rintro r' _ hx hf
  have hlexer := hf.lexer
  subst hlexer
  have hwork := lt_of_le_of_lt (Lexer.assertEol_work hx) hr.2.2
  exact h r' ⟨hf.trans ⟨hr.1.pos, hr.1.ipos⟩, lt_of_lt_of_le hr.2.1 hf.pos, hwork⟩

/-- A command moves the position. -/
def SameCommand (r₀ : Reader) (x : Parser × Reader) (y : Parser × Lexer) : Prop :=
  SameParser r₀ x y ∧ r₀.pos < x.2.pos

theorem config_meets (hr : r.Inv) (hlt : r.pos < r.buf.length) (hw : r.lexer.work < turns)
    (p : Parser) :
    Meets (SameCommand r) (p.configChecked turns r) (p.config r.lexer) := by
  rw [configChecked, config]
  refine skipKeyword_within hr hlt hw _ fun r₁ h₁ => ?_
  refine nextArg_within h₁ _ _ _ fun stype r₂ h₂ => ?_
  refine .ite (fun _ => ?_) fun _ => .throw _
  refine nextArg_within h₂ _ _ _ fun name r₃ h₃ => ?_
  refine assertEol_within h₃ fun r₄ h₄ => ?_
  refine (enter_meets p name stype r₄).bind ?_
  rintro q _ - ⟨rfl, hq⟩
  exact .pure ⟨⟨rfl, hq, h₄.1⟩, h₄.2.1⟩

theorem option_meets (hp : p.InRange) (hr : r.Inv) (hlt : r.pos < r.buf.length)
    (hw : r.lexer.work < turns) (list : Bool) :
    Meets (SameCommand r) (p.optionChecked turns r list) (p.option r.lexer list) := by
  rw [optionChecked, option]
  cases hcur : p.current with
  | none => exact .throw _
  | some cur =>
    have hget := List.getElem?_eq_getElem (hp cur hcur)
    refine skipKeyword_within hr hlt hw _ fun r₁ h₁ => ?_
    refine nextArg_within h₁ _ _ _ fun name r₂ h₂ => ?_
    refine nextArg_within h₂ _ _ _ fun value r₃ h₃ => ?_
    refine assertEol_within h₃ fun r₄ h₄ => ?_
    rw [index_eq hget, pure_bind, putOption_spec, pure_bind]
    refine .pure ⟨⟨?_, ?_, h₄.1⟩, h₄.2.1⟩
    · dsimp only
      rw [modify_eq_set hget]
    · intro i hi
      dsimp only
      rw [List.length_set]
      exact hp i (hcur.trans hi)

theorem package_meets (hp : p.InRange) (hr : r.Inv) (hlt : r.pos < r.buf.length)
    (hw : r.lexer.work < turns) :
    Meets (SameCommand r) (do let r' ← packageChecked turns r; pure (p, r'))
      (do let lx ← package r.lexer; .ok (p, lx)) := by
  rw [packageChecked, package, bind_assoc, bind_assoc]
  refine skipKeyword_within hr hlt hw _ fun r₁ h₁ => ?_
  rw [bind_assoc, bind_assoc]
  refine nextArg_within h₁ _ _ _ fun name r₂ h₂ => ?_
  exact assertEol_within h₂ fun r₃ h₃ => .pure ⟨⟨rfl, hp, h₃.1⟩, h₃.2.1⟩

theorem command_meets (hp : p.InRange) (hr : r.Inv) (hlt : r.pos < r.buf.length)
    (hw : r.lexer.work < turns) (first : UInt8) (rest : List UInt8) :
    Meets (SameCommand r) (p.commandChecked turns first rest r)
      (p.command first rest r.lexer) := by
  rw [commandChecked, command]
  refine .ite (fun _ => package_meets hp hr hlt hw) fun _ => ?_
  refine .ite (fun _ => config_meets hr hlt hw p) fun _ => ?_
  refine .ite (fun _ => option_meets hp hr hlt hw false) fun _ => ?_
  exact .ite (fun _ => option_meets hp hr hlt hw true) fun _ => .throw _

end Commands

/-! ### Lines -/

theorem commands_eq (p : Parser) (lx : Lexer) :
    p.commands lx =
      match lx.strtok.1 with
      | [] => .ok (p, lx.strtok.2)
      | first :: rest =>
          if first = HASH then .ok (p, lx.strtok.2)
          else p.command first rest lx.strtok.2 >>= fun s => s.1.commands s.2 := by
  rw [commands.eq_def]
  split
  · rename_i hword
    rw [hword]
  · rename_i first rest hword
    rw [hword]
    dsimp only
    split
    · rfl
    · split
      · rename_i hc
        rw [hc]
        rfl
      · rename_i hc
        rw [hc]
        rfl

theorem commandTurn_spec {turns : Nat} (hp : p.InRange) (hr : Follows r₀ r r.lexer)
    (hw : r.lexer.work < turns) :
    Progress (fun s => s.1.InRange ∧ Follows r₀ s.2 s.2.lexer) (fun s => s.2.lexer.work)
      (SameParser r₀) (fun s => s.1.commands s.2.lexer) r.lexer.work (p.commands r.lexer)
      (commandTurn turns (p, r)) := by
  obtain ⟨r', htok, hf, hpos⟩ := strtok_spec hr.inv hw
  have hlexer := hf.lexer
  have hf' := hf.trans ⟨hr.pos, hr.ipos⟩
  rw [commands_eq, commandTurn, htok, pure_bind]
  dsimp only
  cases hword : r.lexer.strtok.1 with
  | nil => exact .done rfl ⟨rfl, hp, hf'⟩
  | cons first rest =>
    have hrest : (sliceFrom (first :: rest) 1 : Reading (List UInt8)) = pure rest :=
      sliceFrom_eq (Nat.le_add_left 1 _)
    dsimp only [List.getElem?_cons_zero]
    rw [hrest, pure_bind]
    refine .ite (fun _ => .done rfl ⟨rfl, hp, hf'⟩) fun _ => ?_
    have hne : r.lexer.strtok.1 ≠ [] := by
      rw [hword]
      exact List.cons_ne_nil _ _
    have hlt := Lexer.strtok_pos hne
    have hwork := r.lexer.strtok_work
    rw [← hlexer] at hlt hwork ⊢
    refine .bind (command_meets hp hf.inv hlt (hwork ▸ hw) first rest) ?_ ?_
    · intro e he
      rw [he]
      rfl
    · rintro ⟨q, r''⟩ ⟨_, lx⟩ hx ⟨⟨rfl, hq, hf''⟩, hahead⟩
      have hlexer' := hf''.lexer
      dsimp only at hlexer' hq hahead ⊢
      subst hlexer'
      rw [goOn_eq (.inl (hpos ▸ hahead))]
      refine .next ⟨hq, hf''.trans ⟨hf'.pos, hf'.ipos⟩⟩ ?_ ?_
      · exact hwork ▸ command_work hlt hx
      · rw [hx]
        rfl

theorem line_meets {turns : Nat} (hp : p.InRange) (hr : r.Inv) (hw : r.lexer.work < turns) :
    Meets (SameParser r) (p.lineChecked turns r) (p.line r.lexer) := by
  rw [lineChecked]
  refine skipped_meets hr hw fun r₁ hlexer₁ hs hn => ?_
  rw [line, ← hlexer₁]
  exact Meets.loop (fun s hs hw => commandTurn_spec (r := s.2) hs.1 hs.2 hw) (s := (p, r₁))
    ⟨hp, hs⟩ hn

theorem lines_eq (p : Parser) (lx : Lexer) :
    p.lines lx =
      if lx.rest.isEmpty then .ok p.pkg
      else if ({ lx with pos := 0 }.getln 0).ch 0 ≠ 0 then
        p.line ({ lx with pos := 0 }.getln 0) >>= fun s => s.1.lines s.2
      else p.lines ({ lx with pos := 0 }.getln 0) := by
  rw [lines.eq_def]
  dsimp only
  split
  · rfl
  · split
    · split
      · rename_i hc
        rw [hc]
        rfl
      · rename_i hc
        rw [hc]
        rfl
    · rfl

theorem lineTurn_spec {turns : Nat} (hp : p.InRange) (hw : 2 * r.lexer.rest.length < turns) :
    Progress (fun s => s.1.InRange) (fun s => 2 * s.2.lexer.rest.length) Eq
      (fun s => s.1.lines s.2.lexer) (2 * r.lexer.rest.length) (p.lines r.lexer)
      (lineTurn turns (p, r)) := by
  have hempty : r.lexer.rest.isEmpty = true ↔ ¬r.ipos < r.input.length := by
    rw [List.isEmpty_iff, Nat.not_lt]
    exact List.drop_eq_nil_iff
  rw [lines_eq, lineTurn]
  by_cases hlt : r.ipos < r.input.length
  · have hrest : ¬r.lexer.rest.isEmpty = true := fun h => hempty.1 h hlt
    have hne : r.lexer.rest ≠ [] := fun h => hrest (List.isEmpty_iff.2 h)
    obtain ⟨r', heq, hlexer, hpos, hcase⟩ := getln_spec (r := { r with pos := 0 }) (Nat.zero_le _)
    obtain ⟨hipos, hfilled, hlen⟩ := hcase.resolve_right fun h => Nat.not_le.2 hlt h.1
    have hr' : r'.Inv := ⟨(hpos.le.trans hlen), fun _ => hfilled⟩
    have hget : ({ r.lexer with pos := 0 } : Lexer).getln 0 = r'.lexer := hlexer.symm
    have hwork : r'.lexer.work < 2 * r.lexer.rest.length := hget ▸ Lexer.getln_zero_work hne
    have hless : ∀ lx : Lexer, lx.work ≤ r'.lexer.work →
        2 * lx.rest.length < 2 * r.lexer.rest.length := fun lx hle =>
      lt_of_le_of_lt (Nat.le_add_right _ _) (lt_of_le_of_lt hle hwork)
    rw [if_pos hlt, if_neg hrest, heq, pure_bind, hget]
    refine .ite (fun _ => ?_) fun _ => ?_
    · refine .bind (line_meets hp hr' (hwork.trans hw)) ?_ ?_
      · intro e he
        rw [he]
        rfl
      · rintro ⟨q, r''⟩ ⟨_, lx⟩ hx ⟨rfl, hq, hf⟩
        have hlexer' := hf.lexer
        dsimp only at hlexer' hq ⊢
        subst hlexer'
        have hahead : r.ipos < r''.ipos := lt_of_lt_of_le hipos hf.ipos
        have hline := (commands_work hx).trans (Lexer.skipWhitespace_work _)
        rw [if_pos hahead]
        refine .next hq (hless _ hline) ?_
        rw [hx]
        rfl
    · rw [if_pos hipos]
      exact .next hp (hless _ (Nat.le_refl _)) rfl
  · rw [if_neg hlt, if_pos (hempty.2 hlt)]
    exact .done rfl rfl

end Parser

/-- **The parser is never stopped.**  With two turns for each byte of the input, and one
    more, every slice is inside its buffer, a line is put at the end of what is kept, every
    turn that goes on has moved the position or taken a line, and all loops end; the result
    is that of `parse`. -/
theorem parse_safe (input : List UInt8) {turns : Nat} (h : 2 * input.length < turns) :
    (parseChecked turns input).run = some (parse input) := by
  have hmeets : Meets Eq (parseChecked turns input) (parse input) := by
    rw [parseChecked, parse]
    refine .ite (fun _ => .throw _) fun _ => ?_
    refine Meets.loop (fun s hs hw => Parser.lineTurn_spec (r := s.2) hs hw)
      (s := (({} : Parser), ({ input } : Reader))) ?_ h
    intro i hi
    cases hi
  exact hmeets.eq_some

/-- A file of two lines, read with a thousand turns. -/
theorem parse_safe_twoLines :
    (parseChecked 1000 (fileText [TAB] twoLines)).run = some (.ok twoLines) := by
  have hlen : 2 * (fileText [TAB] twoLines).length < 1000 := by decide +kernel
  rw [parse_safe _ hlen, parse_fileText_twoLines]

end Uci

end Datad
