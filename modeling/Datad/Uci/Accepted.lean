/-
  Datad/Uci/Accepted.lean
  =======================
  **What the parser accepts is well formed** (`rust/src/uci.rs`).

  Whatever the file, a package that was parsed has valid names and types, no section and
  no option of a section is there twice, and no string is empty or holds a NUL.
-/
import Datad.Uci.Text

namespace Datad

namespace Uci

open Bytes

/-! ### Arguments -/

theorem strAt_nul (lx : Lexer) (i : Nat) : 0 ∉ lx.strAt i := by
  intro hmem
  have hall := List.all_takeWhile (p := fun c : UInt8 => decide (c ≠ 0)) (l := lx.buf.drop i)
  have hne := List.all_eq_true.mp hall 0 hmem
  simp at hne

/-- An argument is free of NUL, and a name is valid unless it is missing. -/
theorem Lexer.nextArg_spec {lx lx' : Lexer} {required name package : Bool} {s : List UInt8}
    (h : lx.nextArg required name package = .ok (s, lx')) :
    0 ∉ s ∧ (required = true → s ≠ []) ∧
      (name = true → s ≠ [] → validateStr s name package = true) := by
  unfold nextArg at h
  dsimp only at h
  split at h
  · cases h
  · split at h
    · rename_i hs
      split at h
      · cases h
      · rename_i hr
        cases h
        refine ⟨strAt_nul _ _, fun hreq => absurd hreq hr, fun _ hne => ?_⟩
        exact absurd (List.isEmpty_iff.mp hs) hne
    · rename_i hs
      split at h
      · cases h
      · rename_i hv
        cases h
        refine ⟨strAt_nul _ _, fun _ hnil => hs (List.isEmpty_iff.mpr hnil), fun hname _ => ?_⟩
        by_contra hbad
        exact hv ⟨hname, hbad⟩

/-! ### Options -/

/-- What is changed in one place keeps what the change keeps. -/
theorem filterMap_modify {α β : Type} {g : α → Option β} {f : α → α} (h : ∀ a, g (f a) = g a)
    (l : List α) (i : Nat) : (l.modify i f).filterMap g = l.filterMap g := by
  induction l generalizing i with
  | nil => cases i <;> rfl
  | cons a l ih =>
    cases i with
    | zero =>
      rw [List.modify_zero_cons, List.filterMap_cons, List.filterMap_cons, h]
    | succ i =>
      rw [List.modify_succ_cons, List.filterMap_cons, List.filterMap_cons, ih]

theorem forall_modify {α : Type} {P : α → Prop} {f : α → α} {l : List α} {i : Nat}
    (h : ∀ a ∈ l, P a) (hf : ∀ a, P a → P (f a)) : ∀ a ∈ l.modify i f, P a := by
  intro a ha
  obtain ⟨n, hn, rfl⟩ := List.mem_iff_getElem.mp ha
  rw [List.getElem_modify]
  split
  · exact hf _ (h _ (List.getElem_mem _))
  · exact h _ (List.getElem_mem _)

/-- What a line does to the options: nothing, one more, or another value for one. -/
inductive Put (options : List (List UInt8 × Value)) (name : List UInt8) :
    List (List UInt8 × Value) → Prop where
  | same : Put options name options
  | added (v : Value) (hv : v.valid = true) (hnew : ∀ o ∈ options, o.1 ≠ name) :
      Put options name (options ++ [(name, v)])
  | changed (i : Nat) (f : List UInt8 × Value → List UInt8 × Value) (hname : ∀ o, (f o).1 = o.1)
      (hv : ∀ o, o.2.valid = true → (f o).2.valid = true) : Put options name (options.modify i f)

theorem valid_str {v : List UInt8} (hne : ¬ v.isEmpty = true) (hz : 0 ∉ v) :
    (Value.str v).valid = true := by
  rw [Value.valid, Bool.and_eq_true, Bool.not_eq_true', Bool.not_eq_true']
  exact ⟨Bool.eq_false_iff.mpr hne, by simpa using hz⟩

theorem valid_append {items : List (List UInt8)} {v : List UInt8}
    (h : ∀ u ∈ items, 0 ∉ u) (hz : 0 ∉ v) : (Value.list (items ++ [v])).valid = true := by
  rw [Value.valid, Bool.and_eq_true, List.all_eq_true]
  refine ⟨by simp, fun u hu => ?_⟩
  rcases List.mem_append.mp hu with hu | hu
  · simpa using h u hu
  · rw [List.mem_singleton.mp hu]
    simpa using hz

theorem putOption_put (options : List (List UInt8 × Value)) (name : List UInt8)
    {value : List UInt8} (list : Bool) (hz : 0 ∉ value) :
    Put options name (putOption options name value list) := by
  have hnew : options.findIdx? (fun o => decide (o.1 = name)) = none →
      ∀ o ∈ options, o.1 ≠ name := by
    intro hnone o ho
    exact of_decide_eq_false (List.findIdx?_eq_none_iff.mp hnone o ho)
  unfold putOption
  split
  · rename_i hi
    have hv : (Value.list ([] ++ [value])).valid = true :=
      valid_append (fun u hu => absurd hu List.not_mem_nil) hz
    exact .added _ hv (hnew hi)
  · refine .changed _ _ (fun o => ?_) fun o ho => ?_
    · split
      · rfl
      · rfl
    · split
      · rename_i items hitems
        rw [hitems, Value.valid, Bool.and_eq_true, List.all_eq_true] at ho
        exact valid_append (fun u hu => by simpa using ho.2 u hu) hz
      · rename_i old hold
        rw [hold, Value.valid, Bool.and_eq_true] at ho
        have hold : ∀ u ∈ [old], 0 ∉ u := by
          intro u hu
          rw [List.mem_singleton.mp hu]
          simpa using ho.2
        exact valid_append hold hz
  · split
    · exact .same
    · rename_i hne
      split
      · rename_i hi
        exact .added _ (valid_str hne hz) (hnew hi)
      · exact .changed _ _ (fun _ => rfl) fun _ _ => valid_str hne hz

theorem Section.Valid.put {s : Section} (h : s.Valid) {name : List UInt8}
    (hname : validateStr name true false = true) {options : List (List UInt8 × Value)}
    (hput : Put s.options name options) : { s with options }.Valid := by
  cases hput with
  | same => exact h
  | added v hv hnew =>
    refine ⟨h.stype, h.name, ?_, ?_, ?_⟩
    · intro o ho
      rcases List.mem_append.mp ho with ho | ho
      · exact h.optionNames o ho
      · rw [List.mem_singleton.mp ho]
        exact hname
    · intro o ho
      rcases List.mem_append.mp ho with ho | ho
      · exact h.values o ho
      · rw [List.mem_singleton.mp ho]
        exact hv
    · rw [List.map_append, List.nodup_append]
      refine ⟨h.unique, List.nodup_cons.mpr ⟨List.not_mem_nil, List.nodup_nil⟩, ?_⟩
      intro a ha b hb hab
      obtain ⟨o, ho, rfl⟩ := List.mem_map.mp ha
      exact hnew o ho (hab.trans (List.mem_singleton.mp hb))
  | changed i f hf hv =>
    refine ⟨h.stype, h.name, ?_, forall_modify h.values hv, ?_⟩
    · refine forall_modify h.optionNames fun o ho => ?_
      rw [hf]
      exact ho
    · have hnames := filterMap_modify (g := fun o : List UInt8 × Value => some o.1)
        (fun o => congrArg some (hf o)) s.options i
      rw [List.filterMap_eq_map'] at hnames
      exact hnames ▸ h.unique

/-! ### Commands -/

theorem Package.Valid.push {p : Parser} (h : p.pkg.Valid) {s : Section} (hs : s.Valid)
    (hnew : ∀ n, s.name = some n → ∀ t ∈ p.pkg.sections, t.name ≠ some n) :
    (p.push s).pkg.Valid := by
  constructor
  · intro t ht
    rcases List.mem_append.mp ht with ht | ht
    · exact h.sections t ht
    · rw [List.mem_singleton.mp ht]
      exact hs
  · show ((p.pkg.sections ++ [s]).filterMap (·.name)).Nodup
    rw [List.filterMap_append]
    rcases hn : s.name with _ | n
    · simpa [hn] using h.unique
    · simp only [List.filterMap_cons, hn, List.filterMap_nil, List.nodup_append]
      refine ⟨h.unique, List.nodup_cons.mpr ⟨List.not_mem_nil, List.nodup_nil⟩, ?_⟩
      intro a ha b hb hab
      obtain ⟨t, ht, htn⟩ := List.mem_filterMap.mp ha
      rw [hab, List.mem_singleton.mp hb] at htn
      exact hnew n hn t ht htn

theorem Parser.enter_valid {p p' : Parser} {name stype : List UInt8} {lx : Lexer}
    (h : p.pkg.Valid) (hs : validateStr stype false false = true)
    (hname : name ≠ [] → validateStr name true false = true)
    (henter : p.enter name stype lx = .ok p') : p'.pkg.Valid := by
  unfold enter at henter
  split at henter
  · cases henter
    refine h.push ⟨hs, ?_, ?_, ?_, List.nodup_nil⟩ ?_
    · exact fun n hn => (by cases hn)
    · exact fun o ho => (by cases ho)
    · exact fun o ho => (by cases ho)
    · exact fun n hn => (by cases hn)
  · rename_i hne
    split at henter
    · rename_i hnone
      cases henter
      refine h.push ⟨hs, ?_, ?_, ?_, List.nodup_nil⟩ ?_
      · intro n hn
        cases hn
        exact hname fun hnil => hne (List.isEmpty_iff.mpr hnil)
      · exact fun o ho => (by cases ho)
      · exact fun o ho => (by cases ho)
      · intro n hn t ht htn
        cases hn
        have hfalse := List.findIdx?_eq_none_iff.mp hnone t ht
        rw [htn] at hfalse
        simp at hfalse
    · split at henter
      · cases henter
      · cases henter
        exact h

theorem Parser.config_valid {p p' : Parser} {lx lx' : Lexer} (h : p.pkg.Valid)
    (hc : p.config lx = .ok (p', lx')) : p'.pkg.Valid := by
  rw [config] at hc
  obtain ⟨lx₁, -, hc⟩ := bind_eq_ok hc
  obtain ⟨⟨stype, lx₂⟩, -, hc⟩ := bind_eq_ok hc
  dsimp only at hc
  split at hc
  · rename_i hs
    obtain ⟨⟨name, lx₃⟩, hname, hc⟩ := bind_eq_ok hc
    obtain ⟨lx₄, -, hc⟩ := bind_eq_ok hc
    obtain ⟨q, henter, hc⟩ := bind_eq_ok hc
    cases hc
    exact enter_valid h hs ((Lexer.nextArg_spec hname).2.2 rfl) henter
  · cases hc

theorem Parser.option_valid {p p' : Parser} {lx lx' : Lexer} {list : Bool} (h : p.pkg.Valid)
    (hc : p.option lx list = .ok (p', lx')) : p'.pkg.Valid := by
  rw [option] at hc
  split at hc
  · cases hc
  · rename_i cur hcur
    obtain ⟨lx₁, -, hc⟩ := bind_eq_ok hc
    obtain ⟨⟨name, lx₂⟩, hname, hc⟩ := bind_eq_ok hc
    obtain ⟨⟨value, lx₃⟩, hvalue, hc⟩ := bind_eq_ok hc
    obtain ⟨lx₄, -, hc⟩ := bind_eq_ok hc
    cases hc
    have hn := Lexer.nextArg_spec hname
    have hz := (Lexer.nextArg_spec hvalue).1
    constructor
    · refine forall_modify h.sections fun s hs => ?_
      exact hs.put (hn.2.2 rfl (hn.2.1 rfl)) (putOption_put s.options name list hz)
    · have hnames := filterMap_modify (g := fun s : Section => s.name)
        (f := fun s => { s with options := putOption s.options name value list })
        (fun _ => rfl) p.pkg.sections cur
      exact hnames ▸ h.unique

theorem Parser.command_valid {p p' : Parser} {first : UInt8} {rest : List UInt8}
    {lx lx' : Lexer} (h : p.pkg.Valid) (hc : p.command first rest lx = .ok (p', lx')) :
    p'.pkg.Valid := by
  rw [command] at hc
  split at hc
  · obtain ⟨lx₁, -, hc⟩ := bind_eq_ok hc
    cases hc
    exact h
  split at hc
  · exact config_valid h hc
  split at hc
  · exact option_valid h hc
  split at hc
  · exact option_valid h hc
  · cases hc

/-! ### Files -/

theorem Parser.commands_valid {p p' : Parser} {lx lx' : Lexer} (h : p.pkg.Valid)
    (hc : p.commands lx = .ok (p', lx')) : p'.pkg.Valid := by
  fun_induction commands p lx with
  | case1 =>
    cases hc
    exact h
  | case2 =>
    cases hc
    exact h
  | case3 => cases hc
  | case4 p lx first rest hword _ r hcommand ih => exact ih (command_valid h hcommand) hc

theorem Parser.lines_valid {p : Parser} {lx : Lexer} {pkg : Package} (h : p.pkg.Valid)
    (hl : p.lines lx = .ok pkg) : pkg.Valid := by
  fun_induction lines p lx with
  | case1 =>
    cases hl
    exact h
  | case2 => cases hl
  | case3 p lx _ lx₁ _ r hline ih => exact ih (commands_valid h hline) hl
  | case4 p lx _ lx₁ _ ih => exact ih h hl

/-- **Every package that was parsed is valid.** -/
theorem parse_valid {input : List UInt8} {pkg : Package} (h : parse input = .ok pkg) :
    pkg.Valid := by
  unfold parse at h
  split at h
  · cases h
  · have hnil : (⟨[]⟩ : Package).Valid := ⟨fun s hs => (by cases hs), List.nodup_nil⟩
    exact Parser.lines_valid hnil h

end Uci

end Datad
