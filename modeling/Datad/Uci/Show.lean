/-
  Datad/Uci/Show.lean
  ===================
  **Two ways to read a uci value** (`render_show` and `get` of `rust/src/uci.rs`,
  `uci_show_map` of `rust/src/state.rs`).

  A value can be looked up in the parsed package, or in the map that is read back, line
  by line, from the text of `uci show`.  A value is written in quotes there, with every
  quote in it written as `'\''`; what reads the lines takes off the outer quotes and does
  nothing about the inner ones, and a newline in a value ends the line.

  A section is shown under its name, and only without one under its type and number.
-/
import Datad.Uci.Accepted
import Datad.Ubus.Client
import Datad.Lib.Lines
import Mathlib.Data.List.Nodup

namespace Datad

namespace Uci

open Bytes Lines

def EQUALS : UInt8 := 61
def DOT : UInt8 := 46
def AT : UInt8 := 64
def LBRACKET : UInt8 := 91
def RBRACKET : UInt8 := 93

/-! ### References -/

/-- The number of the next section of a type, and the counts after it. -/
def countUp (t : List UInt8) : List (List UInt8 × Nat) → Nat × List (List UInt8 × Nat)
  | [] => (0, [(t, 1)])
  | (u, n) :: rest =>
      if u = t then (n, (u, n + 1) :: rest)
      else
        let (idx, rest') := countUp t rest
        (idx, (u, n) :: rest')

/-- `@type[N]`. -/
def typeRef (t : List UInt8) (n : Nat) : List UInt8 :=
  AT :: (t ++ LBRACKET :: (utf8 (toString n) ++ [RBRACKET]))

def typeRefsFrom (counts : List (List UInt8 × Nat)) : List Section → List (List UInt8)
  | [] => []
  | s :: secs =>
      let (idx, counts') := countUp s.stype counts
      typeRef s.stype idx :: typeRefsFrom counts' secs

/-- The sections of each type are numbered, those with a name too. -/
def typeRefs (pkg : Package) : List (List UInt8) := typeRefsFrom [] pkg.sections

/-- What a section is called in `uci show`. -/
def sectionRefs (pkg : Package) : List (List UInt8) :=
  (pkg.sections.zip (typeRefs pkg)).map fun sr => sr.1.name.getD sr.2

/-! ### Writing and reading -/

def renderValue : Value → List UInt8
  | .str v => quote v
  | .list items => ((items.map quote).intersperse [SPACE]).flatten

def renderShow (package : String) (pkg : Package) : List UInt8 :=
  (pkg.sections.zip (sectionRefs pkg)).flatMap fun sr =>
    let pre := utf8 package ++ DOT :: sr.2
    pre ++ EQUALS :: (sr.1.stype ++ [NEWLINE]) ++
      sr.1.options.flatMap fun o =>
        pre ++ DOT :: (o.1 ++ EQUALS :: (renderValue o.2 ++ [NEWLINE]))

/-- An item of a list is quoted if there is a blank in it. -/
def getValue : Value → List UInt8
  | .str v => v
  | .list items =>
      ((items.map fun item =>
        if item.any fun c => c = SPACE || c = TAB || c = RETURN || c = NEWLINE then quote item
        else item).intersperse [SPACE]).flatten

/-- The section of a reference: by its name, else by its type and number. -/
def findSection (pkg : Package) (want : List UInt8) : Option Nat :=
  match pkg.sections.findIdx? fun s => s.name = some want with
  | some i => some i
  | none => (typeRefs pkg).findIdx? fun r => r = want

def get (pkg : Package) (ref option : String) : Option (List UInt8) :=
  match (findSection pkg (utf8 ref)).bind fun i => pkg.sections[i]? with
  | some s => (s.options.find? fun o => o.1 = utf8 option).map fun o => getValue o.2
  | none => none

/-- `split_once('=')`. -/
def splitOnce (l : List Char) : Option (List Char × List Char) :=
  match l.dropWhile fun c => decide (c ≠ '=') with
  | [] => none
  | _ :: raw => some (l.takeWhile fun c => decide (c ≠ '='), raw)

/-- The value without its outer quotes, if it has both. -/
def unquote (raw : List Char) : List Char :=
  if raw.head? = some '\'' then (stripSuffix '\'' raw.tail).getD raw else raw

def showLine (l : List Char) : Option (String × String) :=
  (splitOnce l).map fun kv => (String.ofList kv.1, String.ofList (unquote kv.2))

def showEntries (raw : List UInt8) : List (String × String) :=
  (lines (fromUtf8Lossy raw).toList).filterMap showLine

/-- The map of the entries: a later one takes the place of an earlier one. -/
def uciShowMap (raw : List UInt8) (path : String) : Option String :=
  ((showEntries raw).reverse.find? fun e => decide (e.1 = path)).map Prod.snd

def path (package ref option : String) : String := package ++ "." ++ ref ++ "." ++ option

/-! ### Splitting in one way -/

section Split

variable {α : Type} {x : α}

theorem cons_append_inj {d d' a a' : List α} (h : x ∉ d) (h' : x ∉ d')
    (heq : d ++ x :: a = d' ++ x :: a') : d = d' ∧ a = a' := by
  induction d generalizing d' with
  | nil =>
    cases d' with
    | nil =>
      cases heq
      exact ⟨rfl, rfl⟩
    | cons c d' =>
      cases heq
      exact absurd List.mem_cons_self h'
  | cons c d ih =>
    cases d' with
    | nil =>
      cases heq
      exact absurd List.mem_cons_self h
    | cons c' d' =>
      obtain ⟨rfl, htail⟩ := List.cons.inj heq
      obtain ⟨rfl, rfl⟩ := ih (fun hm => h (List.mem_cons_of_mem _ hm))
        (fun hm => h' (List.mem_cons_of_mem _ hm)) htail
      exact ⟨rfl, rfl⟩

/-- A list is split at the last `x` in one way. -/
theorem append_cons_inj {a a' d d' : List α} (h : x ∉ d) (h' : x ∉ d')
    (heq : a ++ x :: d = a' ++ x :: d') : a = a' ∧ d = d' := by
  have hrev := congrArg List.reverse heq
  simp only [List.reverse_append, List.reverse_cons, List.append_assoc,
    List.singleton_append] at hrev
  obtain ⟨hd, ha⟩ := cons_append_inj (fun hm => h (List.mem_reverse.mp hm))
    (fun hm => h' (List.mem_reverse.mp hm)) hrev
  exact ⟨List.reverse_inj.mp ha, List.reverse_inj.mp hd⟩

end Split

/-! ### Names, types and numbers -/

/-- A byte of a name. -/
structure NameByte (c : UInt8) : Prop where
  ascii : c < 128
  dot : c ≠ DOT
  equals : c ≠ EQUALS
  newline : c ≠ NEWLINE
  at' : c ≠ AT
  bracket : c ≠ RBRACKET

theorem nameByte {v : List UInt8} (h : validateStr v true false = true) :
    ∀ c ∈ v, NameByte c := by
  have hbyte : ∀ n : Fin 256, (isAlphanumeric (UInt8.ofNat n) || UInt8.ofNat n = 95) = true →
      UInt8.ofNat n < 128 ∧ UInt8.ofNat n ≠ DOT ∧ UInt8.ofNat n ≠ EQUALS ∧
        UInt8.ofNat n ≠ NEWLINE ∧ UInt8.ofNat n ≠ AT ∧ UInt8.ofNat n ≠ RBRACKET := by
    decide +kernel
  rw [validateStr, Bool.and_eq_true] at h
  intro c hc
  have hv := List.all_eq_true.mp h.2 c hc
  simp only [Bool.and_false, Bool.or_false, Bool.not_true, Bool.false_and] at hv
  have hspec := hbyte ⟨c.toNat, c.toNat_lt⟩
  simp only [UInt8.ofNat_toNat] at hspec
  obtain ⟨h₁, h₂, h₃, h₄, h₅, h₆⟩ := hspec hv
  exact ⟨h₁, h₂, h₃, h₄, h₅, h₆⟩

theorem typeByte {v : List UInt8} (h : validateStr v false false = true) :
    ∀ c ∈ v, c < 128 ∧ c ≠ NEWLINE ∧ c ≠ RETURN := by
  have hbyte : ∀ n : Fin 256, (isAlphanumeric (UInt8.ofNat n) || UInt8.ofNat n = 95 ||
      (33 ≤ UInt8.ofNat n && UInt8.ofNat n ≤ 126)) = true →
      UInt8.ofNat n < 128 ∧ UInt8.ofNat n ≠ NEWLINE ∧ UInt8.ofNat n ≠ RETURN := by
    decide +kernel
  rw [validateStr, Bool.and_eq_true] at h
  intro c hc
  have hv := List.all_eq_true.mp h.2 c hc
  simp only [Bool.and_false, Bool.or_false, Bool.not_false, Bool.true_and] at hv
  have hspec := hbyte ⟨c.toNat, c.toNat_lt⟩
  simp only [UInt8.ofNat_toNat] at hspec
  exact hspec hv

theorem digitByte {n : Nat} {b : UInt8} (h : b ∈ utf8 (toString n)) :
    b < 128 ∧ b ≠ EQUALS ∧ b ≠ NEWLINE ∧ b ≠ LBRACKET := by
  rw [utf8, List.mem_flatMap, Nat.toString_eq_repr, Nat.toList_repr] at h
  obtain ⟨c, hc, hb⟩ := h
  have hd := Nat.isDigit_of_mem_toDigits (by decide) (by decide) hc
  simp only [Char.isDigit, Bool.and_eq_true, decide_eq_true_eq] at hd
  have hlow : 48 ≤ c.toNat := hd.1
  have hhigh : c.toNat ≤ 57 := hd.2
  rw [encode_of_ascii (by omega), List.mem_singleton] at hb
  have hnat : b.toNat = c.toNat := by
    rw [hb, asciiByte, UInt8.toNat_ofNat', Nat.mod_eq_of_lt (by omega)]
  have hne : ∀ d : UInt8, d.toNat < 48 ∨ 57 < d.toNat → b ≠ d := by
    rintro d hd rfl
    omega
  refine ⟨?_, hne _ (by decide), hne _ (by decide), hne _ (by decide)⟩
  show b.toNat < 128
  omega

theorem toString_inj {n n' : Nat} (h : toString n = toString n') : n = n' := by
  rw [Nat.toString_eq_repr, Nat.toString_eq_repr] at h
  have hdigits := congrArg String.toList h
  rw [Nat.toList_repr, Nat.toList_repr] at hdigits
  rw [← Nat.ofDigitChars_toDigits (by decide : 1 < 10) (le_refl 10) (n := n), hdigits,
    Nat.ofDigitChars_toDigits (by decide) (le_refl 10)]

theorem typeRef_inj {t t' : List UInt8} {n n' : Nat} (h : typeRef t n = typeRef t' n') :
    t = t' ∧ n = n' := by
  have hfree : ∀ n : Nat, LBRACKET ∉ utf8 (toString n) ++ [RBRACKET] := by
    intro n hm
    rcases List.mem_append.mp hm with hm | hm
    · exact (digitByte hm).2.2.2 rfl
    · exact absurd (List.mem_singleton.mp hm) (by decide)
  obtain ⟨ht, hn⟩ := append_cons_inj (hfree n) (hfree n') (List.cons.inj h).2
  exact ⟨ht, toString_inj (utf8_inj (List.append_cancel_right hn))⟩

/-! ### The reference of a section -/

/-- How many sections of the type there were. -/
def tally (t : List UInt8) : List (List UInt8 × Nat) → Nat
  | [] => 0
  | (u, n) :: rest => if u = t then n else tally t rest

theorem countUp_spec (t : List UInt8) (counts : List (List UInt8 × Nat)) :
    (countUp t counts).1 = tally t counts ∧
      ∀ u, tally u (countUp t counts).2 = tally u counts + if t = u then 1 else 0 := by
  induction counts with
  | nil =>
    refine ⟨rfl, fun u => ?_⟩
    simp only [countUp, tally, Nat.zero_add]
  | cons c rest ih =>
    obtain ⟨w, n⟩ := c
    rw [countUp]
    split
    · rename_i hw
      subst hw
      refine ⟨by rw [tally, if_pos rfl], fun u => ?_⟩
      simp only [tally]
      split
      · rfl
      · rfl
    · rename_i hw
      refine ⟨by rw [tally, if_neg hw]; exact ih.1, fun u => ?_⟩
      simp only [tally]
      split
      · rename_i hu
        rw [if_neg (fun h => hw (hu.trans h.symm)), Nat.add_zero]
      · exact ih.2 u

/-- The number of a section: how many of its type come before it. -/
def number (secs : List Section) (i : Nat) (t : List UInt8) : Nat :=
  (secs.take i).countP fun s => decide (s.stype = t)

theorem typeRefsFrom_getElem? (secs : List Section) : ∀ (counts : List (List UInt8 × Nat))
    (i : Nat), (typeRefsFrom counts secs)[i]? =
      secs[i]?.map fun s => typeRef s.stype (tally s.stype counts + number secs i s.stype) := by
  induction secs with
  | nil =>
    intro counts i
    rfl
  | cons s secs ih =>
    intro counts i
    obtain ⟨hidx, htally⟩ := countUp_spec s.stype counts
    rw [typeRefsFrom]
    cases i with
    | zero =>
      rw [List.getElem?_cons_zero, List.getElem?_cons_zero, Option.map_some, hidx]
      rfl
    | succ i =>
      rw [List.getElem?_cons_succ, List.getElem?_cons_succ, ih]
      refine Option.map_congr fun u _ => ?_
      have hcount : number (s :: secs) (i + 1) u.stype =
          number secs i u.stype + if s.stype = u.stype then 1 else 0 := by
        rw [number, List.take_succ_cons, List.countP_cons]
        simp only [decide_eq_true_eq]
        rfl
      rw [htally, hcount, Nat.add_assoc, Nat.add_comm (number secs i u.stype)]

theorem typeRefs_getElem? {pkg : Package} {i : Nat} {s : Section}
    (h : pkg.sections[i]? = some s) :
    (typeRefs pkg)[i]? = some (typeRef s.stype (number pkg.sections i s.stype)) := by
  rw [typeRefs, typeRefsFrom_getElem?, h]
  simp only [Option.map_some, tally, Nat.zero_add]

theorem number_lt {secs : List Section} {i j : Nat} {s : Section} (h : secs[i]? = some s)
    (hij : i < j) : number secs i s.stype < number secs j s.stype := by
  have hone : number secs (i + 1) s.stype = number secs i s.stype + 1 := by
    rw [number, List.take_add_one, h, List.countP_append]
    simp [number]
  have hle : number secs (i + 1) s.stype ≤ number secs j s.stype := by
    have hsub : (secs.take (i + 1)).Sublist (secs.take j) := (List.take_sublist_take_left hij)
    exact hsub.countP_le
  omega

/-- No two sections have the same type and number. -/
theorem typeRefs_inj {pkg : Package} {i j : Nat} {r : List UInt8}
    (hi : (typeRefs pkg)[i]? = some r) (hj : (typeRefs pkg)[j]? = some r) : i = j := by
  have hsome : ∀ {k}, (typeRefs pkg)[k]? = some r → ∃ s, pkg.sections[k]? = some s ∧
      r = typeRef s.stype (number pkg.sections k s.stype) := by
    intro k hk
    rw [typeRefs, typeRefsFrom_getElem?] at hk
    obtain ⟨s, hs, hr⟩ := Option.map_eq_some_iff.mp hk
    simp only [tally, Nat.zero_add] at hr
    exact ⟨s, hs, hr.symm⟩
  obtain ⟨s, hs, hr⟩ := hsome hi
  obtain ⟨s', hs', hr'⟩ := hsome hj
  obtain ⟨ht, hn⟩ := typeRef_inj (hr.symm.trans hr')
  rcases Nat.lt_trichotomy i j with hlt | heq | hlt
  · have hlt' := number_lt hs hlt
    rw [hn, ht] at hlt'
    exact absurd hlt' (Nat.lt_irrefl _)
  · exact heq
  · have hlt' := number_lt hs' hlt
    rw [← hn, ← ht] at hlt'
    exact absurd hlt' (Nat.lt_irrefl _)

theorem sectionRefs_getElem? {pkg : Package} {i : Nat} {s : Section}
    (h : pkg.sections[i]? = some s) :
    (sectionRefs pkg)[i]? =
      some (s.name.getD (typeRef s.stype (number pkg.sections i s.stype))) := by
  have hzip : (pkg.sections.zip (typeRefs pkg))[i]? =
      some (s, typeRef s.stype (number pkg.sections i s.stype)) :=
    List.getElem?_zip_eq_some.mpr ⟨h, typeRefs_getElem? h⟩
  rw [sectionRefs, List.getElem?_map, hzip]
  rfl

/-- A section with what it is called, by its place. -/
theorem mem_shown {pkg : Package} {s : Section} {r : List UInt8}
    (h : (s, r) ∈ pkg.sections.zip (sectionRefs pkg)) :
    ∃ i, pkg.sections[i]? = some s ∧
      r = s.name.getD (typeRef s.stype (number pkg.sections i s.stype)) := by
  obtain ⟨i, hi⟩ := List.mem_iff_getElem?.mp h
  obtain ⟨hs, hr⟩ := List.getElem?_zip_eq_some.mp hi
  rw [sectionRefs_getElem? hs] at hr
  exact ⟨i, hs, (Option.some.inj hr).symm⟩

/-! ### `get` -/

section Get

variable {pkg : Package} {i : Nat} {s : Section}

theorem name_inj (hv : pkg.Valid) {j : Nat} {s' : Section} {n : List UInt8}
    (hi : pkg.sections[i]? = some s) (hj : pkg.sections[j]? = some s') (hn : s.name = some n)
    (hn' : s'.name = some n) : i = j := by
  have hpair : ∀ {i j : Nat} {s s' : Section}, i < j → pkg.sections[i]? = some s →
      pkg.sections[j]? = some s' → s.name = some n → s'.name = some n → False := by
    intro i j s s' hij hi hj hn hn'
    have hsplit := hv.unique
    rw [← List.take_append_drop j pkg.sections, List.filterMap_append, List.nodup_append] at hsplit
    refine hsplit.2.2 n ?_ n ?_ rfl
    · refine List.mem_filterMap.mpr ⟨s, List.mem_iff_getElem?.mpr ⟨i, ?_⟩, hn⟩
      rw [List.getElem?_take, if_pos hij]
      exact hi
    · refine List.mem_filterMap.mpr ⟨s', List.mem_iff_getElem?.mpr ⟨0, ?_⟩, hn'⟩
      rw [List.getElem?_drop, Nat.add_zero]
      exact hj
  rcases Nat.lt_trichotomy i j with hlt | heq | hlt
  · exact (hpair hlt hi hj hn hn').elim
  · exact heq
  · exact (hpair hlt hj hi hn' hn).elim

theorem findIdx?_eq_some_of_unique {α : Type} {p : α → Bool} {l : List α} {i : Nat} {a : α}
    (hi : l[i]? = some a) (hp : p a = true)
    (hu : ∀ (j : Nat) b, l[j]? = some b → p b = true → j = i) : l.findIdx? p = some i := by
  rcases hf : l.findIdx? p with _ | j
  · have hfalse := List.findIdx?_eq_none_iff.mp hf a (List.mem_of_getElem? hi)
    rw [hp] at hfalse
    cases hfalse
  · obtain ⟨hlt, hj, -⟩ := List.findIdx?_eq_some_iff_getElem.mp hf
    rw [hu j _ (List.getElem?_eq_getElem hlt) hj]

/-- No section has a name that begins like a type and number. -/
theorem name_ne_typeRef (hv : pkg.Valid) (hs : s ∈ pkg.sections) (t : List UInt8) (n : Nat) :
    s.name ≠ some (typeRef t n) := by
  intro hname
  have hbyte := nameByte ((hv.sections s hs).name _ hname) AT List.mem_cons_self
  exact hbyte.at' rfl

theorem findSection_name (hv : pkg.Valid) (hi : pkg.sections[i]? = some s) {n : List UInt8}
    (hn : s.name = some n) : findSection pkg n = some i := by
  have hfind : pkg.sections.findIdx? (fun s => decide (s.name = some n)) = some i := by
    refine findIdx?_eq_some_of_unique hi (decide_eq_true hn) ?_
    intro j s' hj hs'
    exact name_inj hv hj hi (of_decide_eq_true hs') hn
  rw [findSection, hfind]

theorem findSection_typeRef (hv : pkg.Valid) (hi : pkg.sections[i]? = some s) :
    findSection pkg (typeRef s.stype (number pkg.sections i s.stype)) = some i := by
  have hnone : pkg.sections.findIdx? (fun s' => decide (s'.name =
      some (typeRef s.stype (number pkg.sections i s.stype)))) = none := by
    refine List.findIdx?_eq_none_iff.mpr fun s' hs' => decide_eq_false ?_
    exact name_ne_typeRef hv hs' _ _
  rw [findSection, hnone]
  refine findIdx?_eq_some_of_unique (typeRefs_getElem? hi) (decide_eq_true rfl) ?_
  intro j r hj hr
  rw [of_decide_eq_true hr] at hj
  exact typeRefs_inj hj (typeRefs_getElem? hi)

/-- The option of a name. -/
theorem find_option (hv : s.Valid) {o : List UInt8} {v : Value} (ho : (o, v) ∈ s.options) :
    s.options.find? (fun o' => decide (o'.1 = o)) = some (o, v) := by
  rcases hf : s.options.find? (fun o' => decide (o'.1 = o)) with _ | ⟨o', v'⟩
  · have hfalse := List.find?_eq_none.mp hf (o, v) ho
    simp at hfalse
  · have hfound := List.find?_some hf
    obtain rfl : o' = o := of_decide_eq_true hfound
    have hmem := List.mem_of_find?_eq_some hf
    exact hf.trans (congrArg some (List.inj_on_of_nodup_map hv.unique hmem ho rfl))

/-- The section at `i` is meant by a reference: by its name, or by its type and number. -/
def Refers (pkg : Package) (i : Nat) (s : Section) (r : List UInt8) : Prop :=
  s.name = some r ∨ r = typeRef s.stype (number pkg.sections i s.stype)

theorem get_spec (hv : pkg.Valid) (hi : pkg.sections[i]? = some s) {ref option : String}
    (hr : Refers pkg i s (utf8 ref)) {v : Value} (ho : (utf8 option, v) ∈ s.options) :
    get pkg ref option = some (getValue v) := by
  have hfind : findSection pkg (utf8 ref) = some i := by
    rcases hr with hn | hr
    · exact findSection_name hv hi hn
    · rw [hr]
      exact findSection_typeRef hv hi
  rw [get, hfind, Option.bind_some, hi]
  dsimp only
  rw [find_option (hv.sections s (List.mem_of_getElem? hi)) ho]
  rfl

end Get

/-! ### The lines of the text -/

/-- The lines of `uci show`, each a key and what follows its `=`. -/
def showItems (package : String) (pkg : Package) : List (List UInt8 × List UInt8) :=
  (pkg.sections.zip (sectionRefs pkg)).flatMap fun sr =>
    (utf8 package ++ DOT :: sr.2, sr.1.stype) ::
      sr.1.options.map fun o => (utf8 package ++ DOT :: (sr.2 ++ DOT :: o.1), renderValue o.2)

theorem renderShow_eq (package : String) (pkg : Package) :
    renderShow package pkg =
      (showItems package pkg).flatMap fun kb => kb.1 ++ EQUALS :: (kb.2 ++ [NEWLINE]) := by
  rw [renderShow, showItems, List.flatMap_assoc]
  congr 1
  funext sr
  rw [List.flatMap_cons, List.flatMap_map]
  simp only [List.append_assoc, List.cons_append]

/-- A line that is read as it was written. -/
structure OnLine (kb : List UInt8 × List UInt8) : Prop where
  key : IsUtf8 kb.1
  body : IsUtf8 kb.2
  keyEquals : EQUALS ∉ kb.1
  keyNewline : NEWLINE ∉ kb.1
  bodyNewline : NEWLINE ∉ kb.2
  bodyEnd : kb.2.getLast? ≠ some RETURN

/-- What is read of a line. -/
def readItem (kb : List UInt8 × List UInt8) : String × String :=
  (fromUtf8Lossy kb.1, String.ofList (unquote (fromUtf8Lossy kb.2).toList))

/-- The characters of a line. -/
def itemChars (kb : List UInt8 × List UInt8) : List Char :=
  (fromUtf8Lossy kb.1).toList ++ '=' :: (fromUtf8Lossy kb.2).toList

theorem OnLine.encode {kb : List UInt8 × List UInt8} (h : OnLine kb) :
    (itemChars kb ++ ['\n']).flatMap String.utf8EncodeChar =
      kb.1 ++ EQUALS :: (kb.2 ++ [NEWLINE]) := by
  have hk : (fromUtf8Lossy kb.1).toList.flatMap String.utf8EncodeChar = kb.1 := h.key.lossy
  have hb : (fromUtf8Lossy kb.2).toList.flatMap String.utf8EncodeChar = kb.2 := h.body.lossy
  have heq : String.utf8EncodeChar '=' = [EQUALS] := by decide
  have hnl : String.utf8EncodeChar '\n' = [NEWLINE] := by decide
  rw [itemChars, List.append_assoc, List.flatMap_append, List.cons_append, List.flatMap_cons,
    List.flatMap_append, List.flatMap_singleton, hk, hb, heq, hnl, List.singleton_append]

/-- A byte of ASCII that is not in the text is no character of it. -/
theorem not_mem_lossy {bs : List UInt8} (h : IsUtf8 bs) {c : Char} (hc : c.toNat < 128)
    (hb : asciiByte c ∉ bs) : c ∉ (fromUtf8Lossy bs).toList := by
  intro hm
  rw [← mem_utf8_ascii hc, h.lossy] at hm
  exact hb hm

theorem OnLine.newline {kb : List UInt8 × List UInt8} (h : OnLine kb) :
    '\n' ∉ itemChars kb := by
  have hk := not_mem_lossy h.key (c := '\n') (by decide) h.keyNewline
  have hb := not_mem_lossy h.body (c := '\n') (by decide) h.bodyNewline
  rw [itemChars, List.mem_append, List.mem_cons, not_or, not_or]
  exact ⟨hk, by decide, hb⟩

theorem OnLine.return {kb : List UInt8 × List UInt8} (h : OnLine kb) :
    (itemChars kb).getLast? ≠ some '\r' := by
  rw [itemChars, List.getLast?_append, List.getLast?_cons]
  intro hlast
  rw [Option.some_or, Option.some.injEq] at hlast
  rcases hb : (fromUtf8Lossy kb.2).toList.getLast? with _ | c
  · rw [hb] at hlast
    exact absurd hlast (by decide)
  · rw [hb, Option.getD_some] at hlast
    subst hlast
    obtain ⟨cs, hcs⟩ := List.getLast?_eq_some_iff.mp hb
    have hbytes : kb.2 = cs.flatMap String.utf8EncodeChar ++ [RETURN] := by
      have hr : String.utf8EncodeChar '\r' = [RETURN] := by decide
      rw [← h.body.lossy, utf8, hcs, List.flatMap_append, List.flatMap_singleton, hr]
    refine h.bodyEnd ?_
    rw [hbytes, List.getLast?_concat]

theorem OnLine.showLine {kb : List UInt8 × List UInt8} (h : OnLine kb) :
    showLine (itemChars kb) = some (readItem kb) := by
  have hk := not_mem_lossy h.key (c := '=') (by decide) h.keyEquals
  have hall : ∀ c ∈ (fromUtf8Lossy kb.1).toList, decide (c ≠ '=') = true := by
    intro c hc
    rw [decide_eq_true_eq]
    rintro rfl
    exact hk hc
  have hsplit : splitOnce (itemChars kb) =
      some ((fromUtf8Lossy kb.1).toList, (fromUtf8Lossy kb.2).toList) := by
    rw [splitOnce, itemChars, List.dropWhile_append_of_pos hall, List.takeWhile_append_of_pos hall]
    simp
  rw [Uci.showLine, hsplit, Option.map_some, String.ofList_toList]
  rfl

/-- **The text is read line by line.** -/
theorem showEntries_items {items : List (List UInt8 × List UInt8)} (h : ∀ kb ∈ items, OnLine kb) :
    showEntries (items.flatMap fun kb => kb.1 ++ EQUALS :: (kb.2 ++ [NEWLINE])) =
      items.map readItem := by
  have hraw : (items.flatMap fun kb => kb.1 ++ EQUALS :: (kb.2 ++ [NEWLINE])) =
      utf8 (String.ofList ((items.map itemChars).flatMap (· ++ ['\n']))) := by
    rw [utf8_ofList, List.flatMap_map, List.flatMap_assoc]
    exact List.flatMap_congr fun kb hkb => (h kb hkb).encode.symm
  have hlines : lines ((items.map itemChars).flatMap (· ++ ['\n'])) = items.map itemChars := by
    refine lines_flatMap ?_ ?_
    · intro l hl
      obtain ⟨kb, hkb, rfl⟩ := List.mem_map.mp hl
      exact (h kb hkb).newline
    · intro l hl
      obtain ⟨kb, hkb, rfl⟩ := List.mem_map.mp hl
      exact (h kb hkb).return
  rw [hraw, showEntries, fromUtf8Lossy_utf8, String.toList_ofList, hlines, List.filterMap_map]
  exact List.filterMap_eq_map_iff_forall_eq_some.mpr fun kb hkb => (h kb hkb).showLine

/-! ### Values on a line -/

def Value.oneLine : Value → Bool
  | .str v => !v.contains NEWLINE
  | .list items => items.all fun v => !v.contains NEWLINE

/-- A value that is text. -/
def Value.Text : Value → Prop
  | .str v => IsUtf8 v
  | .list items => ∀ v ∈ items, IsUtf8 v

def Package.Text (pkg : Package) : Prop := ∀ s ∈ pkg.sections, ∀ o ∈ s.options, o.2.Text

theorem isUtf8_quoteBody {v : List UInt8} (h : IsUtf8 v) : IsUtf8 (quoteBody v) := by
  obtain ⟨w, rfl⟩ := h
  rw [Uci.quoteBody, utf8, List.flatMap_assoc]
  refine IsUtf8.flatMap fun c _ => ?_
  by_cases hc : c = '\''
  · subst hc
    exact ⟨"'\\''", by decide +kernel⟩
  · have hplain : QUOTE ∉ String.utf8EncodeChar c := by
      intro hm
      exact hc ((mem_encode_ascii (c := '\'') (by decide)).mp hm).symm
    have hsame := quoteBody_plain hplain
    rw [Uci.quoteBody] at hsame
    rw [hsame]
    exact ⟨String.ofList [c], by rw [utf8_ofList, List.flatMap_singleton]⟩

theorem isUtf8_quote {v : List UInt8} (h : IsUtf8 v) : IsUtf8 (quote v) := by
  have hq : IsUtf8 [QUOTE] := IsUtf8.byte (by decide)
  exact (hq.append (isUtf8_quoteBody h)).append hq

theorem newline_quote {v : List UInt8} (h : NEWLINE ∉ v) : NEWLINE ∉ quote v := by
  have hbody : NEWLINE ∉ quoteBody v := by
    intro hm
    obtain ⟨c, hc, hm⟩ := List.mem_flatMap.mp hm
    split at hm
    · exact absurd hm (by decide)
    · rw [List.mem_singleton] at hm
      exact h (hm ▸ hc)
  rw [quote, List.cons_append, List.mem_cons, List.mem_append, not_or, not_or]
  exact ⟨by decide, hbody, by decide⟩

/-- What is written for a value. -/
structure Rendered (b : List UInt8) : Prop where
  text : IsUtf8 b
  newline : NEWLINE ∉ b
  last : b.getLast? ≠ some RETURN

theorem rendered_quote {v : List UInt8} (ht : IsUtf8 v) (hn : NEWLINE ∉ v) :
    Rendered (quote v) := by
  refine ⟨isUtf8_quote ht, newline_quote hn, ?_⟩
  rw [quote, List.getLast?_concat]
  decide

theorem rendered_list {items : List (List UInt8)} (ht : ∀ v ∈ items, IsUtf8 v)
    (hn : ∀ v ∈ items, NEWLINE ∉ v) :
    Rendered ((items.map quote).intersperse [SPACE]).flatten := by
  induction items with
  | nil => exact ⟨.nil, List.not_mem_nil, by decide⟩
  | cons v items ih =>
    have hv := rendered_quote (ht v List.mem_cons_self) (hn v List.mem_cons_self)
    cases items with
    | nil => simpa using hv
    | cons u items =>
      have hrest := ih (fun w hw => ht w (List.mem_cons_of_mem _ hw))
        fun w hw => hn w (List.mem_cons_of_mem _ hw)
      have hsep : IsUtf8 [SPACE] := IsUtf8.byte (by decide)
      rw [List.map_cons, List.map_cons, List.intersperse_cons_cons, List.flatten_cons,
        List.flatten_cons, ← List.map_cons]
      refine ⟨hv.text.append (hsep.append hrest.text), ?_, ?_⟩
      · rw [List.mem_append, List.mem_append, not_or, not_or]
        exact ⟨hv.newline, by decide, hrest.newline⟩
      · have hne : ((List.map quote (u :: items)).intersperse [SPACE]).flatten ≠ [] := by
          cases items with
          | nil => simp [quote]
          | cons w items => simp [quote]
        rw [List.getLast?_append_of_ne_nil _ (by simp), List.getLast?_append_of_ne_nil _ hne]
        exact hrest.last

theorem rendered_value {v : Value} (ht : v.Text) (hn : v.oneLine = true) :
    Rendered (renderValue v) := by
  cases v with
  | str v => exact rendered_quote ht (by simpa [Value.oneLine] using hn)
  | list items =>
    rw [Value.oneLine, List.all_eq_true] at hn
    exact rendered_list ht fun v hv => by simpa using hn v hv

/-! ### Every line is read as it was written -/

theorem package_free {package : String} (h : Ubus.validateName package = .ok ()) :
    EQUALS ∉ utf8 package ∧ NEWLINE ∉ utf8 package := by
  unfold Ubus.validateName at h
  split at h
  · cases h
  · rename_i hv
    rw [not_or, not_or, not_not, List.all_eq_true] at hv
    constructor
    · intro hm
      have hc := hv.2.2 _ ((mem_utf8_ascii (c := '=') (by decide) package).mp hm)
      exact absurd hc (by decide)
    · intro hm
      have hc := hv.2.2 _ ((mem_utf8_ascii (c := '\n') (by decide) package).mp hm)
      exact absurd hc (by decide)

/-- A byte that does not end a key or a line. -/
def KeyByte (c : UInt8) : Prop := c < 128 ∧ c ≠ EQUALS ∧ c ≠ NEWLINE

theorem NameByte.key {c : UInt8} (h : NameByte c) : KeyByte c := ⟨h.ascii, h.equals, h.newline⟩

theorem keyByte_typeRef {t : List UInt8} (ht : validateStr t false false = true)
    (he : EQUALS ∉ t) (n : Nat) : ∀ c ∈ typeRef t n, KeyByte c := by
  intro c hc
  simp only [typeRef, List.mem_cons, List.mem_append, List.not_mem_nil, or_false] at hc
  rcases hc with rfl | hc | rfl | hc | rfl
  · exact ⟨by decide, by decide, by decide⟩
  · obtain ⟨hlt, hnl, -⟩ := typeByte ht c hc
    exact ⟨hlt, fun h => he (h ▸ hc), hnl⟩
  · exact ⟨by decide, by decide, by decide⟩
  · obtain ⟨hlt, heq, hnl, -⟩ := digitByte hc
    exact ⟨hlt, heq, hnl⟩
  · exact ⟨by decide, by decide, by decide⟩

theorem keyByte_shown {pkg : Package} (hv : pkg.Valid)
    (he : ∀ s ∈ pkg.sections, s.name = none → EQUALS ∉ s.stype) {s : Section} {r : List UInt8}
    (h : (s, r) ∈ pkg.sections.zip (sectionRefs pkg)) : ∀ c ∈ r, KeyByte c := by
  obtain ⟨i, hi, rfl⟩ := mem_shown h
  have hs := List.mem_of_getElem? hi
  rcases hn : s.name with _ | n
  · exact keyByte_typeRef (hv.sections s hs).stype (he s hs hn) _
  · exact fun c hc => (nameByte ((hv.sections s hs).name n hn) c hc).key

theorem onLine_of_key {package : String} (hp : Ubus.validateName package = .ok ())
    {r b : List UInt8} (hr : ∀ c ∈ r, KeyByte c) (hb : Rendered b) :
    OnLine (utf8 package ++ DOT :: r, b) := by
  obtain ⟨heq, hnl⟩ := package_free hp
  have hdot : ∀ c ∈ DOT :: r, KeyByte c := by
    intro c hc
    rcases List.mem_cons.mp hc with rfl | hc
    · exact ⟨by decide, by decide, by decide⟩
    · exact hr c hc
  refine ⟨?_, hb.text, ?_, ?_, hb.newline, hb.last⟩
  · exact IsUtf8.append ⟨package, rfl⟩ (IsUtf8.ascii fun c hc => (hdot c hc).1)
  · intro hm
    rcases List.mem_append.mp hm with hm | hm
    · exact heq hm
    · exact (hdot _ hm).2.1 rfl
  · intro hm
    rcases List.mem_append.mp hm with hm | hm
    · exact hnl hm
    · exact (hdot _ hm).2.2 rfl

/-- The keys of a package cannot be mistaken and all its values are on one line. -/
structure Package.OneLine (pkg : Package) : Prop where
  values : ∀ s ∈ pkg.sections, ∀ o ∈ s.options, o.2.oneLine = true
  types : ∀ s ∈ pkg.sections, s.name = none → EQUALS ∉ s.stype

theorem onLine_items {package : String} (hp : Ubus.validateName package = .ok ()) {pkg : Package}
    (hv : pkg.Valid) (ht : pkg.Text) (hl : pkg.OneLine) :
    ∀ kb ∈ showItems package pkg, OnLine kb := by
  intro kb hkb
  obtain ⟨⟨s, r⟩, hsr, hkb⟩ := List.mem_flatMap.mp hkb
  have hr := keyByte_shown hv hl.types hsr
  have hs : s ∈ pkg.sections := (List.of_mem_zip hsr).1
  rcases List.mem_cons.mp hkb with rfl | hkb
  · have hbyte := typeByte (hv.sections s hs).stype
    refine onLine_of_key hp hr ⟨IsUtf8.ascii fun c hc => (hbyte c hc).1, ?_, ?_⟩
    · exact fun hm => (hbyte _ hm).2.1 rfl
    · exact fun hlast => (hbyte _ (List.mem_of_getLast? hlast)).2.2 rfl
  · obtain ⟨o, ho, rfl⟩ := List.mem_map.mp hkb
    refine onLine_of_key hp ?_ (rendered_value (ht s hs o ho) (hl.values s hs o ho))
    intro c hc
    rcases List.mem_append.mp hc with hc | hc
    · exact hr c hc
    · rcases List.mem_cons.mp hc with rfl | hc
      · exact ⟨by decide, by decide, by decide⟩
      · exact (nameByte ((hv.sections s hs).optionNames o ho) c hc).key

/-! ### The key of an option -/

theorem utf8_path (package ref option : String) :
    utf8 (path package ref option) =
      utf8 package ++ DOT :: (utf8 ref ++ DOT :: utf8 option) := by
  have hdot : utf8 "." = [DOT] := by decide +kernel
  rw [path, utf8_append, utf8_append, utf8_append, utf8_append, hdot]
  simp only [List.append_assoc, List.cons_append, List.nil_append]

section Key

variable {pkg : Package} {i : Nat} {s : Section}

/-- What a section is called says which it is. -/
theorem shown_inj (hv : pkg.Valid) {j : Nat} {s' : Section} (hi : pkg.sections[i]? = some s)
    (hj : pkg.sections[j]? = some s')
    (h : s.name.getD (typeRef s.stype (number pkg.sections i s.stype)) =
      s'.name.getD (typeRef s'.stype (number pkg.sections j s'.stype))) : i = j := by
  rcases hn : s.name with _ | n
  · rcases hn' : s'.name with _ | n'
    · rw [hn, hn'] at h
      have hr := typeRefs_getElem? hi
      rw [Option.getD_none, Option.getD_none] at h
      rw [h] at hr
      exact typeRefs_inj hr (typeRefs_getElem? hj)
    · rw [hn, hn'] at h
      exact absurd (hn'.trans (congrArg some h.symm))
        (name_ne_typeRef hv (List.mem_of_getElem? hj) _ _)
  · rcases hn' : s'.name with _ | n'
    · rw [hn, hn'] at h
      exact absurd (hn.trans (congrArg some h)) (name_ne_typeRef hv (List.mem_of_getElem? hi) _ _)
    · rw [hn, hn'] at h
      exact name_inj hv hi hj hn (hn'.trans (congrArg some h.symm))

/-- A section is not called like an option. -/
theorem shown_ne_option (hv : pkg.Valid) (hi : pkg.sections[i]? = some s) {r o : List UInt8}
    (ho : validateStr o true false = true) :
    s.name.getD (typeRef s.stype (number pkg.sections i s.stype)) ≠ r ++ DOT :: o := by
  intro h
  rcases hn : s.name with _ | n
  · -- a type and number ends in a bracket, an option does not
    have hlast : (r ++ DOT :: o).getLast? = some RBRACKET := by
      rw [← h, hn, Option.getD_none, typeRef, ← List.cons_append, ← List.cons_append,
        ← List.append_assoc, List.getLast?_concat]
    rw [List.getLast?_append_of_ne_nil _ (List.cons_ne_nil _ _)] at hlast
    rcases List.mem_cons.mp (List.mem_of_getLast? hlast) with hdot | hm
    · exact absurd hdot (by decide)
    · exact (nameByte ho _ hm).bracket rfl
  · rw [hn, Option.getD_some] at h
    have hname := (hv.sections s (List.mem_of_getElem? hi)).name n hn
    have hdot : DOT ∈ n := h ▸ List.mem_append_right r List.mem_cons_self
    exact (nameByte hname DOT hdot).dot rfl

/-- A line under the key of an option belongs to an option of that name, in a section that is
    called so. -/
theorem item_of_key (hv : pkg.Valid) {package : String} {r o : List UInt8}
    (ho : validateStr o true false = true) {kb : List UInt8 × List UInt8}
    (hkb : kb ∈ showItems package pkg) (hkey : kb.1 = utf8 package ++ DOT :: (r ++ DOT :: o)) :
    ∃ (j : Nat) (s' : Section) (v : Value), pkg.sections[j]? = some s' ∧ (o, v) ∈ s'.options ∧
      r = s'.name.getD (typeRef s'.stype (number pkg.sections j s'.stype)) ∧
      kb.2 = renderValue v := by
  obtain ⟨⟨s', r'⟩, hsr, hkb⟩ := List.mem_flatMap.mp hkb
  obtain ⟨j, hj, rfl⟩ := mem_shown hsr
  rcases List.mem_cons.mp hkb with rfl | hkb
  · have heq := (List.cons.inj (List.append_cancel_left hkey)).2
    exact absurd heq (shown_ne_option hv hj ho)
  · obtain ⟨⟨o', v⟩, ho', rfl⟩ := List.mem_map.mp hkb
    have heq := (List.cons.inj (List.append_cancel_left hkey)).2
    have hname := (hv.sections s' (List.mem_of_getElem? hj)).optionNames _ ho'
    obtain ⟨hr, rfl⟩ := append_cons_inj (fun hm => (nameByte hname _ hm).dot rfl)
      (fun hm => (nameByte ho _ hm).dot rfl) heq
    exact ⟨j, s', v, hj, ho', hr.symm, rfl⟩

end Key

/-! ### The map -/

theorem lookup_unique {entries : List (String × String)} {k v : String} (hm : (k, v) ∈ entries)
    (hu : ∀ e ∈ entries, e.1 = k → e.2 = v) :
    (entries.reverse.find? fun e => decide (e.1 = k)).map Prod.snd = some v := by
  rcases hf : entries.reverse.find? (fun e => decide (e.1 = k)) with _ | e
  · have hfalse := List.find?_eq_none.mp hf (k, v) (List.mem_reverse.mpr hm)
    simp at hfalse
  · have hfound := List.find?_some hf
    have hmem := List.mem_reverse.mp (List.mem_of_find?_eq_some hf)
    rw [hf, Option.map_some, hu e hmem (of_decide_eq_true hfound)]

theorem lookup_none {entries : List (String × String)} {k : String}
    (h : ∀ e ∈ entries, e.1 ≠ k) :
    (entries.reverse.find? fun e => decide (e.1 = k)).map Prod.snd = none := by
  have hf : entries.reverse.find? (fun e => decide (e.1 = k)) = none := by
    refine List.find?_eq_none.mpr fun e he => ?_
    rw [decide_eq_true_eq]
    exact h e (List.mem_reverse.mp he)
  rw [hf]
  rfl

theorem unquote_sublist (raw : List Char) : (unquote raw).Sublist raw := by
  unfold unquote
  split
  · rcases hs : stripSuffix '\'' raw.tail with _ | x
    · exact List.Sublist.refl raw
    · exact (stripSuffix_sublist hs).trans (List.tail_sublist raw)
  · exact List.Sublist.refl raw

/-- No value in the map has a newline, whatever the text. -/
theorem uciShowMap_newline {raw : List UInt8} {p v : String} (h : uciShowMap raw p = some v) :
    '\n' ∉ v.toList := by
  obtain ⟨e, he, rfl⟩ := Option.map_eq_some_iff.mp h
  have hmem := List.mem_reverse.mp (List.mem_of_find?_eq_some he)
  obtain ⟨l, hl, hline⟩ := List.mem_filterMap.mp hmem
  obtain ⟨⟨k, r⟩, hsplit, rfl⟩ := Option.map_eq_some_iff.mp hline
  have hsub : r.Sublist l := by
    unfold splitOnce at hsplit
    split at hsplit
    · cases hsplit
    · rename_i c raw' hdrop
      cases hsplit
      exact (List.sublist_cons_self c _).trans (hdrop ▸ List.dropWhile_sublist _)
  dsimp only
  rw [String.toList_ofList]
  exact fun hm => newline_lines hl (hsub.subset ((unquote_sublist r).subset hm))

/-- The outer quotes are taken off. -/
theorem unquote_quote {v : List UInt8} (h : IsUtf8 v) :
    String.ofList (unquote (fromUtf8Lossy (quote v)).toList) = fromUtf8Lossy (quoteBody v) := by
  have hq : utf8 "'" = [QUOTE] := by decide +kernel
  have htext : fromUtf8Lossy (quote v) = "'" ++ fromUtf8Lossy (quoteBody v) ++ "'" := by
    apply utf8_inj
    rw [(isUtf8_quote h).lossy, utf8_append, utf8_append, (isUtf8_quoteBody h).lossy, hq]
    rfl
  have hchars : (fromUtf8Lossy (quote v)).toList =
      '\'' :: ((fromUtf8Lossy (quoteBody v)).toList ++ ['\'']) := by
    rw [htext, String.toList_append, String.toList_append]
    rfl
  rw [hchars, unquote, List.head?_cons, if_pos rfl, List.tail_cons, stripSuffix_append,
    Option.getD_some, String.ofList_toList]

theorem quoteBody_eq_iff (v : List UInt8) : quoteBody v = v ↔ QUOTE ∉ v := by
  have hlen : ∀ v : List UInt8, v.length ≤ (quoteBody v).length := by
    intro v
    induction v with
    | nil => exact le_refl _
    | cons c v ih =>
      rw [quoteBody, List.flatMap_cons, List.length_append]
      have hih : v.length ≤ (v.flatMap fun c =>
          if c = QUOTE then [QUOTE, BACKSLASH, QUOTE, QUOTE] else [c]).length := ih
      split
      · simp only [List.length_cons, List.length_nil]
        omega
      · simp only [List.length_cons, List.length_nil]
        omega
  constructor
  · intro heq hm
    obtain ⟨u, w, rfl⟩ := List.append_of_mem hm
    have hsplit : quoteBody (u ++ QUOTE :: w) =
        quoteBody u ++ (QUOTE :: BACKSLASH :: QUOTE :: QUOTE :: quoteBody w) := by
      rw [quoteBody_append]
      rfl
    have hle := congrArg List.length heq
    rw [hsplit] at hle
    have hu := hlen u
    have hw := hlen w
    simp only [List.length_append, List.length_cons] at hle
    omega
  · exact quoteBody_plain

/-! ### The two readings -/

section Entry

variable {package : String} {pkg : Package} {i : Nat} {s : Section} {ref option : String}

theorem uciShowMap_items (hp : Ubus.validateName package = .ok ()) (hv : pkg.Valid)
    (ht : pkg.Text) (hl : pkg.OneLine) (p : String) :
    uciShowMap (renderShow package pkg) p =
      (((showItems package pkg).map readItem).reverse.find? fun e => decide (e.1 = p)).map
        Prod.snd := by
  rw [uciShowMap, renderShow_eq, showEntries_items (onLine_items hp hv ht hl)]

/-- A section that is called so has one line for the option. -/
theorem uciShowMap_shown (hp : Ubus.validateName package = .ok ()) (hv : pkg.Valid)
    (ht : pkg.Text) (hl : pkg.OneLine) (hi : pkg.sections[i]? = some s)
    (hr : utf8 ref = s.name.getD (typeRef s.stype (number pkg.sections i s.stype))) {v : Value}
    (ho : (utf8 option, v) ∈ s.options) :
    uciShowMap (renderShow package pkg) (path package ref option) =
      some (String.ofList (unquote (fromUtf8Lossy (renderValue v)).toList)) := by
  have hs := hv.sections s (List.mem_of_getElem? hi)
  have hname := hs.optionNames _ ho
  rw [uciShowMap_items hp hv ht hl]
  refine lookup_unique ?_ ?_
  · refine List.mem_map.mpr ⟨(utf8 (path package ref option), renderValue v), ?_, ?_⟩
    · rw [utf8_path]
      refine List.mem_flatMap.mpr ⟨(s, utf8 ref), ?_, ?_⟩
      · refine List.mem_iff_getElem?.mpr ⟨i, List.getElem?_zip_eq_some.mpr ⟨hi, ?_⟩⟩
        rw [sectionRefs_getElem? hi, hr]
      · exact List.mem_cons_of_mem _ (List.mem_map.mpr ⟨_, ho, rfl⟩)
    · rw [readItem, fromUtf8Lossy_utf8]
  · intro e he hkey
    obtain ⟨kb, hkb, rfl⟩ := List.mem_map.mp he
    have hbytes : kb.1 = utf8 (path package ref option) := by
      rw [← hkey]
      exact (onLine_items hp hv ht hl kb hkb).key.lossy.symm
    rw [utf8_path] at hbytes
    obtain ⟨j, s', v', hj, ho', hr', hb⟩ := item_of_key hv hname hkb hbytes
    obtain rfl := shown_inj hv hi hj (hr.symm.trans hr')
    obtain rfl : s = s' := Option.some.inj (hi.symm.trans hj)
    obtain rfl : v = v' :=
      congrArg Prod.snd (Option.some.inj ((find_option hs ho).symm.trans (find_option hs ho')))
    rw [readItem, hb]

/-- Under another reference there is none. -/
theorem uciShowMap_hidden (hp : Ubus.validateName package = .ok ()) (hv : pkg.Valid)
    (ht : pkg.Text) (hl : pkg.OneLine) (hi : pkg.sections[i]? = some s) {n : List UInt8}
    (hn : s.name = some n) (hr : utf8 ref = typeRef s.stype (number pkg.sections i s.stype))
    (ho : validateStr (utf8 option) true false = true) :
    uciShowMap (renderShow package pkg) (path package ref option) = none := by
  rw [uciShowMap_items hp hv ht hl]
  refine lookup_none ?_
  intro e he hkey
  obtain ⟨kb, hkb, rfl⟩ := List.mem_map.mp he
  have hbytes : kb.1 = utf8 (path package ref option) := by
    rw [← hkey]
    exact (onLine_items hp hv ht hl kb hkb).key.lossy.symm
  rw [utf8_path] at hbytes
  obtain ⟨j, s', v', hj, -, hr', -⟩ := item_of_key hv ho hkb hbytes
  rw [hr] at hr'
  rcases hn' : s'.name with _ | n'
  · rw [hn', Option.getD_none] at hr'
    have hi' := typeRefs_getElem? hi
    rw [hr'] at hi'
    obtain rfl := typeRefs_inj hi' (typeRefs_getElem? hj)
    obtain rfl : s = s' := Option.some.inj (hi.symm.trans hj)
    rw [hn] at hn'
    cases hn'
  · rw [hn', Option.getD_some] at hr'
    exact name_ne_typeRef hv (List.mem_of_getElem? hj) _ _ (hn'.trans (congrArg some hr'.symm))

/-- Apart from the option, every value of the package is on one line; and no key can be
    mistaken. -/
structure Package.OneLineBut (pkg : Package) (i : Nat) (option : List UInt8) : Prop where
  values : ∀ (j : Nat) s, pkg.sections[j]? = some s → ∀ o ∈ s.options,
    (j, o.1) ≠ (i, option) → o.2.oneLine = true
  types : ∀ s ∈ pkg.sections, s.name = none → EQUALS ∉ s.stype

theorem Package.OneLineBut.all (h : pkg.OneLineBut i (utf8 option)) (hv : pkg.Valid)
    (hi : pkg.sections[i]? = some s) {v : List UInt8} (ho : (utf8 option, .str v) ∈ s.options)
    (hn : NEWLINE ∉ v) : pkg.OneLine := by
  refine ⟨?_, h.types⟩
  intro s' hs' o ho'
  obtain ⟨j, hj⟩ := List.mem_iff_getElem?.mp hs'
  by_cases heq : (j, o.1) = (i, utf8 option)
  · obtain ⟨rfl, hname⟩ := Prod.mk.inj heq
    obtain rfl : s = s' := Option.some.inj (hi.symm.trans hj)
    have hfound := find_option (hv.sections s hs') ho'
    rw [hname, find_option (hv.sections s hs') ho] at hfound
    have hvalue : o.2 = .str v := (congrArg Prod.snd (Option.some.inj hfound)).symm
    rw [hvalue]
    simpa [Value.oneLine] using hn
  · exact h.values j s' hj o ho' heq

/-- **The two readings of a string agree** exactly when its section is named by the reference
    that is shown and it holds neither a quote nor a newline, in a package whose other values
    are on one line and whose keys cannot be mistaken. -/
theorem show_eq_get_iff {input : List UInt8} (hparse : parse input = .ok pkg)
    (hp : Ubus.validateName package = .ok ()) (ht : pkg.Text)
    (hi : pkg.sections[i]? = some s) (hr : Refers pkg i s (utf8 ref)) {v : List UInt8}
    (ho : (utf8 option, .str v) ∈ s.options) (hl : pkg.OneLineBut i (utf8 option)) :
    uciShowMap (renderShow package pkg) (path package ref option) =
        (get pkg ref option).map fromUtf8Lossy ↔
      (s.name = none ∨ s.name = some (utf8 ref)) ∧ QUOTE ∉ v ∧ NEWLINE ∉ v := by
  have hv := parse_valid hparse
  have hs := List.mem_of_getElem? hi
  have htext : IsUtf8 v := ht s hs _ ho
  have hget : get pkg ref option = some v := get_spec hv hi hr ho
  rw [hget, Option.map_some]
  have hshown : NEWLINE ∉ v → (s.name = none ∨ s.name = some (utf8 ref)) →
      uciShowMap (renderShow package pkg) (path package ref option) =
        some (fromUtf8Lossy (quoteBody v)) := by
    intro hn hname
    have href : utf8 ref = s.name.getD (typeRef s.stype (number pkg.sections i s.stype)) := by
      rcases hname with hname | hname
      · rw [hname]
        exact hr.resolve_left fun h => (by rw [hname] at h; cases h)
      · rw [hname]
        rfl
    rw [uciShowMap_shown hp hv ht (hl.all hv hi ho hn) hi href ho]
    exact congrArg some (unquote_quote htext)
  constructor
  · intro h
    have hn : NEWLINE ∉ v := by
      have hchar := uciShowMap_newline h
      rw [← mem_utf8_ascii (c := '\n') (by decide), htext.lossy] at hchar
      exact hchar
    have hname : s.name = none ∨ s.name = some (utf8 ref) := by
      rcases hr with hname | hr
      · exact .inr hname
      · rcases hname : s.name with _ | n
        · exact .inl rfl
        · have hoption := (hv.sections s hs).optionNames _ ho
          rw [uciShowMap_hidden hp hv ht (hl.all hv hi ho hn) hi hname hr hoption] at h
          cases h
    refine ⟨hname, ?_, hn⟩
    rw [hshown hn hname] at h
    have hsame := congrArg utf8 (Option.some.inj h)
    rw [(isUtf8_quoteBody htext).lossy, htext.lossy] at hsame
    exact (quoteBody_eq_iff v).mp hsame
  · rintro ⟨hname, hq, hn⟩
    rw [hshown hn hname, (quoteBody_eq_iff v).mpr hq]

end Entry

/-- A wireless network with a quote in its name. -/
def quotedSsid : Package :=
  ⟨[{ name := some (utf8 "main"), stype := utf8 "wifi-iface"
      options := [(utf8 "mode", .str (utf8 "a=b")), (utf8 "ssid", .str (utf8 "it's"))] }]⟩

theorem quotedSsid_valid : quotedSsid.Valid := by
  refine ⟨?_, by decide +kernel⟩
  intro s hs
  rw [List.mem_singleton.mp hs]
  exact ⟨by decide +kernel, fun n hn => (by cases hn; decide +kernel), by decide +kernel,
    by decide +kernel, by decide +kernel⟩

theorem parse_quotedSsid : parse (fileText [TAB] quotedSsid) = .ok quotedSsid := by
  rw [parse, if_neg (by simpa using fileText_nul (by decide) quotedSsid_valid)]
  exact lines_sections (by decide) quotedSsid.sections rfl quotedSsid_valid.sections
    quotedSsid_valid.unique rfl

theorem quotedSsid_text : quotedSsid.Text := by
  intro s hs o ho
  rw [List.mem_singleton.mp hs] at ho
  simp only [List.mem_cons, List.not_mem_nil, or_false] at ho
  rcases ho with rfl | rfl
  · exact ⟨"a=b", rfl⟩
  · exact ⟨"it's", rfl⟩

/-- The mode is read alike, though there is a quote in another value. -/
theorem show_eq_get_mode :
    uciShowMap (renderShow "wireless" quotedSsid) (path "wireless" "main" "mode") =
      (get quotedSsid "main" "mode").map fromUtf8Lossy := by
  refine (show_eq_get_iff parse_quotedSsid (by decide +kernel) quotedSsid_text
    (i := 0) rfl (.inl rfl) (v := utf8 "a=b") List.mem_cons_self ⟨?_, ?_⟩).mpr
    ⟨.inr rfl, by decide +kernel, by decide +kernel⟩
  · intro j s hj o ho _
    have hs := List.mem_singleton.mp (List.mem_of_getElem? hj)
    rw [hs] at ho
    simp only [List.mem_cons, List.not_mem_nil, or_false] at ho
    rcases ho with rfl | rfl
    · decide +kernel
    · decide +kernel
  · intro s hs hn
    rw [List.mem_singleton.mp hs] at hn
    cases hn

/-- The name of the network is read with the quote written out. -/
theorem show_ne_get :
    parse (fileText [TAB] quotedSsid) = .ok quotedSsid ∧ quotedSsid.Text ∧
      Ubus.validateName "wireless" = .ok () ∧
      get quotedSsid "main" "ssid" = some (utf8 "it's") ∧
      uciShowMap (renderShow "wireless" quotedSsid) (path "wireless" "main" "ssid") ≠
        (get quotedSsid "main" "ssid").map fromUtf8Lossy :=
  ⟨parse_quotedSsid, quotedSsid_text, by decide +kernel, by decide +kernel, by decide +kernel⟩

end Uci

end Datad
