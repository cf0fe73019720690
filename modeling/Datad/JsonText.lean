/-
  Datad/JsonText.lean
  ===================
  **The text of a JSON value**, as `serde_json::to_string` writes it: without blanks, the
  members of an object in key order.

  How a double is written is a parameter, since the shortest decimal that reads back as
  the double is not computed here.  What a text says is not ambiguous: two values with the
  same text are the same value (`toText_inj`).
-/
import Datad.Lib.Codes
import Datad.Ubus.Blob

namespace Datad

open Codes

/-! ### Characters and numbers -/

def hexDigit (n : Nat) : Char := if n < 10 then Char.ofNat (48 + n) else Char.ofNat (87 + n)

/-- A character of a string literal. -/
def escape (c : Char) : List Char :=
  if c = '"' then ['\\', '"']
  else if c = '\\' then ['\\', '\\']
  else if c = '\x08' then ['\\', 'b']
  else if c = '\x0c' then ['\\', 'f']
  else if c = '\n' then ['\\', 'n']
  else if c = '\r' then ['\\', 'r']
  else if c = '\t' then ['\\', 't']
  else if c.toNat < 32 then
    ['\\', 'u', '0', '0', hexDigit (c.toNat / 16), hexDigit (c.toNat % 16)]
  else [c]

def quoted (s : String) : List Char := '"' :: s.toList.flatMap escape ++ ['"']

def intText : Int → List Char
  | .ofNat n => Nat.toDigits 10 n
  | .negSucc n => '-' :: Nat.toDigits 10 (n + 1)

/-- How doubles are written. -/
abbrev Ryu := UInt64 → List Char

/-- A character that may occur in a number. -/
def numChar (c : Char) : Bool := c.isDigit || ['-', '+', '.', 'e', 'E'].contains c

/-- What is relied on of the texts of finite doubles. -/
structure Ryu.Lawful (ryu : Ryu) : Prop where
  chars : ∀ bits, Ubus.isFinite bits.toNat = true → ∀ c ∈ ryu bits, numChar c = true
  /-- It cannot be taken for an integer. -/
  mark : ∀ bits, Ubus.isFinite bits.toNat = true → '.' ∈ ryu bits ∨ 'e' ∈ ryu bits
  inj : ∀ a b, Ubus.isFinite a.toNat = true → Ubus.isFinite b.toNat = true → ryu a = ryu b → a = b

namespace Value

variable (ryu : Ryu)

def numText : Num → List Char
  | .int i => intText i
  | .float bits => ryu bits

/-! ### Values -/

mutual

def chars : Value → List Char
  | .null => ['n', 'u', 'l', 'l']
  | .bool true => ['t', 'r', 'u', 'e']
  | .bool false => ['f', 'a', 'l', 's', 'e']
  | .num n => numText ryu n
  | .str s => quoted s
  | .arr [] => ['[', ']']
  | .arr (v :: vs) => '[' :: (chars v ++ itemsRest vs)
  | .obj [] => ['\x7b', '\x7d']
  | .obj ((k, v) :: ms) => '\x7b' :: (quoted k ++ ':' :: (chars v ++ membersRest ms))

/-- The items behind the first, with the closing bracket. -/
def itemsRest : List Value → List Char
  | [] => [']']
  | v :: vs => ',' :: (chars v ++ itemsRest vs)

def membersRest : List (String × Value) → List Char
  | [] => ['\x7d']
  | (k, v) :: ms => ',' :: (quoted k ++ ':' :: (chars v ++ membersRest ms))

end

/-- `to_string`. -/
def toText (v : Value) : String := String.ofList (chars ryu v)

mutual

/-- Every double in the value is finite: there are no others in JSON. -/
def Finite : Value → Prop
  | .num (.float bits) => Ubus.isFinite bits.toNat = true
  | .arr items => FiniteItems items
  | .obj members => FiniteMembers members
  | _ => True

def FiniteItems : List Value → Prop
  | [] => True
  | v :: vs => Finite v ∧ FiniteItems vs

def FiniteMembers : List (String × Value) → Prop
  | [] => True
  | (_, v) :: ms => Finite v ∧ FiniteMembers ms

end

end Value

/-! ### Literals are not ambiguous -/

def hexValue (c : Char) : Nat := if c.toNat < 58 then c.toNat - 48 else c.toNat - 87

/-- Reads one character of a string literal. -/
def unescape : List Char → Option (Char × List Char)
  | '\\' :: 'u' :: _ :: _ :: a :: b :: r => some (Char.ofNat (hexValue a * 16 + hexValue b), r)
  | '\\' :: 'b' :: r => some ('\x08', r)
  | '\\' :: 'f' :: r => some ('\x0c', r)
  | '\\' :: 'n' :: r => some ('\n', r)
  | '\\' :: 'r' :: r => some ('\r', r)
  | '\\' :: 't' :: r => some ('\t', r)
  | '\\' :: c :: r => some (c, r)
  | c :: r => some (c, r)
  | [] => none

theorem hexValue_hexDigit : ∀ n < 32, hexValue (hexDigit (n / 16)) * 16 +
    hexValue (hexDigit (n % 16)) = n := by decide

theorem unescape_escape (c : Char) (r : List Char) : unescape (escape c ++ r) = some (c, r) := by
  unfold escape
  split
  · subst_vars; rfl
  split
  · subst_vars; rfl
  split
  · subst_vars; rfl
  split
  · subst_vars; rfl
  split
  · subst_vars; rfl
  split
  · subst_vars; rfl
  split
  · subst_vars; rfl
  split
  · rename_i h
    have hhex := hexValue_hexDigit c.toNat h
    simp [unescape, hhex, Char.ofNat_toNat]
  · rename_i h _ _ _ _ _ _
    simp [unescape, h]

theorem readsOff_escape : ReadsOff (fun _ => True) escape :=
  ReadsOff.of_decoder unescape_escape _

theorem escape_ne_quote (c : Char) (r s : List Char) : escape c ++ r ≠ '"' :: s := by
  unfold escape
  repeat' split
  all_goals simp_all

/-- **A string literal** ends at its second quote. -/
theorem readsOff_quoted (ok : List Char → Prop) : ReadsOff ok quoted := by
  intro a b r s _ _ h
  simp only [quoted, List.cons_append, List.append_assoc, List.cons.injEq, true_and] at h
  obtain ⟨hab, hrs⟩ := flatMap_terminated readsOff_escape escape_ne_quote _ _ _ _ h
  exact ⟨String.toList_inj.mp hab, hrs⟩

theorem numChar_digit {c : Char} (h : c.isDigit = true) : numChar c = true := by simp [numChar, h]

theorem numChar_intText {i : Int} {c : Char} (h : c ∈ intText i) :
    numChar c = true ∧ c ≠ '.' ∧ c ≠ 'e' := by
  have hdigit : ∀ {c : Char}, c.isDigit = true → numChar c = true ∧ c ≠ '.' ∧ c ≠ 'e' := by
    intro c hc
    refine ⟨numChar_digit hc, ?_, ?_⟩
    · rintro rfl
      exact absurd hc (by decide)
    · rintro rfl
      exact absurd hc (by decide)
  cases i with
  | ofNat n => exact hdigit (isDigit_toDigits h)
  | negSucc n =>
    rcases List.mem_cons.mp h with rfl | h
    · decide
    · exact hdigit (isDigit_toDigits h)

theorem intText_inj {i j : Int} (h : intText i = intText j) : i = j := by
  have hminus : ∀ n l, Nat.toDigits 10 n ≠ '-' :: l := by
    intro n l hn
    have hmem : '-' ∈ Nat.toDigits 10 n := by simp [hn]
    exact absurd (isDigit_toDigits hmem) (by decide)
  cases i with
  | ofNat m =>
    cases j with
    | ofNat n => exact congrArg Int.ofNat (toDigits_inj h)
    | negSucc n => exact absurd h (hminus m _)
  | negSucc m =>
    cases j with
    | ofNat n => exact absurd h.symm (hminus n _)
    | negSucc n =>
      have := toDigits_inj (List.cons.inj h).2
      congr 1
      omega

/-! ### Values are not ambiguous -/

namespace Value

/-- What may stand behind a number. -/
def Delimited (r : List Char) : Prop := ∀ c ∈ r.head?, numChar c = false

/-- Which kind of value begins with the character; a number is told by exclusion. -/
def kindOf (c : Char) : Nat :=
  if c = 'n' then 0 else if c = 't' then 1 else if c = 'f' then 2 else if c = '"' then 3
  else if c = '[' then 4 else if c = '\x7b' then 5 else 6

def kind : Value → Nat
  | .null => 0
  | .bool true => 1
  | .bool false => 2
  | .str _ => 3
  | .arr _ => 4
  | .obj _ => 5
  | .num _ => 6

theorem kindOf_numChar {c : Char} (h : numChar c = true) : kindOf c = 6 := by
  unfold kindOf
  repeat' split
  all_goals first | rfl | (subst_vars; exact absurd h (by decide))

section Inj

variable {ryu : Ryu}

theorem numChar_numText (hryu : ryu.Lawful) {n : Num} (hn : (Value.num n).Finite) {c : Char}
    (h : c ∈ numText ryu n) : numChar c = true := by
  cases n with
  | int i => exact (numChar_intText h).1
  | float bits => exact hryu.chars bits hn c h

theorem numText_ne_nil (hryu : ryu.Lawful) {n : Num} (hn : (Value.num n).Finite) :
    numText ryu n ≠ [] := by
  intro h
  cases n with
  | int i =>
    cases i with
    | ofNat n => exact Nat.toDigits_ne_nil h
    | negSucc n => exact List.cons_ne_nil _ _ h
  | float bits =>
    have hmark := hryu.mark bits hn
    rw [show ryu bits = [] from h] at hmark
    simp at hmark

theorem numText_inj (hryu : ryu.Lawful) {m n : Num} (hm : (Value.num m).Finite)
    (hn : (Value.num n).Finite) (h : numText ryu m = numText ryu n) : m = n := by
  have hmark : ∀ i bits, (Value.num (.float bits)).Finite → intText i ≠ ryu bits := by
    intro i bits hfin heq
    rcases hryu.mark bits hfin with hdot | he
    · exact (numChar_intText (heq ▸ hdot)).2.1 rfl
    · exact (numChar_intText (heq ▸ he)).2.2 rfl
  cases m with
  | int i =>
    cases n with
    | int j => exact congrArg Num.int (intText_inj h)
    | float b => exact absurd h (hmark i b hn)
  | float a =>
    cases n with
    | int j => exact absurd h.symm (hmark j a hm)
    | float b => exact congrArg Num.float (hryu.inj a b hm hn h)

/-- The first character tells the kind. -/
theorem kind_head (hryu : ryu.Lawful) {v : Value} (hv : v.Finite) (r : List Char) :
    ∃ c l, chars ryu v ++ r = c :: l ∧ kindOf c = v.kind := by
  cases v with
  | null => exact ⟨_, _, rfl, by decide⟩
  | bool b => cases b <;> exact ⟨_, _, rfl, by decide⟩
  | str s => exact ⟨_, _, rfl, by simp [kindOf, kind]⟩
  | arr items => cases items <;> exact ⟨_, _, rfl, by simp [kindOf, kind]⟩
  | obj members => cases members <;> exact ⟨_, _, rfl, by simp [kindOf, kind]⟩
  | num n =>
    obtain ⟨c, l, hcl⟩ := List.exists_cons_of_ne_nil (numText_ne_nil hryu hv)
    refine ⟨c, l ++ r, by rw [chars, hcl, List.cons_append], ?_⟩
    exact kindOf_numChar (numChar_numText hryu hv (by rw [hcl]; exact List.mem_cons_self))

theorem kind_eq (hryu : ryu.Lawful) {v w : Value} (hv : v.Finite) (hw : w.Finite)
    {r s : List Char} (h : chars ryu v ++ r = chars ryu w ++ s) : v.kind = w.kind := by
  obtain ⟨c, l, hc, hkind⟩ := kind_head hryu hv r
  obtain ⟨d, m, hd, hkind'⟩ := kind_head hryu hw s
  rw [← hkind, ← hkind']
  rw [hc, hd] at h
  exact congrArg kindOf (List.cons.inj h).1

/-- No value begins with a closing bracket. -/
theorem chars_ne_closing (hryu : ryu.Lawful) {v : Value} (hv : v.Finite) (r s : List Char) :
    chars ryu v ++ r ≠ ']' :: s := by
  intro h
  cases v with
  | null => simp [chars] at h
  | bool b => cases b <;> simp [chars] at h
  | str a => simp [chars, quoted] at h
  | arr items => cases items <;> simp [chars] at h
  | obj members => rcases members with _ | ⟨⟨k, v⟩, ms⟩ <;> simp [chars] at h
  | num n =>
    obtain ⟨c, l, hcl⟩ := List.exists_cons_of_ne_nil (numText_ne_nil hryu hv)
    rw [chars, hcl, List.cons_append, List.cons.injEq] at h
    have hnum := numChar_numText hryu hv (c := c) (by rw [hcl]; exact List.mem_cons_self)
    rw [h.1] at hnum
    exact absurd hnum (by decide)

theorem delimited_itemsRest (vs : List Value) (r : List Char) :
    Delimited (itemsRest ryu vs ++ r) := by
  intro c hc
  cases vs with
  | nil =>
      simp only [itemsRest, List.cons_append, List.head?_cons, Option.mem_some_iff] at hc
      exact hc ▸ by decide
  | cons v vs =>
      simp only [itemsRest, List.cons_append, List.head?_cons, Option.mem_some_iff] at hc
      exact hc ▸ by decide

theorem delimited_membersRest (ms : List (String × Value)) (r : List Char) :
    Delimited (membersRest ryu ms ++ r) := by
  intro c hc
  rcases ms with _ | ⟨⟨k, v⟩, ms⟩ <;>
    simp only [membersRest, List.cons_append, List.head?_cons, Option.mem_some_iff] at hc <;>
    exact hc ▸ by decide

mutual

/-- **The text says which value it is**, whatever stands behind it. -/
theorem chars_inj (hryu : ryu.Lawful) : ∀ (v w : Value) (r s : List Char), v.Finite → w.Finite →
    Delimited r → Delimited s → chars ryu v ++ r = chars ryu w ++ s → v = w ∧ r = s
  | .null, w, r, s, hv, hw, _, _, h => by
      have hkind := kind_eq hryu hv hw h
      rcases w with _ | (_ | _) | _ | _ | _ | _ <;> simp [kind] at hkind
      exact ⟨rfl, List.append_cancel_left h⟩
  | .bool b, w, r, s, hv, hw, _, _, h => by
      have hkind := kind_eq hryu hv hw h
      cases b <;> rcases w with _ | (_ | _) | _ | _ | _ | _ <;> simp [kind] at hkind
      · exact ⟨rfl, List.append_cancel_left h⟩
      · exact ⟨rfl, List.append_cancel_left h⟩
  | .num m, w, r, s, hv, hw, hr, hs, h => by
      have hkind := kind_eq hryu hv hw h
      rcases w with _ | (_ | _) | n | _ | _ | _ <;> simp [kind] at hkind
      obtain ⟨hmn, hrs⟩ := run_eq (fun c hc => numChar_numText hryu hv hc)
        (fun c hc => numChar_numText hryu hw hc) hr hs h
      exact ⟨congrArg Value.num (numText_inj hryu hv hw hmn), hrs⟩
  | .str a, w, r, s, hv, hw, _, _, h => by
      have hkind := kind_eq hryu hv hw h
      rcases w with _ | (_ | _) | _ | b | _ | _ <;> simp [kind] at hkind
      obtain ⟨hab, hrs⟩ := readsOff_quoted (fun _ => True) a b r s trivial trivial h
      exact ⟨congrArg Value.str hab, hrs⟩
  | .arr [], w, r, s, hv, hw, _, _, h => by
      have hkind := kind_eq hryu hv hw h
      rcases w with _ | (_ | _) | _ | _ | (_ | ⟨w, ws⟩) | _ <;> simp [kind] at hkind
      · exact ⟨rfl, List.append_cancel_left h⟩
      · simp only [chars, List.cons_append, List.append_assoc, List.cons.injEq, true_and] at h
        exact absurd h.symm (chars_ne_closing hryu hw.1 _ _)
  | .arr (v :: vs), w, r, s, hv, hw, _, _, h => by
      have hkind := kind_eq hryu hv hw h
      rcases w with _ | (_ | _) | _ | _ | (_ | ⟨w, ws⟩) | _ <;> simp [kind] at hkind
      · simp only [chars, List.cons_append, List.append_assoc, List.cons.injEq, true_and] at h
        exact absurd h (chars_ne_closing hryu hv.1 _ _)
      · simp only [chars, List.cons_append, List.append_assoc, List.cons.injEq, true_and] at h
        obtain ⟨rfl, hrest⟩ := chars_inj hryu v w _ _ hv.1 hw.1 (delimited_itemsRest vs r)
          (delimited_itemsRest ws s) h
        obtain ⟨rfl, hrs⟩ := itemsRest_inj hryu vs ws r s hv.2 hw.2 hrest
        exact ⟨rfl, hrs⟩
  | .obj [], w, r, s, hv, hw, _, _, h => by
      have hkind := kind_eq hryu hv hw h
      rcases w with _ | (_ | _) | _ | _ | _ | (_ | ⟨⟨l, w⟩, ns⟩) <;> simp [kind] at hkind
      · exact ⟨rfl, List.append_cancel_left h⟩
      · simp [chars, quoted] at h
  | .obj ((k, v) :: ms), w, r, s, hv, hw, _, _, h => by
      have hkind := kind_eq hryu hv hw h
      rcases w with _ | (_ | _) | _ | _ | _ | (_ | ⟨⟨l, w⟩, ns⟩) <;> simp [kind] at hkind
      · simp [chars, quoted] at h
      · simp only [chars, List.cons_append, List.append_assoc, List.cons.injEq, true_and] at h
        obtain ⟨rfl, hcolon⟩ := readsOff_quoted (fun _ => True) k l _ _ trivial trivial h
        obtain ⟨rfl, hrest⟩ := chars_inj hryu v w _ _ hv.1 hw.1 (delimited_membersRest ms r)
          (delimited_membersRest ns s) (List.cons.inj hcolon).2
        obtain ⟨rfl, hrs⟩ := membersRest_inj hryu ms ns r s hv.2 hw.2 hrest
        exact ⟨rfl, hrs⟩

theorem itemsRest_inj (hryu : ryu.Lawful) : ∀ (vs ws : List Value) (r s : List Char),
    FiniteItems vs → FiniteItems ws → itemsRest ryu vs ++ r = itemsRest ryu ws ++ s →
    vs = ws ∧ r = s
  | [], [], r, s, _, _, h => ⟨rfl, by simpa [itemsRest] using h⟩
  | [], w :: ws, r, s, _, _, h => by simp [itemsRest] at h
  | v :: vs, [], r, s, _, _, h => by simp [itemsRest] at h
  | v :: vs, w :: ws, r, s, hv, hw, h => by
      simp only [itemsRest, List.cons_append, List.append_assoc, List.cons.injEq, true_and] at h
      obtain ⟨rfl, hrest⟩ := chars_inj hryu v w _ _ hv.1 hw.1 (delimited_itemsRest vs r)
        (delimited_itemsRest ws s) h
      obtain ⟨rfl, hrs⟩ := itemsRest_inj hryu vs ws r s hv.2 hw.2 hrest
      exact ⟨rfl, hrs⟩

theorem membersRest_inj (hryu : ryu.Lawful) : ∀ (ms ns : List (String × Value)) (r s : List Char),
    FiniteMembers ms → FiniteMembers ns → membersRest ryu ms ++ r = membersRest ryu ns ++ s →
    ms = ns ∧ r = s
  | [], [], r, s, _, _, h => ⟨rfl, by simpa [membersRest] using h⟩
  | [], (l, w) :: ns, r, s, _, _, h => by simp [membersRest] at h
  | (k, v) :: ms, [], r, s, _, _, h => by simp [membersRest] at h
  | (k, v) :: ms, (l, w) :: ns, r, s, hv, hw, h => by
      simp only [membersRest, List.cons_append, List.append_assoc, List.cons.injEq, true_and] at h
      obtain ⟨rfl, hcolon⟩ := readsOff_quoted (fun _ => True) k l _ _ trivial trivial h
      obtain ⟨rfl, hrest⟩ := chars_inj hryu v w _ _ hv.1 hw.1 (delimited_membersRest ms r)
        (delimited_membersRest ns s) (List.cons.inj hcolon).2
      obtain ⟨rfl, hrs⟩ := membersRest_inj hryu ms ns r s hv.2 hw.2 hrest
      exact ⟨rfl, hrs⟩

end

/-- Two values with the same text are the same. -/
theorem toText_inj (hryu : ryu.Lawful) {v w : Value} (hv : v.Finite) (hw : w.Finite)
    (h : toText ryu v = toText ryu w) : v = w := by
  have hchars : chars ryu v ++ [] = chars ryu w ++ [] := by
    simpa using String.ofList_injective h
  exact (chars_inj hryu v w [] [] hv hw (by simp [Delimited]) (by simp [Delimited]) hchars).1

end Inj

end Value

end Datad
