/-
  Datad/Uci/Addressed.lean
  ========================
  **What was parsed can be addressed** (`section_refs`, `type_refs` and `get`).

  A section has a name or is meant by its type and number, whatever brackets and digits
  are in the type: the number is what stands behind the last `[`, and no name begins with
  an `@`.  So the references of a package are distinct, and each option is found under
  both references of its section.
-/
import Datad.Uci.Show

namespace Datad

namespace Uci

open Bytes

variable {pkg : Package} {i : Nat} {s : Section}

theorem sectionRefs_length (pkg : Package) : (sectionRefs pkg).length = pkg.sections.length := by
  have hlen : ∀ (secs : List Section) (counts : List (List UInt8 × Nat)),
      (typeRefsFrom counts secs).length = secs.length := by
    intro secs
    induction secs with
    | nil =>
      intro counts
      rfl
    | cons s secs ih =>
      intro counts
      rw [typeRefsFrom, List.length_cons, List.length_cons, ih]
  rw [sectionRefs, List.length_map, List.length_zip, typeRefs, hlen, Nat.min_self]

theorem sectionRefs_nodup (hv : pkg.Valid) : (sectionRefs pkg).Nodup := by
  rw [List.nodup_iff_getElem?_ne_getElem?]
  intro i j hij hj heq
  have hj' : j < pkg.sections.length := sectionRefs_length pkg ▸ hj
  have hgetj := List.getElem?_eq_getElem hj'
  have hgeti := List.getElem?_eq_getElem (hij.trans hj')
  rw [sectionRefs_getElem? hgeti, sectionRefs_getElem? hgetj] at heq
  exact absurd (shown_inj hv hgeti hgetj (Option.some.inj heq)) (Nat.ne_of_lt hij)

/-! ### References as texts -/

theorem isUtf8_name {n : List UInt8} (h : validateStr n true false = true) : IsUtf8 n :=
  IsUtf8.ascii fun c hc => (nameByte h c hc).ascii

theorem isUtf8_typeRef {t : List UInt8} (h : validateStr t false false = true) (n : Nat) :
    IsUtf8 (typeRef t n) := by
  refine IsUtf8.ascii ?_
  intro c hc
  simp only [typeRef, List.mem_cons, List.mem_append, List.not_mem_nil, or_false] at hc
  rcases hc with rfl | hc | rfl | hc | rfl
  · decide
  · exact (typeByte h c hc).1
  · decide
  · exact (digitByte hc).1
  · decide

theorem isUtf8_refers (hv : s.Valid) {r : List UInt8} (hr : Refers pkg i s r) : IsUtf8 r := by
  rcases hr with hn | rfl
  · exact isUtf8_name (hv.name r hn)
  · exact isUtf8_typeRef hv.stype _

/-- Both references of a section mean it. -/
theorem refers_of_getElem? (hi : pkg.sections[i]? = some s) {r : List UInt8}
    (hr : (sectionRefs pkg)[i]? = some r ∨ (typeRefs pkg)[i]? = some r) : Refers pkg i s r := by
  rw [sectionRefs_getElem? hi, typeRefs_getElem? hi, Option.some.injEq, Option.some.injEq] at hr
  rcases hr with hr | hr
  · cases hn : s.name with
    | none =>
        rw [hn, Option.getD_none] at hr
        exact .inr hr.symm
    | some n =>
        rw [hn, Option.getD_some] at hr
        exact .inl (hn.trans (congrArg some hr))
  · exact .inr hr.symm

/-- A value that is not empty. -/
def Value.Filled : Value → Prop
  | .str v => v ≠ []
  | .list items => items ≠ []

theorem filled_of_valid {v : Value} (h : v.valid = true) : v.Filled := by
  cases v with
  | str v =>
      rw [Value.valid, Bool.and_eq_true] at h
      rintro rfl
      cases h.1
  | list items =>
      rw [Value.valid, Bool.and_eq_true] at h
      rintro rfl
      cases h.1

/-- **What was parsed is well formed and can be addressed.**  Names are valid and distinct,
    the names of the options of a section too, no value is empty, the references are
    distinct, and under each of the two references of a section, as a text, `get` finds the
    value of each of its options. -/
theorem parse_addressed {input : List UInt8} (h : parse input = .ok pkg) :
    (∀ s ∈ pkg.sections, ∀ n, s.name = some n → validateStr n true false = true) ∧
    (pkg.sections.filterMap (·.name)).Nodup ∧
    (∀ s ∈ pkg.sections, (∀ o ∈ s.options, validateStr o.1 true false = true ∧ o.2.Filled) ∧
      (s.options.map (·.1)).Nodup) ∧
    (sectionRefs pkg).Nodup ∧
    ∀ (i : Nat) (s : Section) (r : List UInt8), pkg.sections[i]? = some s →
      ((sectionRefs pkg)[i]? = some r ∨ (typeRefs pkg)[i]? = some r) → ∀ o ∈ s.options,
        ∃ ref option : String, utf8 ref = r ∧ utf8 option = o.1 ∧
          get pkg ref option = some (getValue o.2) := by
  have hv := parse_valid h
  refine ⟨fun s hs => (hv.sections s hs).name, hv.unique, ?_, sectionRefs_nodup hv, ?_⟩
  · intro s hs
    have hsec := hv.sections s hs
    exact ⟨fun o ho => ⟨hsec.optionNames o ho, filled_of_valid (hsec.values o ho)⟩, hsec.unique⟩
  · intro i s r hi hr o ho
    have hsec := hv.sections s (List.mem_of_getElem? hi)
    have hrefers := refers_of_getElem? hi hr
    obtain ⟨ref, rfl⟩ := isUtf8_refers hsec hrefers
    obtain ⟨option, hoption⟩ := isUtf8_name (hsec.optionNames o ho)
    refine ⟨ref, option, rfl, hoption.symm, ?_⟩
    exact get_spec hv hi hrefers (hoption ▸ ho)

/-- The named network is found under its type and number as well. -/
theorem parse_addressed_ssid :
    parse (fileText [TAB] quotedSsid) = .ok quotedSsid ∧
    ∃ ref option : String, utf8 ref = utf8 "@wifi-iface[0]" ∧ utf8 option = utf8 "ssid" ∧
      get quotedSsid ref option = some (utf8 "it's") := by
  refine ⟨parse_quotedSsid, ?_⟩
  have h := (parse_addressed parse_quotedSsid).2.2.2.2
  exact h 0 _ (utf8 "@wifi-iface[0]") rfl (.inr (by decide +kernel)) (utf8 "ssid", _)
    (List.mem_cons_of_mem _ List.mem_cons_self)

end Uci

end Datad
