/-
  Datad/Ubus/Compare.lean
  =======================
  **The socket backend compared with the command line: `diff` of `ubus/compare.rs`.**

  A call is made three times, over the socket, by `ubus call` and over the socket again,
  and `walk` goes down the three answers at once.  What it counts as changed, as another
  shape and as a mismatch depends on which of the three disagree.

  The doubles are a parameter: `Doubles` is what the comparison asks of `f64`.
-/
import Datad.Json
import Mathlib.Data.List.Dedup
import Mathlib.Data.String.Basic

namespace Datad.Compare

/-- `f64`, as far as the six decimals of the command line need it. -/
structure Doubles (F : Type) where
  ofInt : Int → F
  ofBits : UInt64 → F
  sub : F → F → F
  abs : F → F
  le : F → F → Bool
  /-- `1e-6` -/
  millionth : F

variable {F : Type} (fl : Doubles F)

/-! ### The comparison -/

structure Diff where
  values : Nat := 0
  changed : Nat := 0
  precision : Nat := 0
  shape : List String := []
  mismatch : List String := []
deriving DecidableEq

def Diff.same (d : Diff) : Bool := d.shape.isEmpty && d.mismatch.isEmpty

def kind : Value → Nat
  | .null => 0
  | .bool _ => 1
  | .num _ => 2
  | .str _ => 3
  | .arr _ => 4
  | .obj _ => 5

/-- `v.get(key)` of an object. -/
def get (members : List (String × Value)) (key : String) : Option Value :=
  (members.find? fun p => p.1 = key).map Prod.snd

/-- The keys of the three objects, in order. -/
def keys (a c b : List (String × Value)) : List String :=
  ((a ++ c ++ b).map Prod.fst).dedup.mergeSort fun x y => decide (x ≤ y)

/-- A path segment: what is no identifier is not shown. -/
def join (path key : String) : String :=
  let plain := (key.toList.head?.any fun c => c.isAlpha || c = '_') &&
    key.toList.all fun c => c.isAlphanum || c = '_' || c = '-'
  let seg := if plain then key else "<key>"
  if path = "" then seg else path ++ "." ++ seg

def label (path : String) : String := if path = "" then "(top)" else path

/-- Zeros of either sign are equal, and other doubles where their bits are. -/
def Num.same : Num → Num → Bool
  | .int i, .int j => i = j
  | .float x, .float y =>
      x = y || ((x = 0 || x = 0x8000000000000000) && (y = 0 || y = 0x8000000000000000))
  | _, _ => false

/-- `==` of values that are no arrays or objects. -/
def leafEq : Value → Value → Bool
  | .null, .null => true
  | .bool a, .bool b => a = b
  | .num a, .num b => Num.same a b
  | .str a, .str b => a = b
  | _, _ => false

def asF64 : Value → Option F
  | .num (.int i) => some (fl.ofInt i)
  | .num (.float bits) => some (fl.ofBits bits)
  | _ => none

def isFloat : Value → Bool
  | .num (.float _) => true
  | _ => false

def withinCliDecimals (a b : Value) : Bool :=
  match asF64 fl a, asF64 fl b with
  | some x, some y => (isFloat a || isFloat b) && fl.le (fl.abs (fl.sub x y)) fl.millionth
  | _, _ => false

def leaf (d : Diff) (path : String) (s1 c s2 : Value) : Diff :=
  let d := { d with values := d.values + 1 }
  if !leafEq s1 s2 then { d with changed := d.changed + 1 }
  else if !leafEq c s1 then
    if withinCliDecimals fl s1 c then { d with precision := d.precision + 1 }
    else { d with mismatch := d.mismatch ++ [label path] }
  else d

theorem get_sizeOf {members : List (String × Value)} {key : String} {v : Value}
    (h : get members key = some v) : sizeOf v < sizeOf (Value.obj members) := by
  obtain ⟨p, hp, rfl⟩ := Option.map_eq_some_iff.1 h
  have hmem := List.sizeOf_lt_of_mem (List.mem_of_find?_eq_some hp)
  cases p
  simp only [Prod.mk.sizeOf_spec, Value.obj.sizeOf_spec] at hmem ⊢
  omega

def walk (d : Diff) (path : String) (s1 c s2 : Value) : Diff :=
  if kind s1 ≠ kind s2 then { d with changed := d.changed + 1 }
  else if kind c ≠ kind s1 then { d with shape := d.shape ++ [label path] }
  else
    match s1, c, s2 with
    | .obj a, .obj cm, .obj b =>
        (keys a cm b).foldl
          (fun d key =>
            let p := join path key
            match _ha : get a key, get cm key, get b key with
            | some x, some y, some z => walk d p x y z
            | some _, none, some _ => { d with shape := d.shape ++ [label p] }
            | none, some _, none => { d with shape := d.shape ++ [label p] }
            | _, _, _ => { d with changed := d.changed + 1 }) d
    | .arr a, .arr ca, .arr b =>
        if a.length ≠ b.length then { d with changed := d.changed + 1 }
        else if ca.length ≠ a.length then { d with shape := d.shape ++ [label path] }
        else
          ((a.attach.zip ca).zip b).zipIdx.foldl
            (fun d t => walk d (path ++ "[" ++ toString t.2 ++ "]") t.1.1.1.1 t.1.1.2 t.1.2) d
    | s1, c, s2 => leaf fl d path s1 c s2
termination_by sizeOf s1
decreasing_by
  · exact get_sizeOf _ha
  · have hmem := List.sizeOf_lt_of_mem t.1.1.1.2
    simp only [Value.arr.sizeOf_spec]
    omega

def diff (s1 cli s2 : Value) : Diff := walk fl {} "" s1 cli s2

/-! ### What the answers have in common -/

/-- The same structure, with leaves that are related: the kinds, the lengths of arrays and
    the keys of objects agree. -/
inductive Agree (R : Value → Value → Prop) : Value → Value → Prop where
  | leaf {a b : Value} (hleaf : kind a < 4) (hkind : kind a = kind b) (h : R a b) : Agree R a b
  | arr {as bs : List Value} (hlen : as.length = bs.length)
      (h : ∀ (i : Nat) (a b : Value), as[i]? = some a → bs[i]? = some b → Agree R a b) :
      Agree R (.arr as) (.arr bs)
  | obj {as bs : List (String × Value)} (hkeys : ∀ k, (get as k).isSome = (get bs k).isSome)
      (h : ∀ k a b, get as k = some a → get bs k = some b → Agree R a b) :
      Agree R (.obj as) (.obj bs)

/-- `==` of values. -/
def Equal : Value → Value → Prop := Agree fun a b => leafEq a b = true

/-- Every leaf of the second is that of the first, or within the decimals of the command
    line of it. -/
def Close (a c : Value) : Prop :=
  Agree (fun a c => leafEq c a = true ∨ withinCliDecimals fl a c = true) a c

/-- Nothing changed, and nothing is equal within six decimals only. -/
def Diff.Exact (d : Diff) : Prop := d.same = true ∧ d.changed = 0 ∧ d.precision = 0

variable {R : Value → Value → Prop} {a b c : Value}

theorem Agree.kind_eq (h : Agree R a b) : kind a = kind b := by
  cases h with
  | leaf _ hkind _ => exact hkind
  | arr _ _ => rfl
  | obj _ _ => rfl

theorem agree_leaf_iff (ha : kind a < 4) : Agree R a b ↔ kind a = kind b ∧ R a b := by
  constructor
  · intro h
    cases h with
    | leaf _ hkind h => exact ⟨hkind, h⟩
    | arr _ _ => exact absurd ha (by simp [kind])
    | obj _ _ => exact absurd ha (by simp [kind])
  · rintro ⟨hkind, h⟩
    exact .leaf ha hkind h

theorem agree_arr_iff {as bs : List Value} :
    Agree R (.arr as) (.arr bs) ↔ as.length = bs.length ∧
      ∀ (i : Nat) (a b : Value), as[i]? = some a → bs[i]? = some b → Agree R a b := by
  constructor
  · intro h
    cases h with
    | leaf hleaf _ _ => exact absurd hleaf (by simp [kind])
    | arr hlen h => exact ⟨hlen, h⟩
  · rintro ⟨hlen, h⟩
    exact .arr hlen h

theorem agree_obj_iff {as bs : List (String × Value)} :
    Agree R (.obj as) (.obj bs) ↔ ∀ k, (get as k).isSome = (get bs k).isSome ∧
      ∀ a b, get as k = some a → get bs k = some b → Agree R a b := by
  constructor
  · intro h
    cases h with
    | leaf hleaf _ _ => exact absurd hleaf (by simp [kind])
    | obj hkeys h => exact fun k => ⟨hkeys k, h k⟩
  · intro h
    exact .obj (fun k => (h k).1) fun k => (h k).2

theorem Agree.symm (hR : ∀ {a b}, R a b → R b a) (h : Agree R a b) : Agree R b a := by
  induction h with
  | leaf hleaf hkind h => exact .leaf (hkind ▸ hleaf) hkind.symm (hR h)
  | arr hlen _ ih => exact .arr hlen.symm fun i a b ha hb => ih i b a hb ha
  | obj hkeys _ ih => exact .obj (fun k => (hkeys k).symm) fun k a b ha hb => ih k b a hb ha

theorem Agree.trans (hR : ∀ {a b c}, R a b → R b c → R a c) (h : Agree R a b) :
    ∀ {c}, Agree R b c → Agree R a c := by
  induction h with
  | leaf hleaf hkind h =>
      intro c hbc
      obtain ⟨hkind', h'⟩ := (agree_leaf_iff (hkind ▸ hleaf)).1 hbc
      exact .leaf hleaf (hkind.trans hkind') (hR h h')
  | @arr as bs hlen _ ih =>
      intro c hbc
      cases hbc with
      | leaf hleaf _ _ => exact absurd hleaf (by simp [kind])
      | @arr _ cs hlen' h' =>
          refine .arr (hlen.trans hlen') ?_
          intro i x z hx hz
          obtain ⟨hi, -⟩ := List.getElem?_eq_some_iff.1 hx
          have hy : bs[i]? = some bs[i] := List.getElem?_eq_getElem (hlen ▸ hi)
          exact ih i x _ hx hy (h' i _ z hy hz)
  | @obj as bs hkeys _ ih =>
      intro c hbc
      cases hbc with
      | leaf hleaf _ _ => exact absurd hleaf (by simp [kind])
      | @obj _ cs hkeys' h' =>
          refine .obj (fun k => (hkeys k).trans (hkeys' k)) ?_
          intro k x z hx hz
          have hsome : (get bs k).isSome = true := by
            rw [← hkeys k, hx]
            rfl
          obtain ⟨y, hy⟩ := Option.isSome_iff_exists.1 hsome
          exact ih k x y hx hy (h' k y z hy hz)

theorem Num.same_iff {m n : Num} :
    Num.same m n = true ↔ m = n ∨ ∃ x y, m = .float x ∧ n = .float y ∧
      (x = 0 ∨ x = 0x8000000000000000) ∧ (y = 0 ∨ y = 0x8000000000000000) := by
  cases m with
  | int i =>
      cases n with
      | int j => simp [Num.same]
      | float y => simp [Num.same]
  | float x =>
      cases n with
      | int j => simp [Num.same]
      | float y => simp [Num.same]

theorem Num.same_symm {m n : Num} (h : Num.same m n = true) : Num.same n m = true := by
  rw [Num.same_iff] at h ⊢
  rcases h with rfl | ⟨x, y, hm, hn, hx, hy⟩
  · exact .inl rfl
  · exact .inr ⟨y, x, hn, hm, hy, hx⟩

theorem Num.same_trans {m n o : Num} (h : Num.same m n = true) (h' : Num.same n o = true) :
    Num.same m o = true := by
  rw [Num.same_iff] at h h' ⊢
  rcases h with rfl | ⟨x, y, hm, hn, hx, hy⟩
  · exact h'
  · rcases h' with rfl | ⟨y', z, hn', ho, -, hz⟩
    · exact .inr ⟨x, y, hm, hn, hx, hy⟩
    · exact .inr ⟨x, z, hm, ho, hx, hz⟩

theorem leafEq_symm (h : leafEq a b = true) : leafEq b a = true := by
  cases a <;> cases b <;> try cases h
  · rfl
  · simpa [leafEq, eq_comm] using h
  · exact Num.same_symm h
  · simpa [leafEq, eq_comm] using h

theorem leafEq_trans (h : leafEq a b = true) (h' : leafEq b c = true) : leafEq a c = true := by
  cases a <;> cases b <;> try cases h
  all_goals cases c <;> try cases h'
  · rfl
  · simp only [leafEq, decide_eq_true_eq] at h h' ⊢
    exact h.trans h'
  · exact Num.same_trans h h'
  · simp only [leafEq, decide_eq_true_eq] at h h' ⊢
    exact h.trans h'

theorem Equal.symm (h : Equal a b) : Equal b a := Agree.symm leafEq_symm h

theorem leafEq_refl (ha : kind a < 4) : leafEq a a = true := by
  cases a with
  | null => rfl
  | bool _ => simp [leafEq]
  | num n => exact Num.same_iff.2 (.inl rfl)
  | str _ => simp [leafEq]
  | arr _ => exact absurd ha (by simp [kind])
  | obj _ => exact absurd ha (by simp [kind])

theorem Equal.trans (h : Equal a b) (h' : Equal b c) : Equal a c :=
  Agree.trans (R := fun a b => leafEq a b = true) leafEq_trans h h'

/-! ### One turn of the walk -/

/-- What holds of a value if it holds of what it is made of. -/
theorem value_induction {P : Value → Prop} (leaf : ∀ v, kind v < 4 → P v)
    (arr : ∀ items : List Value, (∀ v ∈ items, P v) → P (.arr items))
    (obj : ∀ members : List (String × Value), (∀ k v, get members k = some v → P v) →
      P (.obj members)) : ∀ v, P v
  | .null => leaf _ (by simp [kind])
  | .bool _ => leaf _ (by simp [kind])
  | .num _ => leaf _ (by simp [kind])
  | .str _ => leaf _ (by simp [kind])
  | .arr items => arr items fun v hv => value_induction leaf arr obj v
  | .obj members => obj members fun k v hv => value_induction leaf arr obj v
termination_by v => sizeOf v
decreasing_by
  · have hmem := List.sizeOf_lt_of_mem hv
    simp only [Value.arr.sizeOf_spec]
    omega
  · exact get_sizeOf hv

theorem Equal.refl (v : Value) : Equal v v := by
  induction v using value_induction with
  | leaf v hv => exact .leaf hv rfl (leafEq_refl hv)
  | arr items ih =>
      refine .arr rfl ?_
      intro i a b ha hb
      obtain rfl : a = b := Option.some.inj (ha.symm.trans hb)
      exact ih a (List.mem_of_getElem? ha)
  | obj members ih =>
      refine .obj (fun _ => rfl) ?_
      intro k a b ha hb
      obtain rfl : a = b := Option.some.inj (ha.symm.trans hb)
      exact ih k a ha

/-- A loop each of whose turns keeps a property exactly if `Q` holds of it. -/
theorem foldl_iff {ι : Type} {P : Diff → Prop} {Q : ι → Prop} {f : Diff → ι → Diff} {l : List ι}
    (h : ∀ d, ∀ i ∈ l, P (f d i) ↔ P d ∧ Q i) (d : Diff) :
    P (l.foldl f d) ↔ P d ∧ ∀ i ∈ l, Q i := by
  induction l generalizing d with
  | nil => simp
  | cons i l ih =>
    rw [List.foldl_cons, ih fun d j hj => h d j (List.mem_cons_of_mem i hj),
      h d i List.mem_cons_self, List.forall_mem_cons, and_assoc]

variable {fl} {d : Diff} {path : String} {s1 s2 : Value}

theorem walk_changed (h : kind s1 ≠ kind s2) :
    walk fl d path s1 c s2 = { d with changed := d.changed + 1 } := by
  rw [walk.eq_def, if_pos h]

theorem walk_shape (h : kind s1 = kind s2) (hc : kind c ≠ kind s1) :
    walk fl d path s1 c s2 = { d with shape := d.shape ++ [label path] } := by
  rw [walk.eq_def, if_neg (not_not.2 h), if_pos hc]

theorem walk_leaf (hs : kind s1 < 4) (h : kind s1 = kind s2) (hc : kind c = kind s1) :
    walk fl d path s1 c s2 = leaf fl d path s1 c s2 := by
  rw [walk.eq_def, if_neg (not_not.2 h), if_neg (not_not.2 hc)]
  cases s1 with
  | arr _ => exact absurd hs (by simp [kind])
  | obj _ => exact absurd hs (by simp [kind])
  | _ => rfl

/-- A turn of the loop over the keys. -/
def member (fl : Doubles F) (d : Diff) (path : String) (a cm b : List (String × Value))
    (key : String) : Diff :=
  match get a key, get cm key, get b key with
  | some x, some y, some z => walk fl d (join path key) x y z
  | some _, none, some _ => { d with shape := d.shape ++ [label (join path key)] }
  | none, some _, none => { d with shape := d.shape ++ [label (join path key)] }
  | _, _, _ => { d with changed := d.changed + 1 }

theorem walk_obj {as cs bs : List (String × Value)} :
    walk fl d path (.obj as) (.obj cs) (.obj bs) =
      (keys as cs bs).foldl (fun d key => member fl d path as cs bs key) d := by
  have hkind : kind (Value.obj as) = kind (Value.obj bs) := rfl
  have hkind' : kind (Value.obj cs) = kind (Value.obj as) := rfl
  rw [walk.eq_def, if_neg (not_not.2 hkind), if_neg (not_not.2 hkind')]
  dsimp only
  congr 1
  funext d key
  rw [member]
  split
  all_goals simp_all only

theorem zipIdx_attach (as cs bs : List Value) :
    ((as.zip cs).zip bs).zipIdx =
      (((as.attach.zip cs).zip bs).zipIdx).map fun t => (((t.1.1.1.1, t.1.1.2), t.1.2), t.2) := by
  have hzip : (as.zip cs).zip bs =
      ((as.attach.zip cs).zip bs).map fun t => ((t.1.1.1, t.1.2), t.2) :=
    calc
      (as.zip cs).zip bs = ((as.attach.map Subtype.val).zip cs).zip bs := by
        rw [List.attach_map_subtype_val]
      _ = _ := by
        rw [List.zip_map_left, List.zip_map_left]
        rfl
  rw [hzip, List.zipIdx_map]
  rfl

theorem walk_arr_eq {as cs bs : List Value} :
    walk fl d path (.arr as) (.arr cs) (.arr bs) =
      if as.length ≠ bs.length then { d with changed := d.changed + 1 }
      else if cs.length ≠ as.length then { d with shape := d.shape ++ [label path] }
      else ((as.zip cs).zip bs).zipIdx.foldl
        (fun d t => walk fl d (path ++ "[" ++ toString t.2 ++ "]") t.1.1.1 t.1.1.2 t.1.2) d := by
  have hkind : kind (Value.arr as) = kind (Value.arr bs) := rfl
  have hkind' : kind (Value.arr cs) = kind (Value.arr as) := rfl
  rw [walk.eq_def, if_neg (not_not.2 hkind), if_neg (not_not.2 hkind')]
  dsimp only
  rw [zipIdx_attach, List.foldl_map]

theorem walk_arr {as cs bs : List Value} (h : as.length = bs.length)
    (hc : cs.length = as.length) :
    walk fl d path (.arr as) (.arr cs) (.arr bs) = ((as.zip cs).zip bs).zipIdx.foldl
      (fun d t => walk fl d (path ++ "[" ++ toString t.2 ++ "]") t.1.1.1 t.1.1.2 t.1.2) d := by
  rw [walk_arr_eq, if_neg (not_not.2 h), if_neg (not_not.2 hc)]

theorem walk_arr_changed {as cs bs : List Value} (h : as.length ≠ bs.length) :
    walk fl d path (.arr as) (.arr cs) (.arr bs) = { d with changed := d.changed + 1 } := by
  rw [walk_arr_eq, if_pos h]

theorem walk_arr_shape {as cs bs : List Value} (h : as.length = bs.length)
    (hc : cs.length ≠ as.length) :
    walk fl d path (.arr as) (.arr cs) (.arr bs) =
      { d with shape := d.shape ++ [label path] } := by
  rw [walk_arr_eq, if_neg (not_not.2 h), if_pos hc]

theorem mem_zip3 {as cs bs : List Value} {t : ((Value × Value) × Value) × Nat} :
    t ∈ ((as.zip cs).zip bs).zipIdx ↔
      as[t.2]? = some t.1.1.1 ∧ cs[t.2]? = some t.1.1.2 ∧ bs[t.2]? = some t.1.2 := by
  rw [List.mem_zipIdx_iff_getElem?, List.getElem?_zip_eq_some, List.getElem?_zip_eq_some, and_assoc]

theorem mem_keys {as cs bs : List (String × Value)} {key : String} :
    key ∈ keys as cs bs ↔
      (get as key).isSome = true ∨ (get cs key).isSome = true ∨ (get bs key).isSome = true := by
  have hget : ∀ l : List (String × Value), (get l key).isSome = true ↔ key ∈ l.map Prod.fst := by
    intro l
    rw [get, Option.isSome_map, List.find?_isSome, List.mem_map]
    constructor
    · rintro ⟨p, hp, hkey⟩
      exact ⟨p, hp, of_decide_eq_true hkey⟩
    · rintro ⟨p, hp, rfl⟩
      exact ⟨p, hp, decide_eq_true rfl⟩
  rw [keys, List.mem_mergeSort, List.mem_dedup, hget, hget, hget, List.map_append,
    List.map_append, List.mem_append, List.mem_append, or_assoc]

/-! ### The three answers equal -/

theorem exact_changed : ¬({ d with changed := d.changed + 1 } : Diff).Exact := by
  rintro ⟨-, h, -⟩
  cases h

theorem same_shape (l : String) :
    ({ d with shape := d.shape ++ [l] } : Diff).same = false := by
  simp [Diff.same]

theorem exact_shape (l : String) : ¬({ d with shape := d.shape ++ [l] } : Diff).Exact := by
  rintro ⟨h, -⟩
  rw [same_shape] at h
  cases h

theorem leaf_exact : (leaf fl d path s1 c s2).Exact ↔
    d.Exact ∧ leafEq s1 s2 = true ∧ leafEq s1 c = true := by
  have hsymm : leafEq c s1 = true ↔ leafEq s1 c = true := ⟨leafEq_symm, leafEq_symm⟩
  rw [← hsymm, leaf]
  cases hs : leafEq s1 s2 with
  | false => simp [Diff.Exact]
  | true =>
      cases hc : leafEq c s1 with
      | true => simp [Diff.Exact, Diff.same]
      | false =>
          cases hw : withinCliDecimals fl s1 c with
          | true => simp [Diff.Exact]
          | false => simp [Diff.Exact, Diff.same]

theorem eq_arr_of_kind {v : Value} {as : List Value} (h : kind v = kind (.arr as)) :
    ∃ bs, v = .arr bs := by
  cases v with
  | arr bs => exact ⟨bs, rfl⟩
  | _ => cases h

theorem eq_obj_of_kind {v : Value} {as : List (String × Value)} (h : kind v = kind (.obj as)) :
    ∃ bs, v = .obj bs := by
  cases v with
  | obj bs => exact ⟨bs, rfl⟩
  | _ => cases h

theorem equal_leaf_iff (hs : kind s1 < 4) :
    Equal s1 c ↔ kind s1 = kind c ∧ leafEq s1 c = true := agree_leaf_iff hs

theorem equal_arr_iff {as bs : List Value} :
    Equal (.arr as) (.arr bs) ↔ as.length = bs.length ∧
      ∀ (i : Nat) (a b : Value), as[i]? = some a → bs[i]? = some b → Equal a b := agree_arr_iff

theorem equal_obj_iff {as bs : List (String × Value)} :
    Equal (.obj as) (.obj bs) ↔ ∀ k, (get as k).isSome = (get bs k).isSome ∧
      ∀ a b, get as k = some a → get bs k = some b → Equal a b := agree_obj_iff

/-- What a loop over three arrays of one length asks of each turn. -/
theorem forall_mem_zip3 {as cs bs : List Value} (hb : as.length = bs.length)
    (hc : cs.length = as.length) (T U : Value → Value → Prop) :
    (∀ t ∈ ((as.zip cs).zip bs).zipIdx, T t.1.1.1 t.1.2 ∧ U t.1.1.1 t.1.1.2) ↔
      (∀ (i : Nat) (x z : Value), as[i]? = some x → bs[i]? = some z → T x z) ∧
      (∀ (i : Nat) (x y : Value), as[i]? = some x → cs[i]? = some y → U x y) := by
  constructor
  · intro h
    constructor
    · intro i x z hx hz
      obtain ⟨hi, -⟩ := List.getElem?_eq_some_iff.1 hx
      have hy : cs[i]? = some cs[i] := List.getElem?_eq_getElem (hc ▸ hi)
      exact (h (((x, _), z), i) (mem_zip3.2 ⟨hx, hy, hz⟩)).1
    · intro i x y hx hy
      obtain ⟨hi, -⟩ := List.getElem?_eq_some_iff.1 hx
      have hz : bs[i]? = some bs[i] := List.getElem?_eq_getElem (hb ▸ hi)
      exact (h (((x, y), _), i) (mem_zip3.2 ⟨hx, hy, hz⟩)).2
  · rintro ⟨hT, hU⟩ t ht
    obtain ⟨hx, hy, hz⟩ := mem_zip3.1 ht
    exact ⟨hT t.2 _ _ hx hz, hU t.2 _ _ hx hy⟩

/-- Two objects at one key. -/
def AtKey (T : Value → Value → Prop) (as bs : List (String × Value)) (k : String) : Prop :=
  (get as k).isSome = (get bs k).isSome ∧
    ∀ a b, get as k = some a → get bs k = some b → T a b

theorem atKey_some {T : Value → Value → Prop} {as bs : List (String × Value)} {k : String}
    {x y : Value} (hx : get as k = some x) (hy : get bs k = some y) :
    AtKey T as bs k ↔ T x y := by
  constructor
  · intro h
    exact h.2 x y hx hy
  · intro h
    refine ⟨by rw [hx, hy]; rfl, ?_⟩
    intro a b ha hb
    rw [hx] at ha
    rw [hy] at hb
    cases ha
    cases hb
    exact h

theorem atKey_none {T : Value → Value → Prop} {as bs : List (String × Value)} {k : String}
    (hx : get as k = none) (hy : get bs k = none) : AtKey T as bs k := by
  refine ⟨by rw [hx, hy], ?_⟩
  intro a b ha
  rw [hx] at ha
  cases ha

theorem not_atKey {T : Value → Value → Prop} {as bs : List (String × Value)} {k : String}
    (h : (get as k).isSome ≠ (get bs k).isSome) : ¬AtKey T as bs k := fun hat => h hat.1

/-- A key that none of the three has plays no part. -/
theorem forall_mem_keys {as cs bs : List (String × Value)} {Q : String → Prop}
    (hQ : ∀ k, get as k = none → get cs k = none → get bs k = none → Q k) :
    (∀ k ∈ keys as cs bs, Q k) ↔ ∀ k, Q k := by
  constructor
  · intro h k
    by_cases hk : k ∈ keys as cs bs
    · exact h k hk
    · rw [mem_keys, not_or, not_or] at hk
      obtain ⟨ha, hc, hb⟩ := hk
      rw [Bool.not_eq_true, Option.isSome_eq_false_iff, Option.isNone_iff_eq_none] at ha hc hb
      exact hQ k ha hc hb
  · intro h k _
    exact h k

theorem member_exact {as cs bs : List (String × Value)} {k : String}
    (hk : k ∈ keys as cs bs)
    (ih : ∀ v, get as k = some v → ∀ (d : Diff) (path : String) (c s2 : Value),
      (walk fl d path v c s2).Exact ↔ d.Exact ∧ Equal v s2 ∧ Equal v c) :
    (member fl d path as cs bs k).Exact ↔
      d.Exact ∧ AtKey Equal as bs k ∧ AtKey Equal as cs k := by
  rw [member]
  cases ha : get as k with
  | some x =>
      cases hc : get cs k with
      | some y =>
          cases hb : get bs k with
          | some z => simp only [ih x ha, atKey_some ha hb, atKey_some ha hc]
          | none =>
              have hnot : ¬AtKey Equal as bs k := not_atKey (by simp [ha, hb])
              simp [exact_changed, hnot]
      | none =>
          have hnot : ¬AtKey Equal as cs k := not_atKey (by simp [ha, hc])
          cases hb : get bs k with
          | some z => simp [exact_shape, hnot]
          | none => simp [exact_changed, hnot]
  | none =>
      cases hc : get cs k with
      | some y =>
          have hnot : ¬AtKey Equal as cs k := not_atKey (by simp [ha, hc])
          cases hb : get bs k with
          | some z => simp [exact_changed, hnot]
          | none => simp [exact_shape, hnot]
      | none =>
          cases hb : get bs k with
          | some z =>
              have hnot : ¬AtKey Equal as bs k := not_atKey (by simp [ha, hb])
              simp [exact_changed, hnot]
          | none =>
              rw [mem_keys, ha, hc, hb] at hk
              simp at hk

/-- Both answers of the socket and that of the command line are one value. -/
theorem walk_exact (s1 : Value) : ∀ (d : Diff) (path : String) (c s2 : Value),
    (walk fl d path s1 c s2).Exact ↔ d.Exact ∧ Equal s1 s2 ∧ Equal s1 c := by
  induction s1 using value_induction with
  | leaf s1 hs =>
    intro d path c s2
    rw [equal_leaf_iff hs, equal_leaf_iff hs]
    by_cases hk : kind s1 = kind s2
    · by_cases hc : kind c = kind s1
      · rw [walk_leaf hs hk hc, leaf_exact]
        simp only [hk, hk ▸ hc, true_and]
      · rw [walk_shape hk hc]
        simp [exact_shape, Ne.symm hc]
    · rw [walk_changed hk]
      simp [exact_changed, hk]
  | arr as ih =>
    intro d path c s2
    by_cases hk : kind (.arr as) = kind s2
    · by_cases hc : kind c = kind (.arr as)
      · obtain ⟨bs, rfl⟩ := eq_arr_of_kind hk.symm
        obtain ⟨cs, rfl⟩ := eq_arr_of_kind hc
        rw [equal_arr_iff, equal_arr_iff]
        by_cases hb : as.length = bs.length
        · by_cases hc : cs.length = as.length
          · rw [walk_arr hb hc]
            have hturn := foldl_iff (P := Diff.Exact)
              (Q := fun t : ((Value × Value) × Value) × Nat =>
                Equal t.1.1.1 t.1.2 ∧ Equal t.1.1.1 t.1.1.2)
              (f := fun d t => walk fl d (path ++ "[" ++ toString t.2 ++ "]") t.1.1.1 t.1.1.2 t.1.2)
              (l := ((as.zip cs).zip bs).zipIdx)
              (fun d t ht => ih _ (List.mem_of_getElem? (mem_zip3.1 ht).1) d _ _ _) d
            rw [hturn, forall_mem_zip3 hb hc]
            simp only [hb, hb ▸ hc.symm, true_and]
          · rw [walk_arr_shape hb hc]
            simp [exact_shape, Ne.symm hc]
        · rw [walk_arr_changed hb]
          simp [exact_changed, hb]
      · rw [walk_shape hk hc]
        have hnot : ¬Equal (.arr as) c := fun h => hc h.kind_eq.symm
        simp [exact_shape, hnot]
    · rw [walk_changed hk]
      have hnot : ¬Equal (.arr as) s2 := fun h => hk h.kind_eq
      simp [exact_changed, hnot]
  | obj as ih =>
    intro d path c s2
    by_cases hk : kind (.obj as) = kind s2
    · by_cases hc : kind c = kind (.obj as)
      · obtain ⟨bs, rfl⟩ := eq_obj_of_kind hk.symm
        obtain ⟨cs, rfl⟩ := eq_obj_of_kind hc
        rw [equal_obj_iff, equal_obj_iff, walk_obj]
        have hturn := foldl_iff (P := Diff.Exact)
          (Q := fun k => AtKey Equal as bs k ∧ AtKey Equal as cs k)
          (f := fun d k => member fl d path as cs bs k) (l := keys as cs bs)
          (fun d k hkey => member_exact hkey (ih k)) d
        rw [hturn, forall_mem_keys fun k ha hc hb => ⟨atKey_none ha hb, atKey_none ha hc⟩,
          forall_and]
        rfl
      · rw [walk_shape hk hc]
        have hnot : ¬Equal (.obj as) c := fun h => hc h.kind_eq.symm
        simp [exact_shape, hnot]
    · rw [walk_changed hk]
      have hnot : ¬Equal (.obj as) s2 := fun h => hk h.kind_eq
      simp [exact_changed, hnot]

/-! ### The socket's answers equal -/

theorem close_leaf_iff (hs : kind s1 < 4) : Close fl s1 c ↔ kind s1 = kind c ∧
    (leafEq c s1 = true ∨ withinCliDecimals fl s1 c = true) := agree_leaf_iff hs

theorem close_arr_iff {as cs : List Value} :
    Close fl (.arr as) (.arr cs) ↔ as.length = cs.length ∧
      ∀ (i : Nat) (a c : Value), as[i]? = some a → cs[i]? = some c → Close fl a c := agree_arr_iff

theorem close_obj_iff {as cs : List (String × Value)} :
    Close fl (.obj as) (.obj cs) ↔ ∀ k, AtKey (Close fl) as cs k := agree_obj_iff

theorem leaf_same (hs : leafEq s1 s2 = true) : (leaf fl d path s1 c s2).same = true ↔
    d.same = true ∧ (leafEq c s1 = true ∨ withinCliDecimals fl s1 c = true) := by
  rw [leaf]
  cases hc : leafEq c s1 with
  | true => simp [Diff.same, hs]
  | false =>
      cases hw : withinCliDecimals fl s1 c with
      | true => simp [Diff.same, hs]
      | false => simp [Diff.same, hs]

theorem member_same {as cs bs : List (String × Value)} {k : String} (hequal : AtKey Equal as bs k)
    (ih : ∀ v, get as k = some v → ∀ (d : Diff) (path : String) (c s2 : Value), Equal v s2 →
      ((walk fl d path v c s2).same = true ↔ d.same = true ∧ Close fl v c)) :
    (member fl d path as cs bs k).same = true ↔ d.same = true ∧ AtKey (Close fl) as cs k := by
  rw [member]
  cases ha : get as k with
  | some x =>
      cases hb : get bs k with
      | none => exact absurd hequal (not_atKey (by simp [ha, hb]))
      | some z =>
          cases hc : get cs k with
          | some y =>
              simp only [ih x ha _ _ _ _ ((atKey_some ha hb).1 hequal), atKey_some ha hc]
          | none =>
              have hnot : ¬AtKey (Close fl) as cs k := not_atKey (by simp [ha, hc])
              simp [same_shape, hnot]
  | none =>
      cases hb : get bs k with
      | some z => exact absurd hequal (not_atKey (by simp [ha, hb]))
      | none =>
          cases hc : get cs k with
          | some y =>
              have hnot : ¬AtKey (Close fl) as cs k := not_atKey (by simp [ha, hc])
              simp [same_shape, hnot]
          | none => simp [atKey_none ha hc, Diff.same]

/-- What the socket answers twice is compared with the command line's answer. -/
theorem walk_same (s1 : Value) : ∀ (d : Diff) (path : String) (c s2 : Value), Equal s1 s2 →
    ((walk fl d path s1 c s2).same = true ↔ d.same = true ∧ Close fl s1 c) := by
  induction s1 using value_induction with
  | leaf s1 hs =>
    intro d path c s2 hequal
    have hk : kind s1 = kind s2 := hequal.kind_eq
    rw [close_leaf_iff hs]
    by_cases hc : kind c = kind s1
    · rw [walk_leaf hs hk hc, leaf_same ((equal_leaf_iff hs).1 hequal).2]
      simp only [hc, true_and]
    · rw [walk_shape hk hc]
      simp [same_shape, Ne.symm hc]
  | arr as ih =>
    intro d path c s2 hequal
    obtain ⟨bs, rfl⟩ := eq_arr_of_kind hequal.kind_eq.symm
    obtain ⟨hb, hitems⟩ := equal_arr_iff.1 hequal
    by_cases hk : kind c = kind (.arr as)
    · obtain ⟨cs, rfl⟩ := eq_arr_of_kind hk
      rw [close_arr_iff]
      by_cases hc : cs.length = as.length
      · rw [walk_arr hb hc]
        have hturn := foldl_iff (P := fun d : Diff => d.same = true)
          (Q := fun t : ((Value × Value) × Value) × Nat => Close fl t.1.1.1 t.1.1.2)
          (f := fun d t => walk fl d (path ++ "[" ++ toString t.2 ++ "]") t.1.1.1 t.1.1.2 t.1.2)
          (l := ((as.zip cs).zip bs).zipIdx)
          (fun d t ht => by
            obtain ⟨hx, -, hz⟩ := mem_zip3.1 ht
            exact ih _ (List.mem_of_getElem? hx) d _ _ _ (hitems t.2 _ _ hx hz)) d
        have hloop := forall_mem_zip3 hb hc (fun _ _ => True) (Close fl)
        simp only [true_and, implies_true] at hloop
        rw [hturn, hloop]
        simp only [hc, true_and]
      · rw [walk_arr_shape hb hc]
        simp [same_shape, Ne.symm hc]
    · rw [walk_shape hequal.kind_eq hk]
      have hnot : ¬Close fl (.arr as) c := fun h => hk h.kind_eq.symm
      simp [same_shape, hnot]
  | obj as ih =>
    intro d path c s2 hequal
    obtain ⟨bs, rfl⟩ := eq_obj_of_kind hequal.kind_eq.symm
    have hmembers : ∀ k, AtKey Equal as bs k := equal_obj_iff.1 hequal
    by_cases hk : kind c = kind (.obj as)
    · obtain ⟨cs, rfl⟩ := eq_obj_of_kind hk
      rw [close_obj_iff, walk_obj]
      have hturn := foldl_iff (P := fun d : Diff => d.same = true)
        (Q := fun k => AtKey (Close fl) as cs k)
        (f := fun d k => member fl d path as cs bs k) (l := keys as cs bs)
        (fun d k _ => member_same (hmembers k) (ih k)) d
      rw [hturn, forall_mem_keys fun k ha hc _ => atKey_none ha hc]
    · rw [walk_shape hequal.kind_eq hk]
      have hnot : ¬Close fl (.obj as) c := fun h => hk h.kind_eq.symm
      simp [same_shape, hnot]

/-- **The comparison is sound and complete.**  The three answers are one value if and only
    if nothing is reported, nothing changed and nothing is equal within six decimals only;
    and what the socket answers twice is the same as the command line's answer if and only
    if that has the same structure and each of its leaves is equal or within the decimals. -/
theorem diff_exact (fl : Doubles F) (s1 cli s2 : Value) :
    (Equal s1 cli ∧ Equal cli s2 ↔
      (diff fl s1 cli s2).same = true ∧ (diff fl s1 cli s2).changed = 0 ∧
        (diff fl s1 cli s2).precision = 0) ∧
    (Equal s1 s2 → ((diff fl s1 cli s2).same = true ↔ Close fl s1 cli)) := by
  have hempty : Diff.Exact {} := ⟨rfl, rfl, rfl⟩
  constructor
  · have hwalk := @walk_exact F fl s1 {} "" cli s2
    change _ ↔ (diff fl s1 cli s2).Exact
    rw [diff, hwalk]
    constructor
    · rintro ⟨hcli, hs2⟩
      exact ⟨hempty, hcli.trans hs2, hcli⟩
    · rintro ⟨-, hs2, hcli⟩
      exact ⟨hcli, hcli.symm.trans hs2⟩
  · intro hequal
    rw [diff, walk_same s1 {} "" cli s2 hequal]
    exact and_iff_right rfl

theorem diff_exact_one :
    let fl : Doubles Int := ⟨id, fun _ => 0, (· - ·), fun i => i.natAbs, fun i j => i ≤ j, 0⟩
    let v : Value := .obj [("load", .arr [.num (.int 1), .num (.int 2)])]
    (diff fl v v v).same = true ∧ Close fl v v := by
  intro fl v
  have hsame := ((diff_exact fl v v v).1.1 ⟨.refl v, .refl v⟩).1
  exact ⟨hsame, ((diff_exact fl v v v).2 (.refl v)).1 hsame⟩

end Datad.Compare
