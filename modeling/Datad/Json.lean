/-
  Datad/Json.lean
  ===============
  **JSON values** as `serde_json::Value` holds them.  Objects are association
  lists in key order (the crate keeps them in a `BTreeMap`), numbers are integers
  or the bit pattern of a finite double.
-/
import Mathlib.Data.List.Basic

namespace Datad

inductive Num where
  | int (i : Int)
  | float (bits : UInt64)
deriving DecidableEq, Repr

inductive Value where
  | null
  | bool (b : Bool)
  | num (n : Num)
  | str (s : String)
  | arr (items : List Value)
  | obj (members : List (String × Value))
deriving Repr, Inhabited

namespace Value

/-! ### Decidable equality

`deriving` does not handle the nested lists, so equality is decided by the three
mutually recursive functions it would have generated. -/

mutual

def eqv : Value → Value → Bool
  | .null, .null => true
  | .bool a, .bool b => a == b
  | .num a, .num b => decide (a = b)
  | .str a, .str b => decide (a = b)
  | .arr a, .arr b => eqvList a b
  | .obj a, .obj b => eqvMembers a b
  | _, _ => false

def eqvList : List Value → List Value → Bool
  | [], [] => true
  | a :: as, b :: bs => eqv a b && eqvList as bs
  | _, _ => false

def eqvMembers : List (String × Value) → List (String × Value) → Bool
  | [], [] => true
  | (k, a) :: as, (l, b) :: bs => decide (k = l) && eqv a b && eqvMembers as bs
  | _, _ => false

end

mutual

theorem eqv_iff : ∀ a b : Value, eqv a b = true ↔ a = b
  | .null, b => by cases b <;> simp [eqv]
  | .bool a, b => by cases b <;> simp [eqv]
  | .num a, b => by cases b <;> simp [eqv]
  | .str a, b => by cases b <;> simp [eqv]
  | .arr a, b => by cases b <;> simp [eqv, eqvList_iff a]
  | .obj a, b => by cases b <;> simp [eqv, eqvMembers_iff a]

theorem eqvList_iff : ∀ a b : List Value, eqvList a b = true ↔ a = b
  | [], b => by cases b <;> simp [eqvList]
  | a :: as, b => by
      cases b with
      | nil => simp [eqvList]
      | cons b bs => simp [eqvList, eqv_iff a, eqvList_iff as]

theorem eqvMembers_iff : ∀ a b : List (String × Value), eqvMembers a b = true ↔ a = b
  | [], b => by cases b <;> simp [eqvMembers]
  | (k, a) :: as, b => by
      cases b with
      | nil => simp [eqvMembers]
      | cons b bs =>
        obtain ⟨l, b⟩ := b
        simp [eqvMembers, eqv_iff a, eqvMembers_iff as]

end

instance : DecidableEq Value := fun a b => decidable_of_iff (eqv a b = true) (eqv_iff a b)

def isObject : Value → Bool
  | .obj _ => true
  | _ => false

end Value

end Datad
