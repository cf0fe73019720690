/-
  Datad/Ops/Redact.lean
  =====================
  **What is kept out of the journal** (`rust/src/ops/record.rs`, `redact`).

  Passwords and codes are replaced, of the identity of a SIM the last four characters are
  kept, and of a message nothing.  Whether this hides what it should is a statement about
  two runs: where two parameter values differ in what is to be hidden only, the lines are
  the same (`redact_hides`).
-/
import Datad.JsonText
import Datad.Lib.Finding
import Datad.Server.Control

namespace Datad

namespace Record

open Finding

def REDACTED : String := "(changed)"

/-! ### Keys -/

def SECRET_KEYS : List String :=
  ["pin", "code", "activation_code", "confirm_code", "confirmation_code", "matching_id"]

def SECRET_WORDS : List String := ["pass", "psk", "secret", "token", "user", "key", "puk", "cred"]

def startsWith (tag : String) (s : List Char) : Bool := tag.toList.isPrefixOf s

def endsWith (tag : String) (s : List Char) : Bool := tag.toList.isSuffixOf s

def hasSegment (seg : String) (s : List Char) : Bool := (s.splitOn '_').contains seg.toList

def secret (key : String) : Bool :=
  let k := lower key.toList
  (SECRET_KEYS.any fun w => decide (w.toList = k)) ||
    (SECRET_WORDS.any fun w => contains w k) ||
    hasSegment "nck" k ||
    (hasSegment "pin" k && !endsWith "_mode" k && !endsWith "_flag" k)

def SIM_KEYS : List String := ["iccid", "eid", "imsi", "msisdn"]

/-- Keys of the identity of a SIM. -/
def simIdKey (key : String) : Bool :=
  let k := lower key.toList
  SIM_KEYS.any fun w =>
    decide (w.toList = k) || endsWith ("_" ++ w) k || startsWith (w ++ "_") k

/-- The last four characters. -/
def tail4 (s : String) : String := String.ofList (s.toList.drop (s.toList.length - 4))

/-! ### Values -/

section Redact

variable (ryu : Ryu)

/-- The text of which the last four characters are kept. -/
def idText : Value → String
  | .str s => s
  | other => other.toText ryu

mutual

def redactValue : Value → Value
  | .obj members => .obj (redactMembers members)
  | .arr items => .arr (redactItems items)
  | other => other

def redactItems : List Value → List Value
  | [] => []
  | v :: vs => redactValue v :: redactItems vs

def redactMembers : List (String × Value) → List (String × Value)
  | [] => []
  | (k, v) :: ms =>
      (k,
        if secret k && decide (v ≠ .null) then .str REDACTED
        else if simIdKey k && decide (v ≠ .null) then .str (tail4 (idText ryu v))
        else redactValue v) :: redactMembers ms

end

/-- The action or the method is about messages. -/
def smsCall (action : String) (params : Value) : Bool :=
  startsWith "sms." action.toList ||
    (decide (action = "vendor.call") &&
      match (params.get "method").bind Value.asStr with
      | some m => contains "sms" m.toList
      | none => false)

def redact (action : String) (params : Value) : Value :=
  if smsCall action params then .null else redactValue ryu params

end Redact

/-! ### Two values that are to look alike -/

/-- What may differ between two values under a key. -/
abbrev Hidden := String → Value → Value → Prop

mutual

/-- Two values that differ at keys where that is hidden only.  Below a key of the identity
    of a SIM nothing else differs. -/
inductive Alike (hidden : Hidden) : Value → Value → Prop
  | refl (v : Value) : Alike hidden v v
  | arr {vs ws : List Value} : AlikeItems hidden vs ws → Alike hidden (.arr vs) (.arr ws)
  | obj {ms ns : List (String × Value)} :
      AlikeMembers hidden ms ns → Alike hidden (.obj ms) (.obj ns)

inductive AlikeItems (hidden : Hidden) : List Value → List Value → Prop
  | nil : AlikeItems hidden [] []
  | cons {v w : Value} {vs ws : List Value} :
      Alike hidden v w → AlikeItems hidden vs ws → AlikeItems hidden (v :: vs) (w :: ws)

inductive AlikeMembers (hidden : Hidden) :
    List (String × Value) → List (String × Value) → Prop
  | nil : AlikeMembers hidden [] []
  | same {k : String} {v : Value} {ms ns : List (String × Value)} :
      AlikeMembers hidden ms ns → AlikeMembers hidden ((k, v) :: ms) ((k, v) :: ns)
  | changed {k : String} {v w : Value} {ms ns : List (String × Value)} :
      hidden k v w → AlikeMembers hidden ms ns →
        AlikeMembers hidden ((k, v) :: ms) ((k, w) :: ns)
  | within {k : String} {v w : Value} {ms ns : List (String × Value)} :
      simIdKey k = false → Alike hidden v w → AlikeMembers hidden ms ns →
        AlikeMembers hidden ((k, v) :: ms) ((k, w) :: ns)

end

/-- Values that are no null, under a secret key. -/
def SecretValues : Hidden := fun k v w => secret k = true ∧ v ≠ .null ∧ w ≠ .null

/-- Values that are no null, under a key of the identity of a SIM, whose texts end in the
    same four characters. -/
def SameTail (ryu : Ryu) : Hidden := fun k v w =>
  simIdKey k = true ∧ v ≠ .null ∧ w ≠ .null ∧ tail4 (idText ryu v) = tail4 (idText ryu w)

/-- What is hidden at a key is gone after the redaction. -/
def Concealed (ryu : Ryu) (hidden : Hidden) : Prop :=
  ∀ k v w, hidden k v w → redactMembers ryu [(k, v)] = redactMembers ryu [(k, w)]

section Alike

variable {ryu : Ryu} {hidden : Hidden}

theorem secretValues_concealed (ryu : Ryu) : Concealed ryu SecretValues := by
  intro k v w h
  obtain ⟨hk, hv, hw⟩ := h
  simp [redactMembers, hk, hv, hw]

theorem sameTail_concealed (ryu : Ryu) : Concealed ryu (SameTail ryu) := by
  intro k v w h
  obtain ⟨hk, hv, hw, htail⟩ := h
  simp [redactMembers, hk, hv, hw, htail]

theorem Alike.null_iff {v w : Value} (h : Alike hidden v w) : v = .null ↔ w = .null := by
  cases h with
  | refl => exact Iff.rfl
  | arr => simp
  | obj => simp

/-- A member after another: each is redacted by itself. -/
theorem redactMembers_cons (m : String × Value) (ms : List (String × Value)) :
    redactMembers ryu (m :: ms) = redactMembers ryu [m] ++ redactMembers ryu ms := by
  simp [redactMembers]

mutual

theorem Alike.redactValue (hh : Concealed ryu hidden) {v w : Value} :
    Alike hidden v w → redactValue ryu v = redactValue ryu w
  | .refl _ => rfl
  | .arr h => by rw [Record.redactValue, Record.redactValue, AlikeItems.redactItems hh h]
  | .obj h => by rw [Record.redactValue, Record.redactValue, AlikeMembers.redactMembers hh h]

theorem AlikeItems.redactItems (hh : Concealed ryu hidden) {vs ws : List Value} :
    AlikeItems hidden vs ws → redactItems ryu vs = redactItems ryu ws
  | .nil => rfl
  | .cons hv hvs => by
      rw [Record.redactItems, Record.redactItems, Alike.redactValue hh hv,
        AlikeItems.redactItems hh hvs]

theorem AlikeMembers.redactMembers (hh : Concealed ryu hidden)
    {ms ns : List (String × Value)} :
    AlikeMembers hidden ms ns → redactMembers ryu ms = redactMembers ryu ns
  | .nil => rfl
  | .same h => by
      rw [redactMembers_cons, AlikeMembers.redactMembers hh h, ← redactMembers_cons]
  | .changed hhid h => by
      rw [redactMembers_cons, AlikeMembers.redactMembers hh h, hh _ _ _ hhid,
        ← redactMembers_cons]
  | .within hk hv h => by
      have hvalue := Alike.redactValue hh hv
      rw [Record.redactMembers, Record.redactMembers, AlikeMembers.redactMembers hh h, hvalue]
      simp only [hk, ne_eq, hv.null_iff, Bool.false_and, if_false, Bool.false_eq_true]

end

theorem Alike.asStr {v w : Value} (h : Alike hidden v w) : v.asStr = w.asStr := by
  cases h with
  | refl => rfl
  | arr => rfl
  | obj => rfl

theorem AlikeMembers.find {k : String} (hk : ∀ v w, ¬hidden k v w)
    {ms ns : List (String × Value)} : AlikeMembers hidden ms ns →
    ((ms.find? fun m => decide (m.1 = k)).map Prod.snd).bind Value.asStr =
      ((ns.find? fun m => decide (m.1 = k)).map Prod.snd).bind Value.asStr
  | .nil => rfl
  | .same (k := l) h => by
      have hrest := h.find hk
      by_cases hl : l = k
      · simp [hl]
      · simpa [hl] using hrest
  | .changed (k := l) hhid h => by
      have hrest := h.find hk
      have hl : l ≠ k := by
        rintro rfl
        exact hk _ _ hhid
      simpa [hl] using hrest
  | .within (k := l) _ hv h => by
      have hrest := h.find hk
      by_cases hl : l = k
      · simpa [hl] using hv.asStr
      · simpa [hl] using hrest

/-- A string under a key where nothing is hidden is the same. -/
theorem Alike.get {v w : Value} (h : Alike hidden v w) {k : String} (hk : ∀ v w, ¬hidden k v w) :
    (v.get k).bind Value.asStr = (w.get k).bind Value.asStr := by
  cases h with
  | refl => rfl
  | arr => rfl
  | obj h => exact h.find hk

theorem secret_method : secret "method" = false := by decide +kernel

theorem simIdKey_method : simIdKey "method" = false := by decide +kernel

/-- **Two runs**: what is hidden does not show. -/
theorem redact_eq (hh : Concealed ryu hidden) (hmethod : ∀ v w, ¬hidden "method" v w)
    {p q : Value} (h : Alike hidden p q) (action : String) :
    redact ryu action p = redact ryu action q := by
  have hcall : smsCall action p = smsCall action q := by
    rw [smsCall, smsCall, h.get hmethod]
  rw [redact, redact, hcall, h.redactValue hh]

theorem redact_sms {action : String} {p : Value} (h : smsCall action p = true) :
    redact ryu action p = .null := by
  rw [redact, h, if_pos rfl]

end Alike

/-- **What is hidden.**  For every action, two parameter values give the same line if they
    differ in values under secret keys only, none of them below a key of the identity of a
    SIM; or in values under keys of the identity of a SIM only, with texts that end in the
    same four characters.  And for a message, or a call of a method for messages, the line
    does not depend on the parameters. -/
theorem redact_hides (ryu : Ryu) (action : String) (p q : Value) :
    (Alike SecretValues p q → redact ryu action p = redact ryu action q) ∧
    (Alike (SameTail ryu) p q → redact ryu action p = redact ryu action q) ∧
    (startsWith "sms." action.toList = true → redact ryu action p = redact ryu action q) ∧
    ∀ m n, action = "vendor.call" → p.get "method" = some (.str m) →
      q.get "method" = some (.str n) → contains "sms" m.toList = true →
      contains "sms" n.toList = true → redact ryu action p = redact ryu action q := by
  refine ⟨fun h => ?_, fun h => ?_, fun h => ?_, fun m n haction hp hq hm hn => ?_⟩
  · apply redact_eq (secretValues_concealed ryu) ?_ h
    intro v w hhid
    exact Bool.noConfusion (secret_method.symm.trans hhid.1)
  · apply redact_eq (sameTail_concealed ryu) ?_ h
    intro v w hhid
    exact Bool.noConfusion (simIdKey_method.symm.trans hhid.1)
  · rw [redact_sms (by simp [smsCall, h]), redact_sms (by simp [smsCall, h])]
  · rw [redact_sms (by simp [smsCall, haction, hp, hm, Value.asStr]),
      redact_sms (by simp [smsCall, haction, hq, hn, Value.asStr])]

/-- A PIN, and a password in a list. -/
def paramsOf (pin psk : String) : Value :=
  .obj [("list", .arr [.obj [("PSK", .str psk)]]), ("pin_num", .str pin)]

def iccidOf (id : Value) : Value := .obj [("new_iccid", id)]

def smsParams (number : String) : Value :=
  .obj [("method", .str "zwrt_sms_send"), ("number", .str number)]

theorem redact_hides_sample :
    redact (fun _ => []) "wifi.configure" (paramsOf "1234" "secret") =
        redact (fun _ => []) "wifi.configure" (paramsOf "0000" "other") ∧
      redact (fun _ => []) "esim.enable" (iccidOf (.str "89861234")) =
        redact (fun _ => []) "esim.enable" (iccidOf (.num (.int 771234))) ∧
      redact (fun _ => []) "sms.send_raw" (smsParams "10086") =
        redact (fun _ => []) "sms.send_raw" (smsParams "10010") ∧
      redact (fun _ => []) "vendor.call" (smsParams "10086") =
        redact (fun _ => []) "vendor.call" (smsParams "10010") := by
  refine ⟨(redact_hides _ _ _ _).1 ?_, (redact_hides _ _ _ _).2.1 ?_,
    (redact_hides _ _ _ _).2.2.1 (by decide +kernel),
    (redact_hides _ _ _ _).2.2.2 "zwrt_sms_send" "zwrt_sms_send" rfl rfl rfl (by decide +kernel)
      (by decide +kernel)⟩
  · refine .obj (.within (by decide +kernel) (.arr (.cons (.obj ?_) .nil)) ?_)
    · exact .changed ⟨by decide +kernel, by decide, by decide⟩ .nil
    · exact .changed ⟨by decide +kernel, by decide, by decide⟩ .nil
  · exact .obj (.changed ⟨by decide +kernel, by decide, by decide, by decide +kernel⟩ .nil)

end Record

end Datad
