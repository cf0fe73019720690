/-
  Datad/Server/ReadBack.lean
  ==========================
  **Writes that are read back** (`direct_supply`, `usb_attach_mode`, `sms::send`).

  `done` is answered only after the device has shown the state that was asked for, and
  after one write at most.  A text message is handed over once, whatever comes of it.
-/
import Datad.Lib.Urlencoded
import Datad.Server.Refused

namespace Datad

namespace Actions

open Interaction Interaction.Program Ubus

section Rules

variable {β : Type} {ψ : List Event → β → Prop} {service method : String} {args : Value}

theorem ensures_ubus {f : Except String Value → Prog β}
    (hok : ∀ v, Ensures (f (.ok v)) fun t r => ψ (⟨.call ⟨service, method, args⟩, .ok v⟩ :: t) r)
    (herror : ∀ e, Ensures (f (.error (CallError.text e))) fun t r =>
      ψ (⟨.call ⟨service, method, args⟩, .error e⟩ :: t) r) :
    Ensures (ubus service method args >>= f) ψ := by
  intro reply
  cases reply with
  | ok v => exact hok v
  | error e => exact herror e

theorem ensures_rawCall {f : CallAnswer → Prog β}
    (h : ∀ reply, Ensures (f reply) fun t r => ψ (⟨.call ⟨service, method, args⟩, reply⟩ :: t) r) :
    Ensures (rawCall service method args >>= f) ψ := h

end Rules

/-! ### Reading until it is so -/

/-- Nothing but pauses and readings. -/
def Polls (pause : Nat) (i : Invocation) (t : List Event) : Prop :=
  ∀ e ∈ t, e.1 = .sleep pause ∨ e.1 = .call i

/-- The last reading passes. -/
def Confirmed (pause : Nat) (i : Invocation) (ok : Value → Bool) (t : List Event) : Prop :=
  ∃ polls v, t = polls ++ [⟨.call i, .ok v⟩] ∧ Polls pause i polls ∧ ok v = true

theorem Polls.append {pause : Nat} {i : Invocation} {t t' : List Event} (h : Polls pause i t)
    (h' : Polls pause i t') : Polls pause i (t ++ t') :=
  fun e he => (List.mem_append.mp he).elim (h e) (h' e)

theorem polls_sleep (pause : Nat) (i : Invocation) (u : Unit) :
    Polls pause i [⟨.sleep pause, u⟩] := fun e he => by
  rw [List.mem_singleton.mp he]
  exact Or.inl rfl

theorem polls_call (pause : Nat) (i : Invocation) (reply : CallAnswer) :
    Polls pause i [⟨.call i, reply⟩] := fun e he => by
  rw [List.mem_singleton.mp he]
  exact Or.inr rfl

theorem pollEvery_confirmed (pause : Nat) (service method : String) (args : Value) (tries : Nat)
    (ok : Value → Bool) : Ensures (pollEvery pause service method args tries ok) fun t found =>
      found = true → Confirmed pause ⟨service, method, args⟩ ok t := by
  set i : Invocation := ⟨service, method, args⟩
  have hread : ∀ before, Polls pause i before →
      Ensures (pollOnce service method args ok) fun t r =>
        (r = none → Polls pause i (before ++ t)) ∧
          ∀ a, r = some a → Confirmed pause i ok (before ++ t) := by
    intro before hbefore
    refine ensures_ubus (fun v => ?_) fun e => ?_
    · refine ⟨fun _ => hbefore.append (polls_call _ _ _), fun a ha => ?_⟩
      refine ⟨before, v, rfl, hbefore, ?_⟩
      by_contra hv
      simp [hv] at ha
    · exact ⟨fun _ => hbefore.append (polls_call _ _ _), nofun⟩
  have hloop := Ensures.attempts (I := fun _ => Polls pause i)
    (K := fun t _ => Confirmed pause i ok t) (f := fun attempt => do
      if attempt ≠ 0 then answer (.sleep pause)
      pollOnce service method args ok) (fun n before hbefore => ?_) tries 0 [] (fun _ he => nomatch he)
  · refine hloop.bind fun t found ht hfound => ?_
    obtain ⟨u, rfl⟩ := Option.isSome_iff_exists.mp hfound
    rw [List.append_nil]
    exact ht.2 u rfl
  · by_cases hn : n ≠ 0
    · simp only [if_pos hn]
      intro u
      refine (hread _ (hbefore.append (polls_sleep pause i u))).mono fun t r h => ?_
      rw [List.append_assoc] at h
      exact h
    · simp only [if_neg hn]
      exact hread before hbefore

/-! ### `power.direct_supply.set` -/

def CHARGER : Invocation := ⟨"zwrt_bsp.charger", "list", .obj []⟩

def setSupply (wanted : Bool) : Invocation :=
  ⟨"zwrt_bsp.charger", "set", .ofMembers [("direct_power_supply_mode", .str (supplyMode wanted))]⟩

def inMode (wanted : Bool) (v : Value) : Bool :=
  decide (str v "direct_power_supply_mode" = some (supplyMode wanted))

/-- The runs that end well. -/
inductive Supplied (wanted : Bool) : List Event → Outcome → Prop
  | already {v : Value} (h : inMode wanted v = true) :
      Supplied wanted [⟨.call CHARGER, .ok v⟩] (supplied wanted false)
  | changed {v : Value} {reply : CallAnswer} {t : List Event} (h : inMode (!wanted) v = true)
      (hreply : directSupplyWriteFailed reply = false)
      (ht : Confirmed 100 CHARGER (inMode wanted) t) :
      Supplied wanted (⟨.call CHARGER, .ok v⟩ :: ⟨.call (setSupply wanted), reply⟩ :: t)
        (supplied wanted true)

theorem inMode_not {wanted : Bool} {v : Value}
    (hknown : ¬(str v "direct_power_supply_mode" ≠ some "enable" ∧
      str v "direct_power_supply_mode" ≠ some "disable"))
    (hother : decide (str v "direct_power_supply_mode" = some "enable") ≠ wanted) :
    inMode (!wanted) v = true := by
  rw [inMode, decide_eq_true_iff]
  cases wanted with
  | true =>
    rw [ne_eq, decide_eq_true_iff] at hother
    exact Classical.not_not.mp fun h => hknown ⟨hother, h⟩
  | false =>
    rw [ne_eq, decide_eq_false_iff_not, Classical.not_not] at hother
    exact hother

theorem inMode_of_eq {wanted : Bool} {v : Value}
    (hknown : ¬(str v "direct_power_supply_mode" ≠ some "enable" ∧
      str v "direct_power_supply_mode" ≠ some "disable"))
    (hsame : decide (str v "direct_power_supply_mode" = some "enable") = wanted) :
    inMode wanted v = true := by
  rw [← Bool.not_not wanted]
  refine inMode_not hknown ?_
  rw [hsame]
  cases wanted
  · exact Bool.false_ne_true
  · exact Bool.false_ne_true.symm

theorem directSupply_ensures {params : Value} {wanted : Bool}
    (hw : directSupplyEnabled params = .ok wanted) :
    Ensures (directSupply params) fun t r => ∀ v, r = .ok v → Supplied wanted t r := by
  unfold directSupply
  rw [hw]
  refine ensures_ubus (fun before => ?_) fun e => nofun
  dsimp only
  split
  · exact nofun
  · rename_i hknown
    split
    · rename_i hsame
      exact fun v _ => .already (inMode_of_eq hknown hsame)
    · rename_i hother
      refine ensures_rawCall fun reply => ?_
      split
      · split
        · exact nofun
        · exact nofun
      · rename_i hreply
        refine (pollEvery_confirmed _ _ _ _ _ _).bind fun t found ht => ?_
        cases found with
        | false => exact nofun
        | true =>
          intro v _
          rw [List.append_nil]
          exact .changed (inMode_not hknown hother) (by simpa using hreply) (ht rfl)

/-! ### `usb.attach_mode` -/

def sendCall (number message smsTime : String) : Invocation :=
  ⟨"zwrt_wms", "zte_libwms_send_sms", sendArgs number message smsTime⟩

/-- A message leaves. -/
def Request.sends : Request → Bool
  | .call i => decide (i.service = "zwrt_wms" ∧ i.method = "zte_libwms_send_sms")
  | .post .. => true
  | _ => false

/-- Waiting for what became of it. -/
def Waiting (e : Event) : Prop :=
  e.1 = .sleep 500 ∨
    ∃ reply, e = ⟨.call CMD_STATUS, reply⟩ ∧ statusOf reply ≠ some 3 ∧ statusOf reply ≠ some 2

/-- It is handed over, and the modem says so after a while. -/
inductive Delivered (number message smsTime : String) : List Event → Prop
  | intro {v : Value} {waiting : List Event} {last : CallAnswer}
      (hw : ∀ e ∈ waiting, Waiting e) (hlast : statusOf last = some 3) :
      Delivered number message smsTime
        (⟨.call (sendCall number message smsTime), .ok v⟩ :: waiting ++
          [⟨.call CMD_STATUS, last⟩])

theorem not_sends_of_waiting {e : Event} (h : Waiting e) : e.1.sends = false := by
  rcases h with h | ⟨reply, rfl, -⟩
  · rw [h]
    rfl
  · rfl

/-- No message leaves. -/
def Quiet (t : List Event) : Prop := ∀ e ∈ t, e.1.sends = false

theorem Quiet.append {t t' : List Event} (h : Quiet t) (h' : Quiet t') : Quiet (t ++ t') :=
  fun e he => (List.mem_append.mp he).elim (h e) (h' e)

/-- After the message was handed over: nothing more leaves, and `done` means that the modem
    said so. -/
theorem deliver_ensures (number message smsTime : String) :
    Ensures (deliver number message smsTime) fun t r =>
      (∃ reply t', t = ⟨.call (sendCall number message smsTime), reply⟩ :: t' ∧ Quiet t') ∧
        ∀ v, r = .ok v → v = sent "host" ∧ Delivered number message smsTime t := by
  refine ensures_ubus (fun v => ?_) fun e => ⟨⟨_, [], rfl, fun e he => nomatch he⟩, nofun⟩
  have hloop := Ensures.attempts (I := fun _ t => ∀ e ∈ t, Waiting e)
    (K := fun t s => ∃ waiting last, t = waiting ++ [⟨.call CMD_STATUS, last⟩] ∧
      (∀ e ∈ waiting, Waiting e) ∧ statusOf last = some s ∧ (s = 3 ∨ s = 2))
    (f := fun _ => do
      answer (.sleep 500)
      let reply ← answer (.call CMD_STATUS)
      .ret ((statusOf reply).filter fun s => decide (s = 3) || decide (s = 2)))
    (fun n before hbefore => ?_) 20 0 [] (fun _ he => nomatch he)
  · refine hloop.bind fun t status ht => ?_
    cases status with
    | none =>
      have hw := ht.1 rfl
      refine ⟨⟨_, _, rfl, ?_⟩, nofun⟩
      rw [List.append_nil]
      exact fun e he => not_sends_of_waiting (hw e he)
    | some s =>
      obtain ⟨waiting, last, rfl, hw, hlast, hs⟩ := ht.2 s rfl
      rw [List.nil_append] at *
      have hquiet : Quiet (waiting ++ [⟨.call CMD_STATUS, last⟩]) := by
        refine Quiet.append (fun e he => not_sends_of_waiting (hw e he)) fun e he => ?_
        rw [List.mem_singleton.mp he]
        rfl
      rcases hs with rfl | rfl
      · refine ⟨⟨_, _, rfl, ?_⟩, fun v' hv => ⟨(Except.ok.inj hv).symm, ?_⟩⟩
        · rw [List.append_nil]
          exact hquiet
        · rw [List.append_nil]
          exact .intro hw hlast
      · refine ⟨⟨_, _, rfl, ?_⟩, nofun⟩
        rw [List.append_nil]
        exact hquiet
  · intro u reply
    have hsleep : Waiting (⟨.sleep 500, u⟩ : Event) := Or.inl rfl
    cases hst : (statusOf reply).filter fun s => decide (s = 3) || decide (s = 2) with
    | none =>
      refine ⟨fun _ e he => ?_, fun a ha => ?_⟩
      · have hother : statusOf reply ≠ some 3 ∧ statusOf reply ≠ some 2 := by
          constructor
          all_goals
            intro h
            rw [h] at hst
            cases hst
        rcases List.mem_append.mp he with he | he
        · exact hbefore e he
        · rcases List.mem_cons.mp he with rfl | he
          · exact hsleep
          · rw [List.mem_singleton.mp he]
            exact Or.inr ⟨reply, rfl, hother⟩
      · exact absurd (hst.symm.trans ha) nofun
    | some s =>
      obtain ⟨hs, hdec⟩ := Option.filter_eq_some_iff.mp hst
      refine ⟨fun h => absurd (hst.symm.trans h) nofun, fun a ha => ?_⟩
      obtain rfl : s = a := Option.some.inj (hst.symm.trans ha)
      refine ⟨before ++ [⟨.sleep 500, u⟩], reply, by simp, fun e he => ?_, hs, by simpa using hdec⟩
      rcases List.mem_append.mp he with he | he
      · exact hbefore e he
      · rw [List.mem_singleton.mp he]
        exact hsleep

/-! ### The key of the session -/

def REGISTER (wrapped : String) : Invocation :=
  ⟨"zwrt_web", "web_http_enstr_set", .ofMembers [("web_enstr", .str wrapped)]⟩

def CERTIFICATE : Invocation := ⟨"zwrt_web", "web_crt_get", .obj []⟩

/-- A key that the device has been given: earlier, or now. -/
inductive Session : List Event → Key → Prop
  | kept (key : Key) : Session [⟨.sessionKey, some key⟩] key
  | registered {v v' : Value} {pem wrapped : String} {key : Key} {u : Unit}
      (hpem : str v "result" = some pem) :
      Session [⟨.sessionKey, none⟩, ⟨.call CERTIFICATE, .ok v⟩, ⟨.wrapKey pem, .ok (key, wrapped)⟩,
        ⟨.call (REGISTER wrapped), .ok v'⟩, ⟨.keepKey key, u⟩] key

theorem quiet_ensureCryptoSession : Asks (·.sends = false) ensureCryptoSession := by
  refine (Asks.request (P := (·.sends = false)) (q := Request.sessionKey) rfl).bind fun r => ?_
  cases r with
  | some key => exact .ret _
  | none =>
    refine (asks_ubus (P := (·.sends = false)) (by decide)).bind fun r => ?_
    cases r with
    | error e => exact .ret _
    | ok reply =>
      dsimp only
      split
      · exact .ret _
      · refine (Asks.request (P := (·.sends = false)) (q := Request.wrapKey _) rfl).bind fun r => ?_
        cases r with
        | error e => exact .ret _
        | ok kw =>
          refine (asks_ubus (P := (·.sends = false)) rfl).bind fun r => ?_
          cases r with
          | error e => exact .ret _
          | ok _ =>
            refine (Asks.request (P := (·.sends = false)) (q := Request.keepKey _) rfl).bind ?_
            exact fun _ => .ret _

theorem session_ensures :
    Ensures ensureCryptoSession fun t r => ∀ key, r = .ok key → Session t key := by
  refine Ensures.request fun r => ?_
  cases r with
  | some key =>
    rintro _ ⟨⟩
    exact .kept key
  | none =>
    refine ensures_ubus (fun reply => ?_) fun e => nofun
    dsimp only
    split
    · exact nofun
    · rename_i pem hpem
      refine Ensures.request fun r => ?_
      cases r with
      | error e => exact nofun
      | ok kw =>
        refine ensures_ubus (fun v' => ?_) fun e => nofun
        refine Ensures.request fun u => ?_
        rintro _ ⟨⟩
        exact .registered hpem

/-- The number and the text go out encrypted, with a key of the device. -/
inductive HostSent (number message smsTime : String) : List Event → Prop
  | intro {t t' : List Event} {key : Key} {n m : String} (hkey : Session t key)
      (ht' : Delivered n m smsTime t') :
      HostSent number message smsTime
        (t ++ ⟨.encrypt key number, .ok n⟩ :: ⟨.encrypt key message, .ok m⟩ :: t')

/-- How often a message leaves. -/
def sendings (t : List Event) : Nat := t.countP (·.1.sends)

theorem sendings_quiet {t : List Event} (h : Quiet t) : sendings t = 0 :=
  List.countP_eq_zero.mpr fun e he => by simp [h e he]

theorem sendings_append (t t' : List Event) : sendings (t ++ t') = sendings t + sendings t' :=
  List.countP_append

theorem sendings_append_quiet {t t' : List Event} (h : Quiet t) :
    sendings (t ++ t') = sendings t' := by
  rw [sendings_append, sendings_quiet h, Nat.zero_add]

theorem sendHost_ensures (number message smsTime : String) :
    Ensures (sendHost number message smsTime) fun t r => sendings t ≤ 1 ∧
      ∀ v, r = .ok v → v = sent "host" ∧ HostSent number message smsTime t := by
  refine ((Ensures.of_asks quiet_ensureCryptoSession).and session_ensures).bind fun t r ht => ?_
  obtain ⟨hquiet, hsession⟩ := ht
  have hnone : ∀ {t' : List Event} {e : String}, Quiet t' →
      sendings (t ++ t') ≤ 1 ∧ ∀ v, (Except.error e : Except String Value) = .ok v →
        v = sent "host" ∧ HostSent number message smsTime (t ++ t') := fun h =>
    ⟨by rw [sendings_append_quiet hquiet, sendings_quiet h]; exact Nat.zero_le 1, nofun⟩
  cases r with
  | error e => exact hnone fun e he => nomatch he
  | ok key =>
    refine Ensures.request fun a => ?_
    cases a with
    | error e => exact hnone fun e he => by rw [List.mem_singleton.mp he]; rfl
    | ok n =>
      refine Ensures.request fun a => ?_
      cases a with
      | error e =>
        refine hnone fun e he => ?_
        rcases List.mem_cons.mp he with rfl | he
        · rfl
        · rw [List.mem_singleton.mp he]
          rfl
      | ok m =>
        refine (deliver_ensures n m smsTime).mono fun t' r h => ?_
        obtain ⟨⟨reply, t'', ht', hquiet'⟩, hdone⟩ := h
        refine ⟨?_, fun v hv => ⟨(hdone v hv).1, .intro (hsession key rfl) (hdone v hv).2⟩⟩
        subst ht'
        have hone : sendings (⟨.encrypt key number, .ok n⟩ :: ⟨.encrypt key message, .ok m⟩ ::
            ⟨.call (sendCall n m smsTime), reply⟩ :: t'') = sendings t'' + 1 := by
          simp [sendings, Request.sends, sendCall]
        rw [sendings_append_quiet hquiet, hone, sendings_quiet hquiet']

/-! ### The slot -/

theorem quiet_currentSlot : Asks (·.sends = false) currentSlot :=
  (Asks.request (P := (·.sends = false)) (q := Request.call GET_SIM_INFO) (by decide)).bind
    fun _ => .ret _

/-- The last thing that was asked is which slot is active, and it is this one. -/
def Active (slot : Int) (t : List Event) : Prop :=
  ∃ t' reply, t = t' ++ [⟨.call GET_SIM_INFO, reply⟩] ∧ slotOf reply = slot

theorem Active.cons {slot : Int} {t : List Event} (e : Event) (h : Active slot t) :
    Active slot (e :: t) := by
  obtain ⟨t', reply, rfl, hslot⟩ := h
  exact ⟨e :: t', reply, rfl, hslot⟩

theorem quiet_selectSlot (slot : Int) : Asks (·.sends = false) (selectSlot slot) := by
  refine (asks_ubus (P := (·.sends = false)) rfl).bind fun _ => ?_
  refine (asks_ubus (P := (·.sends = false)) rfl).bind fun r => ?_
  cases r with
  | error e => exact .ret _
  | ok _ =>
    have hwait : Asks (·.sends = false) (awaitSlot slot) := by
      refine (Asks.attempts (fun _ => ?_) 30 0).bind fun active => .ret _
      refine quiet_currentSlot.bind fun n => ?_
      split
      · exact .ret _
      · exact (Asks.request (P := (·.sends = false)) (q := Request.sleep 500) rfl).bind
          fun _ => .ret _
    refine hwait.bind fun active => ?_
    cases active with
    | true => exact .ret _
    | false => exact .ret _

theorem awaitSlot_ensures (slot : Int) :
    Ensures (awaitSlot slot) fun t active => active = true → Active slot t := by
  have hloop := Ensures.attempts (I := fun _ _ => True) (K := fun t _ => Active slot t)
    (f := fun _ => do
      if (← currentSlot) = slot then .ret (some ())
      else
        answer (.sleep 500)
        .ret none) (fun n before _ => ?_) 30 0 [] trivial
  · refine hloop.bind fun t active ht hactive => ?_
    obtain ⟨u, rfl⟩ := Option.isSome_iff_exists.mp hactive
    rw [List.append_nil]
    exact ht.2 u rfl
  · intro reply
    show Ensures (if slotOf reply = slot then (.ret (some ()) : Prog (Option Unit)) else _) _
    split
    · rename_i hslot
      exact ⟨fun _ => trivial, fun _ _ => ⟨before, reply, rfl, hslot⟩⟩
    · exact fun u => ⟨fun _ => trivial, nofun⟩

theorem activate_ensures (slot : Int) :
    Ensures (activate slot) fun t r => r = .ok () → Active slot t := by
  refine ensures_ubus (fun v => ?_) fun e => nofun
  refine (awaitSlot_ensures slot).bind fun t active ht => ?_
  cases active with
  | false => exact nofun
  | true =>
    intro _
    rw [List.append_nil]
    exact (ht rfl).cons _

theorem selectSlot_ensures (slot : Int) :
    Ensures (selectSlot slot) fun t r => r = .ok () → Active slot t := by
  refine ensures_ubus (fun v => ?_) fun e => ?_
  · exact (activate_ensures slot).mono fun t r h hr => (h hr).cons _
  · exact (activate_ensures slot).mono fun t r h hr => (h hr).cons _

/-! ### `sms.send_raw` -/

/-- The runs that end well. -/
inductive Sent (sender number message smsTime : String) : List Event → Prop
  | external {reply : HttpReply} (hs : sender = "v3e1" ∨ sender = "v3e2")
      (h : reply.sent = true) :
      Sent sender number message smsTime
        [⟨.post sender (smsForm number message smsTime), .ok reply⟩]
  | host {t : List Event} (hs : sender = "host" ∨ sender = "x75")
      (h : HostSent number message smsTime t) : Sent sender number message smsTime t
  | sim {t t' : List Event} (hs : sender = "sim1" ∨ sender = "sim2")
      (hslot : Active (slotNumber sender) t) (h : HostSent number message smsTime t') :
      Sent sender number message smsTime (t ++ t')

theorem ofResult_ok {r : Except String Value} {v : Value} (h : ofResult r = .ok v) : r = .ok v := by
  cases r with
  | ok w =>
    cases h
    rfl
  | error e => cases h

theorem sendExternal_ensures (sender number message smsTime : String) :
    Ensures (sendExternal sender number message smsTime) fun t r => sendings t ≤ 1 ∧
      ∀ v, r = .ok v → ∃ reply : HttpReply, reply.sent = true ∧
        t = [⟨.post sender (smsForm number message smsTime), .ok reply⟩] := by
  refine Ensures.request fun reply => ?_
  split
  · exact ⟨Nat.le_refl 1, nofun⟩
  · exact ⟨Nat.le_refl 1, nofun⟩
  · split
    · rename_i hsent
      exact ⟨Nat.le_refl 1, fun v _ => ⟨_, hsent, rfl⟩⟩
    · exact ⟨Nat.le_refl 1, nofun⟩

theorem ensures_ofResult {p : Prog (Except String Value)} {φ : List Event → Prop}
    (h : Ensures p fun t r => sendings t ≤ 1 ∧ ∀ v, r = .ok v → φ t) :
    Ensures (p >>= fun r => .ret (ofResult r)) fun t r =>
      sendings t ≤ 1 ∧ ∀ v, r = .ok v → φ t := by
  refine h.bind fun t r h => ⟨?_, fun v hv => ?_⟩
  · rw [List.append_nil]
    exact h.1
  · rw [List.append_nil]
    exact h.2 v (ofResult_ok hv)

theorem sendHost_outcome (number message smsTime : String) :
    Ensures (sendHost number message smsTime >>= fun r => .ret (ofResult r)) fun t r =>
      sendings t ≤ 1 ∧ ∀ v, r = .ok v → HostSent number message smsTime t :=
  ensures_ofResult ((sendHost_ensures number message smsTime).mono fun _ _ h =>
    ⟨h.1, fun v hv => (h.2 v hv).2⟩)

/-- Once the slot is active. -/
theorem sendSlot_ensures {sender number message smsTime : String}
    (hs : sender = "sim1" ∨ sender = "sim2") :
    Ensures (do
      let ready : Except String Unit ←
        if (← currentSlot) = slotNumber sender then .ret (.ok ())
        else selectSlot (slotNumber sender)
      match ready with
      | .error e => failed e
      | .ok () => .ret (ofResult (← sendHost number message smsTime)))
      fun t r => sendings t ≤ 1 ∧ ∀ v, r = .ok v → Sent sender number message smsTime t := by
  have hafter : ∀ {t : List Event}, Quiet t → Active (slotNumber sender) t →
      Ensures (sendHost number message smsTime >>= fun r => .ret (ofResult r)) fun t' r =>
        sendings (t ++ t') ≤ 1 ∧ ∀ v, r = .ok v → Sent sender number message smsTime (t ++ t') := by
    intro t hquiet hactive
    refine (sendHost_outcome number message smsTime).mono fun t' r h => ⟨?_, fun v hv => ?_⟩
    · rw [sendings_append_quiet hquiet]
      exact h.1
    · exact .sim hs hactive (h.2 v hv)
  intro reply
  have hasked : Quiet [⟨.call GET_SIM_INFO, reply⟩] := fun e he => by
    rw [List.mem_singleton.mp he]
    rfl
  show Ensures (if slotOf reply = slotNumber sender then _ else _) _
  split
  · rename_i hslot
    exact hafter hasked ⟨[], reply, rfl, hslot⟩
  · refine ((Ensures.of_asks (quiet_selectSlot _)).and (selectSlot_ensures _)).bind
      fun t ready h => ?_
    have hquiet : Quiet (⟨.call GET_SIM_INFO, reply⟩ :: t) := hasked.append h.1
    cases ready with
    | error e =>
      refine ⟨?_, nofun⟩
      rw [List.append_nil, sendings_quiet hquiet]
      exact Nat.zero_le 1
    | ok u => exact hafter hquiet ((h.2 rfl).cons _)

/-- **A message leaves once at most, and `done` means that it left.** -/
theorem smsSend_ensures (params : Value) : Ensures (smsSend params) fun t r => sendings t ≤ 1 ∧
    ∀ v, r = .ok v → ∃ number message smsTime, str params "number" = some number ∧
      str params "message_hex" = some message ∧ str params "sms_time" = some smsTime ∧
      valid number message smsTime = true ∧
      Sent ((str params "sender").getD "host") number message smsTime t := by
  unfold smsSend
  split
  · rename_i number message smsTime hn hm ht
    dsimp only
    split_ifs with hvalid hexternal hhost hsim
    · exact ⟨Nat.zero_le 1, nofun⟩
    all_goals try rw [Bool.not_eq_true, Bool.not_eq_false'] at hvalid
    · refine (ensures_ofResult (sendExternal_ensures _ _ _ _)).mono
        fun t r h => ⟨h.1, fun v hv => ?_⟩
      obtain ⟨reply, hreply, rfl⟩ := h.2 v hv
      exact ⟨_, _, _, hn, hm, ht, hvalid, .external hexternal hreply⟩
    · refine (sendHost_outcome _ _ _).mono fun t r h => ⟨h.1, fun v hv => ?_⟩
      exact ⟨_, _, _, hn, hm, ht, hvalid, .host hhost (h.2 v hv)⟩
    · refine (sendSlot_ensures hsim).mono fun t r h => ⟨h.1, fun v hv => ?_⟩
      exact ⟨_, _, _, hn, hm, ht, hvalid, h.2 v hv⟩
    · exact ⟨Nat.zero_le 1, nofun⟩
  · exact ⟨Nat.zero_le 1, nofun⟩

/-! ### The form -/

section Form

open Urlencoded

theorem unquote_escapePlus {s : List Char} (h : '%' ∉ s) : unquote (escapePlus s) = s := by
  induction s with
  | nil => rfl
  | cons c cs ih =>
    rw [List.mem_cons, not_or] at h
    obtain ⟨hc, hcs⟩ := h
    rw [escapePlus, List.flatMap_cons]
    split_ifs with hplus
    · rw [hplus]
      exact (unquote_plus _).trans (congrArg _ (ih hcs))
    · exact (unquote_cons (Ne.symm hc) hplus _).trans (congrArg _ (ih hcs))

theorem not_mem_escapePlus {d : Char} {s : List Char} (hd : d ∉ ['%', '2', 'B']) (hs : d ∉ s) :
    d ∉ escapePlus s := by
  intro h
  obtain ⟨c, hc, hin⟩ := List.mem_flatMap.mp h
  split at hin
  · exact hd hin
  · rw [List.mem_singleton.mp hin] at hs
    exact hs hc

/-- A character that a check does not let through. -/
theorem not_mem_of_all {p : Char → Bool} {s : List Char} {d : Char} (h : s.all p = true)
    (hd : p d = false) : d ∉ s := by
  intro hin
  rw [List.all_eq_true.mp h d hin] at hd
  cases hd

theorem numberChars_all {s : List Char} (h : numberChars s = true) :
    s.all (fun c => c.isDigit || decide (c = '+')) = true := by
  cases s with
  | nil => rfl
  | cons c cs =>
    rw [numberChars, Bool.and_eq_true] at h
    rw [List.all_cons, Bool.and_eq_true]
    refine ⟨h.1, List.all_eq_true.mpr fun d hd => ?_⟩
    rw [List.all_eq_true.mp h.2 d hd]
    rfl

/-- The fields as they stand in the form. -/
def formFields (number message smsTime : List Char) : List (List Char × List Char) :=
  [("goformId".toList, "SEND_SMS".toList), ("Number".toList, number),
    ("MessageBody".toList, message), ("ID".toList, "-1".toList),
    ("encode_type".toList, "UNICODE".toList), ("sms_time".toList, smsTime)]

theorem smsForm_written (number message smsTime : String) :
    (smsForm number message smsTime).toList = List.intercalate ['&'] ((formFields
      (escapePlus number.toList) message.toList (escapePlus smsTime.toList)).map written) := by
  have hfirst : "goformId=SEND_SMS&Number=".toList =
      "goformId".toList ++ '=' :: "SEND_SMS".toList ++ '&' :: "Number".toList ++ ['='] := rfl
  have hsecond : "&MessageBody=".toList = '&' :: "MessageBody".toList ++ ['='] := rfl
  have hrest : "&ID=-1&encode_type=UNICODE&sms_time=".toList =
      '&' :: "ID".toList ++ '=' :: "-1".toList ++ '&' :: "encode_type".toList ++
        '=' :: "UNICODE".toList ++ '&' :: "sms_time".toList ++ ['='] := rfl
  unfold smsForm
  simp only [encodePlus, String.toList_append, String.toList_ofList, hfirst, hsecond,
    hrest, formFields, List.map_cons, List.map_nil, written]
  -- the names stay closed: what is left is about lists
  generalize "goformId".toList = a, "SEND_SMS".toList = b, "Number".toList = c,
    "MessageBody".toList = d, "ID".toList = e, "-1".toList = f, "encode_type".toList = g,
    "UNICODE".toList = h, "sms_time".toList = i
  simp [List.intercalate, List.intersperse]

/-- **What is posted is read as the six fields that were meant**: nothing in a request that
    is valid is taken for another field. -/
theorem smsForm_fields {number message smsTime : String}
    (h : valid number message smsTime = true) :
    fields (smsForm number message smsTime).toList =
      formFields number.toList message.toList smsTime.toList := by
  simp only [valid, Bool.and_eq_true, decide_eq_true_iff] at h
  obtain ⟨⟨⟨⟨⟨⟨⟨⟨⟨-, -⟩, hnumber⟩, -⟩, -⟩, -⟩, hmessage⟩, -⟩, -⟩, htime⟩ := h
  replace hnumber := numberChars_all hnumber
  have hn : '&' ∉ escapePlus number.toList :=
    not_mem_escapePlus (by decide) (not_mem_of_all hnumber (by decide))
  have ht : '&' ∉ escapePlus smsTime.toList :=
    not_mem_escapePlus (by decide) (not_mem_of_all htime (by decide))
  have hm : '&' ∉ message.toList := not_mem_of_all hmessage (by decide)
  have hclean : ∀ f ∈ formFields (escapePlus number.toList) message.toList
      (escapePlus smsTime.toList), '=' ∉ f.1 ∧ '&' ∉ f.1 ∧ '&' ∉ f.2 := by
    simp only [formFields, List.forall_mem_cons]
    exact ⟨by decide, ⟨by decide, by decide, hn⟩, ⟨by decide, by decide, hm⟩, by decide, by decide,
      ⟨by decide, by decide, ht⟩, fun _ h => nomatch h⟩
  have hplain : Plain message.toList := fun c hc => by
    have hc := List.all_eq_true.mp hmessage c hc
    constructor
    all_goals
      rintro rfl
      exact absurd hc (by decide)
  rw [smsForm_written, fields_written (by rw [formFields]; exact List.cons_ne_nil _ _) hclean]
  simp only [formFields, List.map_cons, List.map_nil, unquote_plain hplain,
    unquote_escapePlus (not_mem_of_all hnumber (by decide)),
    unquote_escapePlus (not_mem_of_all htime (by decide))]
  rfl

theorem smsForm_fields_hello :
    fields (smsForm "+8613800138000" "4F60597D" "26;08;27;04;00;00;+;0").toList =
      formFields "+8613800138000".toList "4F60597D".toList "26;08;27;04;00;00;+;0".toList :=
  smsForm_fields (by decide)

end Form

/-! ### What `done` means -/

/-- **`power.direct_supply.set`**: `done` is answered after one write at most, and after the
    charger has shown the mode that was asked for. -/
theorem directSupply_done (host : Host) (params : Value) :
    Ensures (execute host "power.direct_supply.set" params) fun t r => ∀ v, r = .ok v →
      ∃ wanted, directSupplyEnabled params = .ok wanted ∧ Supplied wanted t r := by
  show Ensures (directSupply params) _
  cases hw : directSupplyEnabled params with
  | error e =>
    unfold directSupply
    rw [hw]
    exact nofun
  | ok wanted => exact (directSupply_ensures hw).mono fun t r h v hv => ⟨wanted, rfl, h v hv⟩

/-- **`sms.send_raw`**: a message leaves once at most, whatever comes of it.  After `done` it
    has left: the modem said so, having got number and text encrypted with a key of its own and,
    for a slot, after that slot was active; or the other device said so. -/
theorem smsSend_done (host : Host) (params : Value) :
    Ensures (execute host "sms.send_raw" params) fun t r => sendings t ≤ 1 ∧
      ∀ v, r = .ok v → ∃ number message smsTime, str params "number" = some number ∧
        str params "message_hex" = some message ∧ str params "sms_time" = some smsTime ∧
        valid number message smsTime = true ∧
        Sent ((str params "sender").getD "host") number message smsTime t :=
  smsSend_ensures params

end Actions

end Datad
