/-
  Datad/Ubus/Delivery.lean
  ========================
  **How often a call is delivered.**

  A vendor call may change the device, so an INVOKE that has been written is not to be
  sent again, unless ubusd answered NOT_FOUND and the object turns out to have another
  id by now.  Two loops resend: one after NOT_FOUND, one after a failed write on a kept
  connection.  The second does not ask which request failed.  If it was the LOOKUP
  between the two INVOKEs, everything starts over, and the comparison of the ids is
  lost.
-/
import Datad.Ubus.Client

namespace Datad

namespace Ubus

/-! ### What is allowed -/

/-- The request is issued (once more). -/
def Event.issues : Event → Bool
  | .sent .invoke .. | .cli => true
  | _ => false

/-- A LOOKUP completed with another id than this one. -/
def Event.differs (id : Nat) : Event → Bool
  | .found id' => decide (id' ≠ id)
  | _ => false

/-- After an INVOKE with this id and answer: the request is issued again only if the
    answer was NOT_FOUND and another id has been found by then. -/
def Licensed (id : Nat) (status : Option Int) : Bool → List Event → Prop
  | _, [] => True
  | other, e :: l =>
      (e.issues = true → status = some NOT_FOUND ∧ other = true) ∧
        Licensed id status (other || e.differs id) l

/-- Every INVOKE that was completely written is followed by what is allowed. -/
def AtMostOnce : List Event → Prop
  | [] => True
  | e :: l =>
      (∀ id status, e = .sent .invoke id .done status → Licensed id status false l) ∧ AtMostOnce l

/-! ### When it goes wrong -/

/-- The connection is made. -/
def Exchange.opens (e : Exchange) : Bool :=
  match e.connect, e.hello with
  | .done, some (.frame f) => decide (f.msgType = HELLO)
  | _, _ => false

/-- The reply to a request, if ubusd gives one. -/
def Exchange.answer (e : Exchange) (conn : Bool) (seq peer : Nat) : Option Reply :=
  if (conn || e.opens) && decide (e.write = .done) then
    match (receive seq peer [] 0 e.frames).1 with
    | .reply r => some r
    | _ => none
  else none

/-- The id a LOOKUP brings. -/
def Reply.found (r : Reply) (object : String) : Option Nat :=
  if r.status = OK then
    match Reply.idOf object r.data with
    | .ok id => id
    | .error _ => none
  else none

/-- ubusd answers the INVOKE with NOT_FOUND, takes no further write on that connection,
    and finds the same id for the object after a new connection is made. -/
def repeatsAt (object : String) (conn : Bool) (seq id : Nat) : List Exchange → Bool
  | e₁ :: e₂ :: e₃ :: _ =>
      ((e₁.answer conn (nextSeq seq) id).any fun r => decide (r.status = NOT_FOUND)) &&
        e₂.write.failed &&
        ((e₃.answer false (nextSeq (nextSeq (nextSeq seq))) 0).any fun r =>
          decide (r.found object = some id))
  | _ => false

/-- The same, with the LOOKUP before the first INVOKE if the id is not cached. -/
def Wire.repeats (w : Wire) (object : String) : Bool :=
  match w.ids object with
  | some id => repeatsAt object w.conn w.seq id w.script
  | none =>
      match w.script with
      | [] => false
      | e :: rest =>
          match (e.answer w.conn (nextSeq w.seq) 0).bind (·.found object) with
          | some id => repeatsAt object true (nextSeq w.seq) id rest
          | none => false

/-! ### One request -/

/-- What a request comes to, for the exchange that is due. -/
inductive Asked (w : Wire) (ask : Ask) (peer : Nat) : Except UbusError Reply × Wire → Prop where
  | replied {r : Reply} {w' : Wire}
      (ha : (w.script.headD {}).answer w.conn (nextSeq w.seq) peer = some r)
      (hc : w'.conn = true) (hq : w'.seq = nextSeq w.seq) (hi : w'.ids = w.ids)
      (hs : w'.staleWrite = false) (hm : ask = .invoke → w'.invokeMaybeSent = true)
      (hm' : ask = .lookup → w'.invokeMaybeSent = w.invokeMaybeSent)
      (hx : w'.script = w.script.tail)
      (hl : w'.log = w.log ++ [.sent ask peer .done (some r.status)]) :
      Asked w ask peer (.ok r, w')
  /-- The write fails on the kept connection. -/
  | stale {m : String} {err : UbusError} {w' : Wire} (hconn : w.conn = true)
      (ha : (w.script.headD {}).write = .error m)
      (hc : w'.conn = false) (hq : w'.seq = nextSeq w.seq) (hi : w'.ids = fun _ => none)
      (hs : w'.staleWrite = true) (hm : w'.invokeMaybeSent = w.invokeMaybeSent)
      (he : ∀ object method code, err ≠ .status object method code)
      (hx : w'.script = w.script.tail)
      (hl : w'.log = w.log ++ [.sent ask peer (.error m) none]) :
      Asked w ask peer (.error err, w')
  | failed {err : UbusError} {w' : Wire} {l : List Event}
      (ha : (w.script.headD {}).answer w.conn (nextSeq w.seq) peer = none)
      (hs : w'.staleWrite = false)
      (hm : w'.invokeMaybeSent = true ∨ w'.invokeMaybeSent = w.invokeMaybeSent ∧
        ∀ st, .sent .invoke peer .done st ∉ l)
      (he : ∀ object method code, err ≠ .status object method code)
      (hl : w'.log = w.log ++ l)
      (hl' : w.conn = false ∧ l = [] ∨ ∃ a, l = [.sent ask peer a none])
      (hw : w.conn = true → (w.script.headD {}).write.failed = false) :
      Asked w ask peer (.error err, w')

section Sending

variable (w : Wire) (ask : Ask) (a : Answer)

@[simp] theorem Wire.sending_conn : (w.sending ask a).conn = w.conn := by
  rw [sending]; split <;> rfl
@[simp] theorem Wire.sending_seq : (w.sending ask a).seq = w.seq := by
  rw [sending]; split <;> rfl
@[simp] theorem Wire.sending_ids : (w.sending ask a).ids = w.ids := by
  rw [sending]; split <;> rfl
@[simp] theorem Wire.sending_staleWrite : (w.sending ask a).staleWrite = w.staleWrite := by
  rw [sending]; split <;> rfl
@[simp] theorem Wire.sending_script : (w.sending ask a).script = w.script := by
  rw [sending]; split <;> rfl
@[simp] theorem Wire.sending_log : (w.sending ask a).log = w.log := by
  rw [sending]; split <;> rfl

theorem Wire.sending_invoke (ha : a.failed = false) :
    (w.sending .invoke a).invokeMaybeSent = true := by
  rw [sending, if_pos ⟨rfl, ha⟩]

theorem Wire.sending_other (h : ask = .lookup ∨ a.failed = true) :
    (w.sending ask a).invokeMaybeSent = w.invokeMaybeSent := by
  rw [sending, if_neg]
  rintro ⟨rfl, ha⟩
  rcases h with h | h
  · cases h
  · rw [h] at ha; cases ha

end Sending

/-- `request` once there is a connection. -/
theorem Wire.exchange_asked {w v : Wire} {object : String} {ask : Ask} {peer : Nat} {fresh : Bool}
    (hs : v.staleWrite = false) (hc : v.conn = true) (hq : v.seq = nextSeq w.seq)
    (hi : v.ids = w.ids) (hm : v.invokeMaybeSent = w.invokeMaybeSent)
    (hx : v.script = w.script.tail) (hl : v.log = w.log) (hfresh : fresh = !w.conn)
    (hopen : (w.conn || (w.script.headD {}).opens) = true) :
    Asked w ask peer (v.exchange object ask (nextSeq w.seq) peer fresh (w.script.headD {})) := by
  generalize he : w.script.headD {} = e at hopen
  have hmaybe : e.write.failed = false →
      (v.sending ask e.write).invokeMaybeSent = true ∨
        (v.sending ask e.write).invokeMaybeSent = w.invokeMaybeSent ∧
          ∀ st, Event.sent .invoke peer .done st ∉ [Event.sent ask peer e.write none] := by
    intro hw
    cases ask with
    | invoke => exact .inl (v.sending_invoke _ hw)
    | lookup => exact .inr ⟨(v.sending_other _ _ (.inl rfl)).trans hm, by simp⟩
  rw [exchange]
  dsimp only
  rcases hw : e.write with _ | m | _
  · -- written: the reply decides
    have hans : e.answer w.conn (nextSeq w.seq) peer =
        match (receive (nextSeq w.seq) peer [] 0 e.frames).1 with
        | .reply r => some r
        | _ => none := by
      rw [Exchange.answer, hopen, hw]
      rfl
    rw [hw] at hmaybe
    have hmaybe := hmaybe rfl
    dsimp only
    rcases hr : (receive (nextSeq w.seq) peer [] 0 e.frames).1 with r | _ | m | m
    · rw [hr] at hans
      refine .replied (by rw [he]; exact hans) (by simp [note, hc]) (by simp [note, hq])
        (by simp [note, hi]) (by simp [note, hs]) ?_ ?_ (by simp [note, hx]) (by simp [note, hl])
      · rintro rfl
        exact v.sending_invoke _ rfl
      · rintro rfl
        exact (v.sending_other _ _ (.inl rfl)).trans hm
    · rw [hr] at hans
      exact .failed (by rw [he]; exact hans) (by simp [note, timedOut, hs]) hmaybe
        (by simp [timedOut]) (by simp [note, timedOut, hl]) (.inr ⟨_, rfl⟩)
        (by rw [he, hw]; exact fun _ => rfl)
    · rw [hr] at hans
      exact .failed (by rw [he]; exact hans) (by simp [note, lostConnection, hs]) hmaybe
        (by simp) (by simp [note, lostConnection, hl]) (.inr ⟨_, rfl⟩)
        (by rw [he, hw]; exact fun _ => rfl)
    · rw [hr] at hans
      exact .failed (by rw [he]; exact hans) (by simp [note, protocol, hs]) hmaybe
        (by simp [protocol]) (by simp [note, protocol, hl]) (.inr ⟨_, rfl⟩)
        (by rw [he, hw]; exact fun _ => rfl)
  · have hans : e.answer w.conn (nextSeq w.seq) peer = none := by
      rw [Exchange.answer, hw]
      simp
    have hm' := (v.sending_other ask (.error m) (.inr rfl)).trans hm
    subst hfresh
    rcases hconn : w.conn with _ | _
    · have hnot : ∀ st,
          Event.sent .invoke peer .done st ∉ [Event.sent ask peer (.error m) none] := by
        simp
      rw [hconn] at hans
      exact .failed (by rw [he, hconn]; exact hans) rfl (.inr ⟨hm', hnot⟩) (by simp)
        (by simp [note, lostConnection, hl]) (.inr ⟨_, rfl⟩) (by simp [hconn])
    · exact .stale hconn (by rw [he]; exact hw) rfl (by simp [note, lostConnection, hq]) rfl rfl hm'
        (by simp) (by simp [note, lostConnection, hx]) (by simp [note, lostConnection, hl])
  · have hans : e.answer w.conn (nextSeq w.seq) peer = none := by
      rw [Exchange.answer, hw]
      simp
    rw [hw] at hmaybe
    exact .failed (by rw [he]; exact hans) (by simp [note, timedOut, hs]) (hmaybe rfl)
      (by simp [timedOut]) (by simp [note, timedOut, hl]) (.inr ⟨_, rfl⟩)
      (by rw [he, hw]; exact fun _ => rfl)

/-- Connecting changes nothing but the connection, or fails and has sent nothing. -/
theorem Wire.connect_cases (w : Wire) (object : String) (e : Exchange) :
    (∃ w', w.connect object e = (.ok (), w') ∧ e.opens = true ∧ w'.conn = true ∧
        w'.seq = w.seq ∧ w'.ids = w.ids ∧ w'.staleWrite = w.staleWrite ∧
        w'.invokeMaybeSent = w.invokeMaybeSent ∧ w'.script = w.script ∧ w'.log = w.log) ∨
      ∃ err w', w.connect object e = (.error err, w') ∧ e.opens = false ∧
        (∀ object method code, err ≠ .status object method code) ∧
        w'.staleWrite = w.staleWrite ∧ w'.invokeMaybeSent = w.invokeMaybeSent ∧
        w'.log = w.log := by
  rw [connect, Exchange.opens]
  rcases hc : e.connect with _ | m | _
  · rcases hh : e.hello with _ | ⟨f | m | m⟩
    · exact .inr ⟨_, _, rfl, rfl, by simp, rfl, rfl, rfl⟩
    · dsimp only
      by_cases hf : f.msgType = HELLO
      · rw [if_neg (by simpa using hf)]
        exact .inl ⟨_, rfl, decide_eq_true hf, rfl, rfl, rfl, rfl, rfl, rfl, rfl⟩
      · rw [if_pos hf]
        exact .inr ⟨_, _, rfl, decide_eq_false hf, by simp, rfl, rfl, rfl⟩
    · exact .inr ⟨_, _, rfl, rfl, by simp, rfl, rfl, rfl⟩
    · exact .inr ⟨_, _, rfl, rfl, by simp, rfl, rfl, rfl⟩
  · exact .inr ⟨_, _, rfl, rfl, by simp, rfl, rfl, rfl⟩
  · exact .inr ⟨_, _, rfl, rfl, by simp, rfl, rfl, rfl⟩

theorem Wire.request_asked (w : Wire) (object : String) (ask : Ask) (peer : Nat)
    (hs : w.staleWrite = false) : Asked w ask peer (w.request object ask peer) := by
  rw [request]
  dsimp only
  split
  · rename_i hc
    exact exchange_asked hs hc rfl rfl rfl rfl rfl (by rw [hc]; rfl) (by rw [hc]; rfl)
  · rename_i hc
    have hc : w.conn = false := Bool.eq_false_iff.mpr hc
    rcases connect_cases { w with seq := nextSeq w.seq, script := w.script.tail } object
      (w.script.headD {}) with ⟨v, hv, hopen, h1, h2, h3, h4, h5, h6, h7⟩ |
        ⟨err, v, hv, hopen, he, h1, h2, h3⟩
    · rw [hv]
      exact exchange_asked (h4.trans hs) h1 h2 h3 h5 h6 h7 (by rw [hc]; rfl)
        (by rw [hopen]; exact Bool.or_true _)
    · rw [hv]
      refine .failed ?_ (h1.trans hs) (.inr ⟨h2, fun _ => List.not_mem_nil⟩) he
        (h3.trans (List.append_nil _).symm) (.inl ⟨hc, rfl⟩) (by rw [hc]; exact Bool.noConfusion)
      rw [Exchange.answer, hc, hopen]
      rfl

/-! ### A LOOKUP and an INVOKE -/

/-- What comes of a LOOKUP. -/
inductive Looked (object : String) (w : Wire) : Except UbusError Nat × Wire → Prop where
  | found {id : Nat} {w' : Wire}
      (ha : ((w.script.headD {}).answer w.conn (nextSeq w.seq) 0).bind (·.found object) = some id)
      (hc : w'.conn = true) (hq : w'.seq = nextSeq w.seq) (hi : w'.ids object = some id)
      (hs : w'.staleWrite = false) (hm : w'.invokeMaybeSent = w.invokeMaybeSent)
      (hx : w'.script = w.script.tail)
      (hl : w'.log = w.log ++ [.sent .lookup 0 .done (some OK), .found id]) :
      Looked object w (.ok id, w')
  | stale {m : String} {err : UbusError} {w' : Wire} (hconn : w.conn = true)
      (ha : (w.script.headD {}).write = .error m)
      (hc : w'.conn = false) (hq : w'.seq = nextSeq w.seq) (hi : w'.ids = fun _ => none)
      (hs : w'.staleWrite = true) (hm : w'.invokeMaybeSent = w.invokeMaybeSent)
      (hx : w'.script = w.script.tail)
      (hl : w'.log = w.log ++ [.sent .lookup 0 (.error m) none]) :
      Looked object w (.error err, w')
  | failed {err : UbusError} {w' : Wire} {l : List Event}
      (ha : ((w.script.headD {}).answer w.conn (nextSeq w.seq) 0).bind (·.found object) = none)
      (hs : w'.staleWrite = false)
      (hm : w'.invokeMaybeSent = true ∨ w'.invokeMaybeSent = w.invokeMaybeSent)
      (hl : w'.log = w.log ++ l) (hl' : ∀ e ∈ l, e.issues = false)
      (hw : w.conn = true → (w.script.headD {}).write.failed = false) :
      Looked object w (.error err, w')

theorem Exchange.answer_write {e : Exchange} {conn : Bool} {seq peer : Nat} {r : Reply}
    (h : e.answer conn seq peer = some r) : e.write = .done := by
  rw [answer] at h
  split at h
  · rename_i hc
    simp only [Bool.and_eq_true, decide_eq_true_eq] at hc
    exact hc.2
  · cases h

theorem Wire.lookup_looked (w : Wire) (object : String) (hs : w.staleWrite = false) :
    Looked object w (w.lookup object) := by
  rw [lookup]
  dsimp only
  have h := request_asked { w with stats := { w.stats with lookups := w.stats.lookups + 1 } }
    object .lookup 0 hs
  revert h
  generalize request _ object .lookup 0 = p
  rintro (⟨ha, hc, hq, hi, hs', -, hm, hx, hl⟩ | ⟨hconn, ha, hc, hq, hi, hs', hm, he, hx, hl⟩ |
    ⟨ha, hs', hm, he, hl, hl', hw⟩)
  · rename_i r w'
    have hw : (w.script.headD {}).write.failed = false := by
      rw [Exchange.answer_write ha]
      rfl
    -- the reply decides whether there is an id
    have hlog : ∀ e ∈ [Event.sent .lookup 0 .done (some r.status)], e.issues = false := by
      simp [Event.issues]
    have hbind : ((w.script.headD {}).answer w.conn (nextSeq w.seq) 0).bind (·.found object) =
        r.found object := by
      rw [ha]
      rfl
    rw [Reply.found] at hbind
    dsimp only
    split
    · rename_i hr
      rw [if_neg (by rw [hr]; decide)] at hbind
      exact .failed hbind hs' (.inr (hm rfl)) hl hlog fun _ => hw
    split
    · rename_i hr
      rw [if_neg hr] at hbind
      exact .failed hbind hs' (.inr (hm rfl)) hl hlog fun _ => hw
    · rename_i hr
      have hr : r.status = OK := by simpa using hr
      rw [if_pos hr] at hbind
      rw [hr] at hl hlog
      rcases hid : Reply.idOf object r.data with m | _ | id
      · rw [hid] at hbind
        exact .failed hbind hs' (.inr (hm rfl)) hl hlog fun _ => hw
      · rw [hid] at hbind
        exact .failed hbind hs' (.inr (hm rfl)) hl hlog fun _ => hw
      · rw [hid] at hbind
        exact .found hbind hc hq (by simp [note, insert]) hs' (hm rfl) hx
          (by simp [note, insert, hl])
  · exact .stale hconn ha hc hq hi hs' hm hx hl
  · refine .failed (by rw [ha]; rfl) hs' (hm.imp_right And.left) hl ?_ hw
    rcases hl' with ⟨-, rfl⟩ | ⟨a, rfl⟩
    · exact fun e he => absurd he List.not_mem_nil
    · simp [Event.issues]

/-- A completely written INVOKE. -/
def Event.written : Event → Bool
  | .sent .invoke _ .done _ => true
  | _ => false

/-- What comes of an INVOKE. -/
inductive Invoked (object method : String) (id : Nat) (w : Wire) :
    Except UbusError (Option Value) × Wire → Prop where
  /-- It is refused: the only answer after which something may follow. -/
  | refused {r : Reply} {w' : Wire} (hr : r.status ≠ OK)
      (ha : (w.script.headD {}).answer w.conn (nextSeq w.seq) id = some r)
      (hc : w'.conn = true) (hq : w'.seq = nextSeq w.seq)
      (hs : w'.staleWrite = false) (hm : w'.invokeMaybeSent = true)
      (hx : w'.script = w.script.tail)
      (hl : w'.log = w.log ++ [.sent .invoke id .done (some r.status)]) :
      Invoked object method id w (.error (.status object method r.status), w')
  | stale {m : String} {err : UbusError} {w' : Wire}
      (ha : (w.script.headD {}).write = .error m)
      (he : ∀ object method code, err ≠ .status object method code)
      (hi : w'.ids = fun _ => none) (hm : w'.invokeMaybeSent = w.invokeMaybeSent)
      (hl : w'.log = w.log ++ [.sent .invoke id (.error m) none]) :
      Invoked object method id w (.error err, w')
  | ended {res : Except UbusError (Option Value)} {w' : Wire} {l : List Event}
      (ha : ((w.script.headD {}).answer w.conn (nextSeq w.seq) id).any
        (fun r => decide (r.status = NOT_FOUND)) = false)
      (hres : ∀ object method code, res ≠ .error (.status object method code))
      (hs : w'.staleWrite = false)
      (hm : w'.invokeMaybeSent = true ∨ w'.invokeMaybeSent = w.invokeMaybeSent ∧
        ∀ e ∈ l, e.written = false)
      (hl : w'.log = w.log ++ l)
      (hl' : w.conn = false ∧ l = [] ∨ ∃ a st, l = [.sent .invoke id a st]) :
      Invoked object method id w (res, w')

theorem Wire.invoke_invoked (w : Wire) (object : String) (id : Nat) (method : String)
    (hs : w.staleWrite = false) : Invoked object method id w (w.invoke object id method) := by
  rw [invoke]
  dsimp only
  have h := request_asked { w with stats := { w.stats with invokes := w.stats.invokes + 1 } }
    object .invoke id hs
  revert h
  generalize request _ object .invoke id = p
  rintro (⟨ha, hc, hq, hi, hs', hm, -, hx, hl⟩ | ⟨hconn, ha, hc, hq, hi, hs', hm, he, hx, hl⟩ |
    ⟨ha, hs', hm, he, hl, hl', hw⟩)
  · rename_i r w'
    dsimp only
    split
    · rename_i hr
      exact .refused hr ha hc hq hs' (hm rfl) hx hl
    · rename_i hr
      have hr : r.status = OK := by simpa using hr
      have hnot : ((w.script.headD {}).answer w.conn (nextSeq w.seq) id).any
          (fun r => decide (r.status = NOT_FOUND)) = false := by
        rw [ha]
        simp [hr, OK, NOT_FOUND]
      rcases Reply.payload r.data with m | v
      · exact .ended hnot (by simp [protocol]) hs' (.inl (hm rfl)) hl (.inr ⟨_, _, rfl⟩)
      · exact .ended hnot (by simp) hs' (.inl (hm rfl)) hl (.inr ⟨_, _, rfl⟩)
  · exact .stale ha he hi hm hl
  · rename_i err w' l
    refine .ended (by rw [ha]; rfl) (by simpa using he) hs' ?_ hl ?_
    · refine hm.imp_right fun h => ⟨h.1, ?_⟩
      rcases hl' with ⟨-, rfl⟩ | ⟨a, rfl⟩
      · exact fun e he => absurd he List.not_mem_nil
      · rintro e he
        obtain rfl := List.mem_singleton.mp he
        cases a with
        | done => exact absurd (List.mem_singleton.mpr rfl) (h.2 none)
        | error m => rfl
        | silent => rfl
    · exact hl'.imp_right fun ⟨a, h⟩ => ⟨a, none, h⟩

/-! ### One attempt -/

theorem repeatsAt_eq (object : String) (conn : Bool) (seq id : Nat) (script : List Exchange) :
    repeatsAt object conn seq id script =
      ((((script.headD {}).answer conn (nextSeq seq) id).any fun r =>
          decide (r.status = NOT_FOUND)) &&
        (script.tail.headD {}).write.failed &&
        (((script.tail.tail.headD {}).answer false (nextSeq (nextSeq (nextSeq seq))) 0).any fun r =>
          decide (r.found object = some id))) := by
  match script with
  | [] => simp [repeatsAt, Exchange.answer]
  | [_] => simp [repeatsAt, Answer.failed]
  | [_, _] => simp [repeatsAt, Exchange.answer]
  | _ :: _ :: _ :: _ => rfl

/-- What an attempt does that has the id of the object. -/
inductive Attempt (object : String) (id : Nat) (w w' : Wire) : List Event → Prop where
  | once {l : List Event} (hr : repeatsAt object w.conn w.seq id w.script = false)
      (hl : w.conn = false ∧ l = [] ∨ ∃ a st, l = [.sent .invoke id a st])
      (hs : w'.staleWrite = true → w'.ids = (fun _ => none) ∧ ∀ e ∈ l, e.written = false) :
      Attempt object id w w' l
  /-- The LOOKUP after NOT_FOUND brings nothing, or the same id. -/
  | gaveUp {l : List Event} (hr : repeatsAt object w.conn w.seq id w.script = false)
      (hs : w'.staleWrite = false) (hl : ∀ e ∈ l, e.issues = false) :
      Attempt object id w w' (.sent .invoke id .done (some NOT_FOUND) :: l)
  /-- The LOOKUP after NOT_FOUND cannot be written. -/
  | cut {m : String} (hc : w'.conn = false) (hi : w'.ids = fun _ => none)
      (hs : w'.staleWrite = true)
      (hr : repeatsAt object w.conn w.seq id w.script =
        ((w'.script.headD {}).answer false (nextSeq w'.seq) 0).any
          fun r => decide (r.found object = some id)) :
      Attempt object id w w'
        [.sent .invoke id .done (some NOT_FOUND), .sent .lookup 0 (.error m) none]
  | again {id' : Nat} {l : List Event} (hne : id' ≠ id)
      (hr : repeatsAt object w.conn w.seq id w.script = false)
      (hl : l = [] ∨ ∃ a st, l = [.sent .invoke id' a st])
      (hs : w'.staleWrite = true → w'.ids = (fun _ => none) ∧ ∀ e ∈ l, e.written = false) :
      Attempt object id w w' (.sent .invoke id .done (some NOT_FOUND) ::
        .sent .lookup 0 .done (some OK) :: .found id' :: l)

namespace Wire

variable {w : Wire} {object : String} {id : Nat}

theorem resolve_cached (h : w.ids object = some id) : w.resolve object = (.ok id, w) := by
  rw [resolve, h]

/-- The attempt that may not look up again. -/
theorem callOnce_zero (method : String) (hid : w.ids object = some id) (hs : w.staleWrite = false) :
    ∃ l, (callOnce object method 0 w).2.log = w.log ++ l ∧
      (w.conn = false ∧ l = [] ∨ ∃ a st, l = [.sent .invoke id a st]) ∧
      ((callOnce object method 0 w).2.staleWrite = true →
        (callOnce object method 0 w).2.ids = (fun _ => none) ∧ ∀ e ∈ l, e.written = false) ∧
      ((callOnce object method 0 w).2.invokeMaybeSent = true ∨
        (callOnce object method 0 w).2.invokeMaybeSent = w.invokeMaybeSent ∧
          ∀ e ∈ l, e.written = false) := by
  rw [callOnce, resolve_cached hid]
  dsimp only
  have h := invoke_invoked w object id method hs
  revert h
  generalize w.invoke object id method = p
  rintro (⟨hr, ha, hc, hq, hs', hm, hx, hl⟩ | ⟨ha, he, hi, hm, hl⟩ | ⟨ha, hres, hs', hm, hl, hl'⟩)
  · rename_i r w'
    refine ⟨_, ?_, .inr ⟨.done, some r.status, rfl⟩, ?_, .inl ?_⟩
    · dsimp only
      split <;> exact hl
    · dsimp only
      split <;> simp [forget, hs']
    · dsimp only
      split <;> exact hm
  · rename_i m err w'
    have hnot : ∀ e ∈ [Event.sent .invoke id (.error m) none], e.written = false := by
      simp [Event.written]
    cases err with
    | status o m c => exact absurd rfl (he o m c)
    | _ => exact ⟨_, hl, .inr ⟨_, _, rfl⟩, fun _ => ⟨hi, hnot⟩, .inr ⟨hm, hnot⟩⟩
  · rename_i res w' l
    have hs'' : w'.staleWrite ≠ true := by simp [hs']
    rcases res with err | v
    · cases err with
      | status o m c => exact absurd rfl (hres o m c)
      | _ => exact ⟨l, hl, hl', fun h => absurd h hs'', hm⟩
    · exact ⟨l, hl, hl', fun h => absurd h hs'', hm⟩

theorem callOnce_one (method : String) (hid : w.ids object = some id) (hs : w.staleWrite = false) :
    ∃ l, (callOnce object method 1 w).2.log = w.log ++ l ∧
      Attempt object id w (callOnce object method 1 w).2 l ∧
      ((callOnce object method 1 w).2.invokeMaybeSent = true ∨
        (callOnce object method 1 w).2.invokeMaybeSent = w.invokeMaybeSent ∧
          ∀ e ∈ l, e.written = false) := by
  rw [callOnce, resolve_cached hid]
  dsimp only
  have h := invoke_invoked w object id method hs
  revert h
  generalize w.invoke object id method = p
  rintro (⟨hr, ha, hc, hq, hs', hm, hx, hl⟩ | ⟨ha, he, hi, hm, hl⟩ | ⟨ha, hres, hs', hm, hl, hl'⟩)
  · rename_i r w'
    have hrep := repeatsAt_eq object w.conn w.seq id w.script
    rw [ha, Option.any_some] at hrep
    dsimp only
    split
    · rename_i hnf
      rw [hnf] at hl hrep
      have h := lookup_looked (w'.forget object) object hs'
      revert h
      generalize (w'.forget object).lookup object = p
      rintro (⟨ha₂, hc₂, hq₂, hi₂, hs₂, hm₂, hx₂, hl₂⟩ |
        ⟨-, ha₂, hc₂, hq₂, hi₂, hs₂, hm₂, hx₂, hl₂⟩ | ⟨ha₂, hs₂, hm₂, hl₂, hl₂', hw₂⟩)
      · rename_i id' w₂
        -- found: the comparison of the ids decides
        obtain ⟨r₂, hr₂, -⟩ := Option.bind_eq_some_iff.mp ha₂
        have hw₂ : (w.script.tail.headD {}).write.failed = false := by
          rw [← hx]
          exact (congrArg Answer.failed (Exchange.answer_write hr₂)).trans rfl
        rw [hw₂, Bool.and_false, Bool.false_and] at hrep
        replace hl₂ : w₂.log = w.log ++ (.sent .invoke id .done (some NOT_FOUND) ::
            .sent .lookup 0 .done (some OK) :: .found id' :: []) := by
          rw [hl₂]
          simp [forget, hl]
        dsimp only
        split
        · exact ⟨_, hl₂, .gaveUp hrep hs₂ (by simp [Event.issues]), .inl (hm₂.trans hm)⟩
        · rename_i hne
          obtain ⟨l, h1, h2, h3, h4⟩ := callOnce_zero method hi₂ hs₂
          refine ⟨_, ?_, .again hne hrep (h2.imp_left And.right) h3, .inl ?_⟩
          · rw [h1, hl₂, List.append_assoc]
            rfl
          · exact h4.elim (·) fun h => h.1.trans (hm₂.trans hm)
      · rename_i m err w₂
        refine ⟨_, ?_, .cut (m := m) hc₂ hi₂ hs₂ ?_, .inl (hm₂.trans hm)⟩
        · rw [hl₂]
          simp [forget, hl]
        · have hw₂ : (w.script.tail.headD {}).write.failed = true := by
            rw [← hx]
            exact (congrArg Answer.failed ha₂).trans rfl
          rw [hrep, hw₂, hx₂, hq₂]
          simp [forget, hx, hq]
      · rename_i err w₂ l
        have hw₂ : (w.script.tail.headD {}).write.failed = false := by
          rw [← hx]
          exact hw₂ hc
        rw [hw₂, Bool.and_false, Bool.false_and] at hrep
        refine ⟨_, ?_, .gaveUp hrep hs₂ hl₂', .inl (hm₂.elim (·) fun h => h.trans hm)⟩
        rw [hl₂]
        simp [forget, hl]
    · rename_i hnf
      rw [decide_eq_false hnf, Bool.false_and, Bool.false_and] at hrep
      refine ⟨_, ?_, .once hrep (.inr ⟨.done, some r.status, rfl⟩) ?_, .inl ?_⟩
      · split <;> exact hl
      · split <;> simp [forget, hs']
      · split <;> exact hm
  · rename_i m err w'
    have hnot : ∀ e ∈ [Event.sent .invoke id (.error m) none], e.written = false := by
      simp [Event.written]
    have hrep : repeatsAt object w.conn w.seq id w.script = false := by
      rw [repeatsAt_eq, Exchange.answer, ha]
      simp
    cases err with
    | status o m c => exact absurd rfl (he o m c)
    | _ =>
        exact ⟨_, hl, .once hrep (.inr ⟨_, _, rfl⟩) fun _ => ⟨hi, hnot⟩, .inr ⟨hm, hnot⟩⟩
  · rename_i res w' l
    have hs'' : w'.staleWrite ≠ true := by simp [hs']
    have hrep : repeatsAt object w.conn w.seq id w.script = false := by
      rw [repeatsAt_eq, ha]
      rfl
    rcases res with err | v
    · cases err with
      | status o m c => exact absurd rfl (hres o m c)
      | _ => exact ⟨l, hl, .once hrep hl' fun h => absurd h hs'', hm⟩
    · exact ⟨l, hl, .once hrep hl' fun h => absurd h hs'', hm⟩

theorem resolve_ok {w' : Wire} (hs : w.staleWrite = false)
    (h : w.resolve object = (.ok id, w')) : w'.staleWrite = false := by
  rw [resolve] at h
  split at h
  · cases h
    exact hs
  · have hl := lookup_looked w object hs
    rw [h] at hl
    cases hl
    assumption

theorem invoke_ok {w' : Wire} {v : Option Value} (hs : w.staleWrite = false)
    (h : w.invoke object id method = (.ok v, w')) : w'.staleWrite = false := by
  have hi := invoke_invoked w object id method hs
  rw [h] at hi
  cases hi
  assumption

/-- A call that succeeds is not made again. -/
theorem callOnce_ok {n : Nat} {w' : Wire} {v : Option Value} (hs : w.staleWrite = false)
    (h : callOnce object method n w = (.ok v, w')) : w'.staleWrite = false := by
  induction n generalizing w with
  | zero =>
      rw [callOnce] at h
      split at h
      · cases h
      · rename_i id w₁ hr
        have hs₁ := resolve_ok hs hr
        split at h
        · rename_i v w₂ hi
          cases h
          exact invoke_ok hs₁ hi
        · dsimp only at h
          split at h <;> cases h
        · cases h
  | succ n ih =>
      rw [callOnce] at h
      split at h
      · cases h
      · rename_i id w₁ hr
        have hs₁ := resolve_ok hs hr
        split at h
        · rename_i v w₂ hi
          cases h
          exact invoke_ok hs₁ hi
        · rename_i o m code w₂ hi
          have hs₂ : w₂.staleWrite = false := by
            have hi' := invoke_invoked w₁ object id method hs₁
            rw [hi] at hi'
            cases hi' with
            | refused => assumption
            | stale ha he => exact absurd rfl (he _ _ _)
            | ended ha hres => exact absurd rfl (hres _ _ _)
          dsimp only at h
          split at h
          · split at h
            · cases h
            · rename_i id' w₃ hl
              have hl' := lookup_looked (w₂.forget object) object hs₂
              rw [hl] at hl'
              split at h
              · cases h
              · cases hl'
                exact ih ‹_› h
          · split at h <;> cases h
        · cases h

end Wire

/-! ### What an attempt may be followed by -/

/-- Once another id has been found, everything is allowed. -/
theorem licensed_other (id : Nat) (l : List Event) : Licensed id (some NOT_FOUND) true l := by
  induction l with
  | nil => trivial
  | cons e l ih =>
      refine ⟨fun _ => ⟨rfl, rfl⟩, ?_⟩
      rw [Bool.true_or]
      exact ih

theorem licensed_quiet {l : List Event} (h : ∀ e ∈ l, e.issues = false) (id : Nat)
    (status : Option Int) (other : Bool) : Licensed id status other l := by
  induction l generalizing other with
  | nil => trivial
  | cons e l ih =>
      refine ⟨fun he => ?_, ih (fun e' he' => h e' (List.mem_cons_of_mem _ he')) _⟩
      rw [h e List.mem_cons_self] at he
      cases he

theorem Event.written_of_issues {e : Event} (h : e.issues = false) : e.written = false := by
  cases e with
  | sent ask peer write status =>
      cases ask with
      | lookup => rfl
      | invoke => cases h
  | found id => rfl
  | cli => rfl

theorem atMostOnce_cons {e : Event} {l : List Event} (h : e.written = false) :
    AtMostOnce (e :: l) ↔ AtMostOnce l := by
  refine ⟨And.right, fun hl => ⟨?_, hl⟩⟩
  rintro id status rfl
  cases h

theorem atMostOnce_append {l : List Event} (h : ∀ e ∈ l, e.written = false) (l' : List Event) :
    AtMostOnce (l ++ l') ↔ AtMostOnce l' := by
  induction l with
  | nil => rfl
  | cons e l ih =>
      rw [List.cons_append, atMostOnce_cons (h e List.mem_cons_self)]
      exact ih fun e' he' => h e' (List.mem_cons_of_mem _ he')

theorem atMostOnce_quiet {l : List Event} (h : ∀ e ∈ l, e.written = false) : AtMostOnce l := by
  have := (atMostOnce_append h []).mpr trivial
  rwa [List.append_nil] at this

theorem atMostOnce_invoke {id : Nat} {status : Option Int} {l : List Event} :
    AtMostOnce (.sent .invoke id .done status :: l) ↔
      Licensed id status false l ∧ AtMostOnce l := by
  refine ⟨fun h => ⟨h.1 id status rfl, h.2⟩, fun h => ⟨?_, h.2⟩⟩
  rintro id' status' heq
  cases heq
  exact h.1

theorem atMostOnce_single (e : Event) : AtMostOnce [e] :=
  ⟨fun _ _ _ => trivial, trivial⟩

namespace Attempt

variable {object : String} {id : Nat} {w w' : Wire} {l : List Event}

theorem atMostOnce (h : Attempt object id w w' l) : AtMostOnce l := by
  cases h with
  | once hr hl hs =>
      rcases hl with ⟨-, rfl⟩ | ⟨a, st, rfl⟩
      · trivial
      · exact atMostOnce_single _
  | gaveUp hr hs hl =>
      refine atMostOnce_invoke.mpr ⟨licensed_quiet hl _ _ _, atMostOnce_quiet fun e he => ?_⟩
      exact Event.written_of_issues (hl e he)
  | cut hc hi hs hr =>
      refine atMostOnce_invoke.mpr ⟨licensed_quiet ?_ _ _ _, atMostOnce_single _⟩
      simp [Event.issues]
  | again hne hr hl hs =>
      refine atMostOnce_invoke.mpr ⟨?_, ?_⟩
      · refine ⟨by simp [Event.issues], by simp [Event.issues], ?_⟩
        simp only [Event.differs, Bool.or_self, Bool.false_or, decide_eq_true hne]
        exact licensed_other _ _
      · rw [atMostOnce_cons rfl, atMostOnce_cons rfl]
        rcases hl with rfl | ⟨a, st, rfl⟩
        · trivial
        · exact atMostOnce_single _

/-- The attempt has sent the request, when a connection was there. -/
theorem head_issues (h : Attempt object id w w' l) (hc : w.conn = true) :
    ∃ e l', l = e :: l' ∧ e.issues = true := by
  cases h with
  | once hr hl hs =>
      rcases hl with ⟨h, -⟩ | ⟨a, st, rfl⟩
      · rw [hc] at h
        cases h
      · exact ⟨_, _, rfl, rfl⟩
  | gaveUp => exact ⟨_, _, rfl, rfl⟩
  | cut => exact ⟨_, _, rfl, rfl⟩
  | again => exact ⟨_, _, rfl, rfl⟩

end Attempt

/-- What any attempt does. -/
inductive Tried (object : String) (w w' : Wire) : List Event → Prop where
  | unsent {l : List Event} (hid : w.ids object = none) (hr : w.repeats object = false)
      (ha : ((w.script.headD {}).answer w.conn (nextSeq w.seq) 0).bind (·.found object) = none)
      (hq : ∀ e ∈ l, e.issues = false) (hs : w'.staleWrite = true → w'.ids = fun _ => none) :
      Tried object w w' l
  | cached {id : Nat} {l : List Event} (hid : w.ids object = some id)
      (h : Attempt object id w w' l) : Tried object w w' l
  | found {id : Nat} {w₁ : Wire} {l : List Event} (hid : w.ids object = none)
      (ha : ((w.script.headD {}).answer w.conn (nextSeq w.seq) 0).bind (·.found object) = some id)
      (hc : w₁.conn = true)
      (hr : w.repeats object = repeatsAt object w₁.conn w₁.seq id w₁.script)
      (h : Attempt object id w₁ w' l) :
      Tried object w w' (.sent .lookup 0 .done (some OK) :: .found id :: l)

/-- The first LOOKUP of `repeats`, for the exchange that is due. -/
theorem Wire.repeats_none {w : Wire} {object : String} (hid : w.ids object = none) :
    w.repeats object =
      match ((w.script.headD {}).answer w.conn (nextSeq w.seq) 0).bind (·.found object) with
      | some id => repeatsAt object true (nextSeq w.seq) id w.script.tail
      | none => false := by
  rw [repeats, hid]
  rcases w.script with _ | ⟨e, rest⟩
  · simp [Exchange.answer]
  · rfl

theorem Wire.callOnce_tried (w : Wire) (object method : String) (hs : w.staleWrite = false) :
    ∃ l, (callOnce object method 1 w).2.log = w.log ++ l ∧
      Tried object w (callOnce object method 1 w).2 l ∧
      ((callOnce object method 1 w).2.invokeMaybeSent = true ∨
        (callOnce object method 1 w).2.invokeMaybeSent = w.invokeMaybeSent ∧
          ∀ e ∈ l, e.written = false) := by
  rcases hid : w.ids object with _ | id
  · have h := lookup_looked w object hs
    have hrep := repeats_none hid
    rcases hp : w.lookup object with ⟨res, w₁⟩
    rw [hp] at h
    rcases h with ⟨ha, hc, hq, hi, hs', hm, hx, hl⟩ | ⟨hconn, ha, hc, hq, hi, hs', hm, hx, hl⟩ |
      ⟨ha, hs', hm, hl, hl', -⟩
    · rename_i id
      have heq : callOnce object method 1 w = callOnce object method 1 w₁ := by
        rw [callOnce, callOnce, resolve_cached hi, resolve, hid]
        dsimp only
        rw [hp]
      obtain ⟨l, h1, h2, h3⟩ := callOnce_one method hi hs'
      rw [heq]
      refine ⟨_, ?_, .found hid ha hc ?_ h2, ?_⟩
      · rw [h1, hl, List.append_assoc]
        rfl
      · rw [hrep, ha, hc, hq, hx]
      · refine h3.imp_right fun h => ⟨h.1.trans hm, ?_⟩
        simpa [Event.written] using h.2
    · rename_i m err
      have heq : callOnce object method 1 w = (.error err, w₁) := by
        rw [callOnce, resolve, hid]
        dsimp only
        rw [hp]
      have hans : ((w.script.headD {}).answer w.conn (nextSeq w.seq) 0).bind (·.found object) =
          none := by
        rw [Exchange.answer, ha]
        simp
      rw [hans] at hrep
      rw [heq]
      exact ⟨_, hl, .unsent hid hrep hans (by simp [Event.issues]) fun _ => hi,
        .inr ⟨hm, by simp [Event.written]⟩⟩
    · rename_i err l
      have heq : callOnce object method 1 w = (.error err, w₁) := by
        rw [callOnce, resolve, hid]
        dsimp only
        rw [hp]
      rw [ha] at hrep
      rw [heq]
      refine ⟨_, hl, .unsent hid hrep ha hl' fun h => ?_, hm.imp_right fun h => ⟨h, ?_⟩⟩
      · rw [hs'] at h
        cases h
      · exact fun e he => Event.written_of_issues (hl' e he)
  · obtain ⟨l, h1, h2, h3⟩ := callOnce_one method hid hs
    exact ⟨l, h1, .cached hid h2, h3⟩

namespace Tried

variable {object : String} {id : Nat} {w w' : Wire} {l : List Event}

theorem atMostOnce (h : Tried object w w' l) : AtMostOnce l := by
  cases h with
  | unsent hid hr ha hq hs => exact atMostOnce_quiet fun e he => Event.written_of_issues (hq e he)
  | cached hid h => exact h.atMostOnce
  | found hid ha hc hr h =>
      rw [atMostOnce_cons rfl, atMostOnce_cons rfl]
      exact h.atMostOnce

/-- An attempt with no id cached, after an INVOKE that was answered NOT_FOUND: it is
    allowed unless it finds the same id. -/
theorem licensed_iff (h : Tried object w w' l) (hid : w.ids object = none) :
    Licensed id (some NOT_FOUND) false l ↔
      ((w.script.headD {}).answer w.conn (nextSeq w.seq) 0).bind (·.found object) ≠ some id := by
  cases h with
  | unsent _ hr ha hq hs =>
      rw [ha]
      simp [licensed_quiet hq]
  | cached hid' h =>
      rw [hid] at hid'
      cases hid'
  | @found id' w₁ l _ ha hc hr h =>
      rw [ha]
      constructor
      · rintro ⟨-, -, h3⟩ heq
        obtain ⟨e, l', rfl, he⟩ := h.head_issues hc
        simp only [Option.some.injEq] at heq
        simpa [Event.differs, heq] using (h3.1 he).2
      · intro hne
        have hne : id' ≠ id := by simpa using hne
        refine ⟨by simp [Event.issues], by simp [Event.issues], ?_⟩
        simp only [Event.differs, Bool.or_self, Bool.false_or, decide_eq_true hne]
        exact licensed_other _ _

end Tried

section SecondAttempt

variable {object : String} {id : Nat} {w w' w₂ : Wire} {l l₂ : List Event}

theorem Option.any_eq_false_iff_bind {r : Option Reply} :
    (r.any fun r => decide (r.found object = some id)) = false ↔
      r.bind (·.found object) ≠ some id := by
  cases r with
  | none => simp
  | some r => simp

/-- The second attempt repeats the request only after the LOOKUP that was cut off. -/
theorem Attempt.append_iff (h : Attempt object id w w' l) (hs : w'.staleWrite = true)
    (h₂ : Tried object { w' with staleWrite := false } w₂ l₂) :
    AtMostOnce (l ++ l₂) ↔ repeatsAt object w.conn w.seq id w.script = false := by
  cases h with
  | once hr hl hst =>
      rw [atMostOnce_append (hst hs).2]
      exact ⟨fun _ => hr, fun _ => h₂.atMostOnce⟩
  | gaveUp hr hst hl =>
      rw [hst] at hs
      cases hs
  | @cut m hc hi _ hr =>
      have hid : ({ w' with staleWrite := false } : Wire).ids object = none := by
        dsimp only
        rw [hi]
      have hlic : Licensed id (some NOT_FOUND) false l₂ ↔ _ := h₂.licensed_iff hid
      rw [← Option.any_eq_false_iff_bind] at hlic
      dsimp only at hlic
      rw [hc, ← hr] at hlic
      rw [← hlic, List.cons_append, atMostOnce_invoke, List.cons_append, List.nil_append,
        atMostOnce_cons rfl]
      constructor
      · rintro ⟨⟨-, h⟩, -⟩
        exact h
      · exact fun h => ⟨⟨by simp [Event.issues], h⟩, h₂.atMostOnce⟩
  | @again id' l hne hr hl hst =>
      refine ⟨fun _ => hr, fun _ => ?_⟩
      rw [List.cons_append, atMostOnce_invoke]
      constructor
      · refine ⟨by simp [Event.issues], by simp [Event.issues], ?_⟩
        simp only [Event.differs, Bool.or_self, Bool.false_or, decide_eq_true hne]
        exact licensed_other _ _
      · rw [List.cons_append, atMostOnce_cons rfl, List.cons_append, atMostOnce_cons rfl,
          atMostOnce_append (hst hs).2]
        exact h₂.atMostOnce

theorem Tried.append_iff (h : Tried object w w' l) (hs : w'.staleWrite = true)
    (h₂ : Tried object { w' with staleWrite := false } w₂ l₂) :
    AtMostOnce (l ++ l₂) ↔ w.repeats object = false := by
  cases h with
  | unsent hid hr ha hq hst =>
      rw [atMostOnce_append fun e he => Event.written_of_issues (hq e he)]
      exact ⟨fun _ => hr, fun _ => h₂.atMostOnce⟩
  | cached hid h =>
      rw [h.append_iff hs h₂, Wire.repeats, hid]
  | found hid ha hc hr h =>
      rw [hr, ← h.append_iff hs h₂, List.cons_append, atMostOnce_cons rfl, List.cons_append,
        atMostOnce_cons rfl]

theorem Attempt.repeatsAt_eq_false (h : Attempt object id w w' l) (hs : w'.staleWrite = false) :
    repeatsAt object w.conn w.seq id w.script = false := by
  cases h with
  | once hr => exact hr
  | gaveUp hr => exact hr
  | cut hc hi hst =>
      rw [hst] at hs
      cases hs
  | again hne hr => exact hr

theorem Tried.repeats_eq_false (h : Tried object w w' l) (hs : w'.staleWrite = false) :
    w.repeats object = false := by
  cases h with
  | unsent hid hr => exact hr
  | cached hid h =>
      rw [Wire.repeats, hid]
      exact h.repeatsAt_eq_false hs
  | found hid ha hc hr h => exact hr.trans (h.repeatsAt_eq_false hs)

end SecondAttempt

/-! ### The whole call -/

section Call

variable (table : List (String × Value) → List UInt8) (object method : String) (args : Value)

theorem Wire.call_log (w : Wire) :
    ∃ l, (w.call table object method args).2.log = w.log ++ l ∧
      (AtMostOnce l ↔ ¬ (checkArgs table object method args = .ok () ∧ w.repeats object = true)) ∧
      ((w.call table object method args).2.invokeMaybeSent = false →
        ∀ e ∈ l, e.written = false) := by
  rw [call]
  dsimp only
  rcases hargs : checkArgs table object method args with err | _
  · refine ⟨[], (List.append_nil _).symm, ?_, fun _ _ he => absurd he List.not_mem_nil⟩
    simp [AtMostOnce]
  · obtain ⟨l, h1, h2, h3⟩ := callOnce_tried
      { w with invokeMaybeSent := false, staleWrite := false } object method rfl
    have hone : (callOnce object method 1
        { w with invokeMaybeSent := false, staleWrite := false }).2.invokeMaybeSent = false →
          ∀ e ∈ l, e.written = false := by
      intro hm
      rcases h3 with h | h
      · rw [hm] at h
        cases h
      · exact h.2
    dsimp only
    split
    · rename_i e w₁ heq
      rw [heq] at h1 h2 h3 hone
      split
      · rename_i hs
        obtain ⟨l₂, g1, g2, g3⟩ := callOnce_tried { w₁ with staleWrite := false } object
          method rfl
        refine ⟨l ++ l₂, ?_, ?_, ?_⟩
        · rw [g1, ← List.append_assoc, ← h1]
        · rw [h2.append_iff hs g2]
          simp [repeats]
        · intro hm e he
          rcases g3 with h | ⟨h, hl₂⟩
          · rw [hm] at h
            cases h
          · rcases List.mem_append.mp he with he | he
            · exact hone (h.symm.trans hm) e he
            · exact hl₂ e he
      · rename_i hs
        have hr := h2.repeats_eq_false (Bool.eq_false_iff.mpr hs)
        refine ⟨l, h1, ⟨fun _ h => ?_, fun _ => h2.atMostOnce⟩, hone⟩
        exact absurd h.2 (Bool.eq_false_iff.mp hr)
    · rename_i v w₁ heq
      have hs := callOnce_ok rfl heq
      rw [heq] at h1 h2 hone
      have hr := h2.repeats_eq_false hs
      refine ⟨l, h1, ⟨fun _ h => ?_, fun _ => h2.atMostOnce⟩, hone⟩
      exact absurd h.2 (Bool.eq_false_iff.mp hr)

theorem socketCall_snd (w : Wire) :
    (socketCall table object method args w).2 = (w.call table object method args).2 := by
  rw [socketCall]
  split <;> rename_i h <;> rw [h]

/-- What a call leaves outside is what is allowed, except when the LOOKUP between the two
    INVOKEs finds the connection gone and the same object is found on the next one. -/
theorem AutoBackend.call_atMostOnce (now later : Nat) (cli : Except UbusError Value)
    (b : AutoBackend) :
    AtMostOnce ((b.call table object method args now later cli).2.wire.log.drop
        b.wire.log.length) ↔
      ¬ (b.onCli now = false ∧ checkArgs table object method args = .ok () ∧
        b.wire.repeats object = true) := by
  rw [call]
  split
  · rename_i hcli
    simp [hcli, Wire.note, atMostOnce_single]
  · rename_i hcli
    have hcli : b.onCli now = false := Bool.eq_false_iff.mpr hcli
    obtain ⟨l, hl, hiff, hm⟩ := b.wire.call_log table object method args
    rw [← socketCall_snd] at hl hm
    have hiff' : AtMostOnce l ↔ ¬ (b.onCli now = false ∧
        checkArgs table object method args = .ok () ∧ b.wire.repeats object = true) := by
      rw [hiff, hcli]
      simp
    split
    · rename_i e w heq
      rw [heq] at hl hm
      dsimp only at hl hm
      split
      · -- the command line is used only if no INVOKE has been written
        rename_i hsent
        simp only [Wire.lastCallNotSent, Bool.and_eq_true, Bool.not_eq_true'] at hsent
        have hq := hm hsent.2
        rw [← hiff']
        simp only [Wire.note, hl, List.append_assoc, List.drop_left, atMostOnce_append hq]
        exact ⟨fun _ => atMostOnce_quiet hq, fun _ => atMostOnce_single _⟩
      · dsimp only
        rw [hl, List.drop_left]
        exact hiff'
    · rename_i v w heq
      rw [heq] at hl
      dsimp only at hl ⊢
      rw [hl, List.drop_left]
      exact hiff'

end Call

/-- A backend with a kept connection, on which ubusd has given "zwrt_wms" the id 7.  The
    object is gone when the INVOKE arrives, ubusd closes the connection, and the next
    LOOKUP finds the object again under its old id. -/
def AutoBackend.reconnecting : AutoBackend :=
  let status (seq peer : Nat) (code : UInt32) : ReadAnswer :=
    .frame ⟨STATUS, seq, peer, .ok { status := some (.ok code) }⟩
  { wire :=
      { conn := true
        ids := fun o => if o = "zwrt_wms" then some 7 else none
        script :=
          [{ write := .done, frames := [status 1 7 4] },
            { write := .error "Broken pipe" },
            { connect := .done
              hello := some (.frame ⟨HELLO, 0, 0, .ok {}⟩)
              write := .done
              frames :=
                [.frame ⟨DATA, 3, 0, .ok { objpath := some "zwrt_wms", objid := some (.ok 7) }⟩,
                  status 3 0 0] },
            { write := .done, frames := [status 4 7 0] }] } }

/-- The request is sent a second time to the id that it was sent to at first. -/
theorem AutoBackend.call_twice :
    let b := (reconnecting.call (fun _ => []) "zwrt_wms" "zte_libwms_send_sms" (.obj []) 0 0
      (.error (.io ""))).2
    (b.wire.log =
      [.sent .invoke 7 .done (some NOT_FOUND), .sent .lookup 0 (.error "Broken pipe") none,
        .sent .lookup 0 .done (some OK), .found 7, .sent .invoke 7 .done (some OK)]) ∧
      ¬ AtMostOnce (b.wire.log.drop reconnecting.wire.log.length) := by
  intro b
  have hlog : b.wire.log =
      [.sent .invoke 7 .done (some NOT_FOUND), .sent .lookup 0 (.error "Broken pipe") none,
        .sent .lookup 0 .done (some OK), .found 7, .sent .invoke 7 .done (some OK)] := by
    decide +kernel
  refine ⟨hlog, ?_⟩
  rw [hlog]
  intro h
  have hlic := (atMostOnce_invoke.mp h).1
  simp [Licensed, Event.issues, Event.differs] at hlic

end Ubus

end Datad
