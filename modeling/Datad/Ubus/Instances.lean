/-
  Datad/Ubus/Instances.lean
  =========================
  **Whose ids the client uses** (`rust/src/ubus/client.rs`).

  ubusd numbers the objects anew each time it starts, so an id means something only to
  the instance that gave it out.  The client keeps ids between calls and connections.
  Here a call is cut into its requests (`Caller.turn`), so that ubusd may be restarted
  between any two of them, and an observer writes down for each frame which instance
  serves the connection it goes out on (`Peers`).

  The cache is cleared when a connection breaks.  It is kept when the client itself
  drops the connection, after a timeout or a malformed message, and when a connection
  cannot be made; an instance that starts in that time is sent ids of the one before it.
-/
import Datad.Lib.Ghost
import Datad.Ubus.Delivery

namespace Datad

namespace Ubus

open Transition

/-! ### A call, request by request -/

/-- Which request a call makes next. -/
inductive Stage where
  | idle
  /-- The top of the loop in `call_once`: INVOKE if the id is cached, else LOOKUP. -/
  | resolve (retries : Nat)
  | invoke (id retries : Nat)
  /-- INVOKE was answered NOT_FOUND; the object is looked up again. -/
  | again (id : Nat) (err : UbusError) (retries : Nat)
deriving DecidableEq, Repr

structure Caller where
  wire : Wire := {}
  object : String := ""
  method : String := ""
  resent : Bool := false
  stage : Stage := .idle
  result : Option (Except UbusError (Option Value)) := none

namespace Caller

/-- `call_once` has returned. -/
def finish (c : Caller) : Except UbusError (Option Value) → Caller
  | .error e =>
      if c.wire.staleWrite && !c.resent then
        { c with wire := { c.wire with staleWrite := false }, resent := true, stage := .resolve 1 }
      else { c with stage := .idle, result := some (.error e) }
  | .ok v => { c with stage := .idle, result := some (.ok v) }

def invoke (c : Caller) (id retries : Nat) : Caller :=
  match c.wire.invoke c.object id c.method with
  | (.ok v, w) => { c with wire := w }.finish (.ok v)
  | (.error (.status o m code), w) =>
      match retries with
      | n + 1 =>
          if code = NOT_FOUND then
            { c with wire := w.forget c.object, stage := .again id (.status o m code) n }
          else if code = METHOD_NOT_FOUND then
            { c with wire := w.forget c.object }.finish (.error (.status o m code))
          else { c with wire := w }.finish (.error (.status o m code))
      | 0 =>
          if code = NOT_FOUND ∨ code = METHOD_NOT_FOUND then
            { c with wire := w.forget c.object }.finish (.error (.status o m code))
          else { c with wire := w }.finish (.error (.status o m code))
  | (.error e, w) => { c with wire := w }.finish (.error e)

/-- Make the next request. -/
def turn (c : Caller) : Option Caller :=
  match c.stage with
  | .idle => none
  | .resolve n =>
      match c.wire.ids c.object with
      | some id => some (c.invoke id n)
      | none =>
          match c.wire.lookup c.object with
          | (.error e, w) => some ({ c with wire := w }.finish (.error e))
          | (.ok id, w) => some { c with wire := w, stage := .invoke id n }
  | .invoke id n => some (c.invoke id n)
  | .again id err n =>
      match c.wire.lookup c.object with
      | (.error e, w) => some ({ c with wire := w }.finish (.error e))
      | (.ok id', w) =>
          if id' = id then some ({ c with wire := w }.finish (.error err))
          else some { c with wire := w, stage := .resolve n }

/-- Begin a call. -/
def start (table : List (String × Value) → List UInt8) (object method : String) (args : Value)
    (c : Caller) : Caller :=
  let w := { c.wire with invokeMaybeSent := false }
  match checkArgs table object method args with
  | .error e => { c with wire := w, result := some (.error e) }
  | .ok () =>
      { wire := { w with staleWrite := false }, object, method, stage := .resolve 1 }

end Caller

/-- A call begins, or the call under way makes a request; `host` is the instance of
    ubusd that listens on the socket at that time. -/
inductive Act where
  | call (object method : String) (args : Value)
  | turn (host : Nat)

def Caller.next (table : List (String × Value) → List UInt8) (c : Caller) : Act → Option Caller
  | .call object method args =>
      if c.stage = .idle then some (c.start table object method args) else none
  | .turn _ => c.turn

/-! ### What a request leaves -/

/-- The next request has a connection to be written on. -/
def Wire.linked (w : Wire) : Bool := w.conn || (w.script.headD {}).opens

/-- From `w` to `w'` no id is added to the cache, and the events `l` are logged. -/
structure Leaves (w w' : Wire) (l : List Event) : Prop where
  ids : ∀ o id, w'.ids o = some id → w.ids o = some id
  log : w'.log = w.log ++ l

namespace Leaves

variable {w v w' : Wire} {l l' : List Event}

theorem of_eq (hi : w'.ids = w.ids) (hl : w'.log = w.log) : Leaves w w' [] :=
  ⟨fun _ _ h => by rwa [← hi], by rw [hl, List.append_nil]⟩

theorem trans (h : Leaves w v l) (h' : Leaves v w' l') : Leaves w w' (l ++ l') :=
  ⟨fun o id hid => h.ids o id (h'.ids o id hid), by rw [h'.log, h.log, List.append_assoc]⟩

theorem note (h : Leaves w v []) (e : Event) : Leaves w (v.note e) [e] :=
  ⟨h.ids, by rw [Wire.note, h.log, List.append_nil]⟩

end Leaves

namespace Wire

variable (w : Wire) (object : String)

theorem timedOut_leaves : Leaves w (w.timedOut object).2 [] := by
  refine ⟨fun o id h => ?_, (List.append_nil _).symm⟩
  simp only [timedOut] at h
  split at h
  · cases h
  · exact h

theorem forget_leaves : Leaves w (w.forget object) [] := by
  refine ⟨fun o id h => ?_, (List.append_nil _).symm⟩
  simp only [forget] at h
  split at h
  · cases h
  · exact h

theorem lostConnection_leaves : Leaves w w.lostConnection [] :=
  ⟨fun _ _ h => (by cases h), (List.append_nil _).symm⟩

theorem connect_leaves (e : Exchange) : Leaves w (w.connect object e).2 [] := by
  rcases connect_cases w object e with ⟨w', hw, -, -, -, hi, -, -, -, hl⟩ | ⟨err, w', hw, -⟩
  · rw [hw]
    exact .of_eq hi hl
  · rw [connect]
    split
    · exact w.timedOut_leaves object
    · exact .of_eq rfl rfl
    · split
      · exact w.timedOut_leaves object
      · exact .of_eq rfl rfl
      · exact .of_eq rfl rfl
      · split
        · exact .of_eq rfl rfl
        · exact .of_eq rfl rfl

theorem exchange_leaves (ask : Ask) (seq peer : Nat) (fresh : Bool) (e : Exchange) :
    ∃ status, Leaves w (w.exchange object ask seq peer fresh e).2
      [.sent ask peer e.write status] := by
  have hi := sending_ids w ask e.write
  have hl := sending_log w ask e.write
  rw [exchange]
  dsimp only
  split
  · refine ⟨none, .note (.trans (.of_eq ?_ ?_) (lostConnection_leaves _)) _⟩
    · exact hi
    · exact hl
  · exact ⟨none, .note (.trans (.of_eq hi hl) (timedOut_leaves _ object)) _⟩
  · split
    · refine ⟨_, .note (.of_eq ?_ ?_) _⟩
      · exact hi
      · exact hl
    · refine ⟨none, .note (.trans (.of_eq ?_ ?_) (timedOut_leaves _ object)) _⟩
      · exact hi
      · exact hl
    · refine ⟨none, .note (.trans (.of_eq ?_ ?_) (lostConnection_leaves _)) _⟩
      · exact hi
      · exact hl
    · refine ⟨none, .note (.of_eq ?_ ?_) _⟩
      · exact hi
      · exact hl

/-- A request writes one frame, if there is a connection to write it on. -/
theorem request_leaves (ask : Ask) (peer : Nat) :
    ∃ l, Leaves w (w.request object ask peer).2 l ∧
      (w.linked = false ∧ l = [] ∧ (∃ e, (w.request object ask peer).1 = .error e) ∨
        w.linked = true ∧ ∃ a status, l = [.sent ask peer a status]) := by
  have hseq : Leaves w { w with seq := nextSeq w.seq, script := w.script.tail } [] :=
    .of_eq rfl rfl
  rw [request]
  dsimp only
  split
  · rename_i hc
    obtain ⟨status, h⟩ := exchange_leaves { w with seq := nextSeq w.seq, script := w.script.tail }
      object ask (nextSeq w.seq) peer false (w.script.headD {})
    exact ⟨_, hseq.trans h, .inr ⟨by rw [linked, hc]; rfl, _, _, rfl⟩⟩
  · rename_i hc
    have hc : w.conn = false := Bool.eq_false_iff.mpr hc
    have hconn := connect_leaves { w with seq := nextSeq w.seq, script := w.script.tail } object
      (w.script.headD {})
    rcases connect_cases { w with seq := nextSeq w.seq, script := w.script.tail } object
      (w.script.headD {}) with ⟨v, hv, hopen, -⟩ | ⟨err, v, hv, hopen, -⟩
    · rw [hv] at hconn ⊢
      obtain ⟨status, h⟩ := exchange_leaves v object ask (nextSeq w.seq) peer true
        (w.script.headD {})
      exact ⟨_, (hseq.trans hconn).trans h,
        .inr ⟨by rw [linked, hopen, Bool.or_true], _, _, rfl⟩⟩
    · rw [hv] at hconn ⊢
      exact ⟨[], hseq.trans hconn, .inl ⟨by rw [linked, hc, hopen]; rfl, rfl, err, rfl⟩⟩

/-- A LOOKUP that succeeds caches the id and logs it. -/
theorem lookup_leaves :
    (∃ e w' l, w.lookup object = (.error e, w') ∧ Leaves w w' l ∧
        (w.linked = false → l = []) ∧ ∀ id a status, .sent .invoke id a status ∉ l) ∨
      ∃ id v a status, w.lookup object = (.ok id, (v.insert object id).note (.found id)) ∧
        w.linked = true ∧ Leaves w v [.sent .lookup 0 a status] := by
  have hw : Leaves w { w with stats := { w.stats with lookups := w.stats.lookups + 1 } } [] :=
    .of_eq rfl rfl
  obtain ⟨l, hl, hlink⟩ := request_leaves
    { w with stats := { w.stats with lookups := w.stats.lookups + 1 } } object .lookup 0
  have hl := hw.trans hl
  have hnone : w.linked = false → l = [] := by
    intro hw
    rcases hlink with ⟨-, h, -⟩ | ⟨h, -⟩
    · exact h
    · exact absurd (hw.symm.trans h) Bool.false_ne_true
  have hask : ∀ id a status, .sent .invoke id a status ∉ l := by
    intro id a status
    rcases hlink with ⟨-, rfl, -⟩ | ⟨-, a', st, rfl⟩
    · exact List.not_mem_nil
    · simp
  rw [lookup]
  dsimp only
  rcases hreq : request { w with stats := { w.stats with lookups := w.stats.lookups + 1 } }
    object .lookup 0 with ⟨e | reply, w'⟩
  · rw [hreq] at hl
    exact .inl ⟨e, w', l, rfl, hl, hnone, hask⟩
  · rw [hreq] at hl
    dsimp only
    split
    · exact .inl ⟨_, w', l, rfl, hl, hnone, hask⟩
    split
    · exact .inl ⟨_, w', l, rfl, hl, hnone, hask⟩
    split
    · exact .inl ⟨_, _, l, rfl, ⟨hl.ids, hl.log⟩, hnone, hask⟩
    · exact .inl ⟨_, w', l, rfl, hl, hnone, hask⟩
    · rename_i id _
      rcases hlink with ⟨-, -, e, he⟩ | ⟨hlink, a, status, rfl⟩
      · rw [hreq] at he
        cases he
      · exact .inr ⟨id, w', a, status, rfl, hlink, hl⟩

theorem invoke_leaves (id : Nat) (method : String) :
    ∃ l, Leaves w (w.invoke object id method).2 l ∧
      (w.linked = false ∧ l = [] ∨
        w.linked = true ∧ ∃ a status, l = [.sent .invoke id a status]) := by
  have hw : Leaves w { w with stats := { w.stats with invokes := w.stats.invokes + 1 } } [] :=
    .of_eq rfl rfl
  obtain ⟨l, hl, hlink⟩ := request_leaves
    { w with stats := { w.stats with invokes := w.stats.invokes + 1 } } object .invoke id
  have hl := hw.trans hl
  refine ⟨l, ?_, hlink.imp_left fun h => ⟨h.1, h.2.1⟩⟩
  rw [invoke]
  dsimp only
  rcases hreq : request { w with stats := { w.stats with invokes := w.stats.invokes + 1 } }
    object .invoke id with ⟨e | reply, w'⟩
  · rw [hreq] at hl
    exact hl
  · rw [hreq] at hl
    dsimp only
    split
    · exact hl
    split
    · exact ⟨hl.ids, hl.log⟩
    · exact hl

end Wire

/-! ### The requests make up the call -/

section Requests

variable {table : List (String × Value) → List UInt8}

/-- From `c` the requests lead to `c'`, whoever listens meanwhile. -/
def Leads (table : List (String × Value) → List UInt8) (c c' : Caller) : Prop :=
  ∃ n, ∀ hosts : List Nat, hosts.length = n →
    run (Caller.next table) (fun _ _ => true) c (hosts.map .turn) = some c'

theorem Leads.refl (c : Caller) : Leads table c c := by
  refine ⟨0, fun hosts h => ?_⟩
  rw [List.length_eq_zero_iff.mp h]
  rfl

theorem Leads.head {c c₁ c' : Caller} (hs : c.turn = some c₁) (h : Leads table c₁ c') :
    Leads table c c' := by
  obtain ⟨n, hn⟩ := h
  refine ⟨n + 1, fun hosts hlen => ?_⟩
  obtain ⟨host, hosts, rfl⟩ := List.exists_cons_of_length_eq_add_one hlen
  have hrest := hn hosts (Nat.succ.inj hlen)
  rw [List.map_cons, run, if_pos rfl]
  rw [show Caller.next table c (.turn host) = some c₁ from hs]
  exact hrest

theorem Leads.trans {c c₁ c' : Caller} (h : Leads table c c₁) (h' : Leads table c₁ c') :
    Leads table c c' := by
  obtain ⟨n, hn⟩ := h
  induction n generalizing c with
  | zero =>
    have heq : c = c₁ := Option.some.inj (hn [] rfl)
    rw [heq]
    exact h'
  | succ n ih =>
    rcases ht : c.turn with _ | c₂
    · have := hn (List.replicate (n + 1) 0) List.length_replicate
      rw [List.replicate_succ, List.map_cons, run, if_pos rfl,
        show Caller.next table c (.turn 0) = none from ht] at this
      cases this
    · refine .head ht (ih fun hosts hlen => ?_)
      have := hn (0 :: hosts) (by simp [hlen])
      rw [List.map_cons, run, if_pos rfl,
        show Caller.next table c (.turn 0) = some c₂ from ht] at this
      exact this

namespace Caller

theorem finish_stage (c : Caller) (w : Wire) (s : Stage) (r : Except UbusError (Option Value)) :
    finish { c with wire := w, stage := s } r = finish { c with wire := w } r := by
  cases r <;> rfl

/-- What is left of `call_once` once the id is known. -/
theorem invoke_leads (table : List (String × Value) → List UInt8) (n : Nat) :
    ∀ (c : Caller) (v : Wire) (id : Nat),
    v.resolve c.object = (.ok id, c.wire) →
      Leads table (c.invoke id n)
        ({ c with wire := (Wire.callOnce c.object c.method n v).2 }.finish
          (Wire.callOnce c.object c.method n v).1) := by
  induction n with
  | zero =>
    intro c v id hres
    rw [Wire.callOnce, hres, invoke]
    dsimp only
    rcases c.wire.invoke c.object id c.method with
      ⟨(_ | _ | _ | ⟨o, m, code⟩ | _ | _ | _) | v, w⟩
    case error.status =>
      dsimp only
      split
      · exact .refl _
      · exact .refl _
    all_goals exact .refl _
  | succ n ih =>
    intro c v id hres
    rw [Wire.callOnce, hres, invoke]
    dsimp only
    rcases c.wire.invoke c.object id c.method with
      ⟨(_ | _ | _ | ⟨o, m, code⟩ | _ | _ | _) | v, w⟩
    case error.status =>
      dsimp only
      split
      · rcases (w.forget c.object).lookup_leaves c.object with
          ⟨e, w', -, hl, -⟩ | ⟨id', u, -, -, hl, -⟩
        · refine .head ?_ (.refl _)
          simp only [turn, hl]
          rw [finish_stage]
        · rw [hl]
          dsimp only
          split
          · rename_i hid
            refine .head ?_ (.refl _)
            simp only [turn, hl, if_pos hid]
            rw [finish_stage]
          · rename_i hid
            -- the new id is cached, and the loop goes round once more
            have hcached : ((u.insert c.object id').note (.found id')).ids c.object = some id' := by
              simp [Wire.insert, Wire.note]
            let d : Caller := { c with
              wire := (u.insert c.object id').note (.found id'), stage := .resolve n }
            have hd : d.turn = some (d.invoke id' n) := by simp only [d, turn, hcached]
            have hrest := ih d d.wire id' (by rw [Wire.resolve, hcached])
            rw [finish_stage] at hrest
            refine .head ?_ (.head hd hrest)
            simp only [turn, hl, if_neg hid, d]
      · split
        · exact .refl _
        · exact .refl _
    all_goals exact .refl _

theorem callOnce_leads (table : List (String × Value) → List UInt8) {c : Caller} {n : Nat}
    (hst : c.stage = .resolve n) :
    Leads table c
      ({ c with wire := (Wire.callOnce c.object c.method n c.wire).2 }.finish
        (Wire.callOnce c.object c.method n c.wire).1) := by
  rcases hid : c.wire.ids c.object with _ | id
  · rcases c.wire.lookup_leaves c.object with ⟨e, w, -, hl, -⟩ | ⟨id, u, -, -, hl, -⟩
    · refine .head ?_ (.refl _)
      cases n <;> simp only [turn, hst, hid, hl, Wire.callOnce, Wire.resolve]
    · let d : Caller := { c with
        wire := (u.insert c.object id).note (.found id), stage := .invoke id n }
      have hrest := invoke_leads table n d c.wire id (by
        rw [Wire.resolve, hid]
        exact hl)
      rw [finish_stage] at hrest
      refine .head ?_ (.head (show d.turn = some (d.invoke id n) from rfl) hrest)
      simp only [turn, hst, hid, hl, d]
  · have hrest := invoke_leads table n c c.wire id (by rw [Wire.resolve, hid])
    refine .head ?_ hrest
    simp only [turn, hst, hid]

/-- **A call is the sequence of its requests.**  Whichever instances of ubusd listen at
    the requests, they end with the result of `UbusClient::call` and the client in the
    state it leaves. -/
theorem start_leads (c : Caller) (hst : c.stage = .idle) (object method : String) (args : Value) :
    ∃ c', Leads table (c.start table object method args) c' ∧ c'.stage = .idle ∧
      c'.wire = (c.wire.call table object method args).2 ∧
      c'.result = some (c.wire.call table object method args).1 := by
  rw [start, Wire.call]
  dsimp only
  rcases checkArgs table object method args with e | _
  · exact ⟨_, .refl _, hst, rfl, rfl⟩
  · dsimp only
    let first : Caller :=
      { wire := { c.wire with invokeMaybeSent := false, staleWrite := false }, object := object
        method := method, stage := .resolve 1 }
    have hfirst := callOnce_leads table (c := first) rfl
    dsimp only [first] at hfirst
    rcases hone : Wire.callOnce object method 1
      { c.wire with invokeMaybeSent := false, staleWrite := false } with ⟨e | v, w⟩
    · rw [hone] at hfirst
      dsimp only [finish] at hfirst ⊢
      rcases hw : w.staleWrite with _ | _
      · simp only [hw] at hfirst
        exact ⟨_, hfirst, rfl, rfl, rfl⟩
      · simp only [hw] at hfirst
        let second : Caller :=
          { wire := { w with staleWrite := false }, object := object, method := method
            resent := true, stage := .resolve 1 }
        have hsecond := callOnce_leads table (c := second) rfl
        dsimp only [second] at hsecond
        refine ⟨_, hfirst.trans hsecond, ?_⟩
        rcases Wire.callOnce object method 1 { w with staleWrite := false } with ⟨e | v, w'⟩
        · rw [finish, Bool.not_true, Bool.and_false]
          exact ⟨rfl, rfl, rfl⟩
        · exact ⟨rfl, rfl, rfl⟩
    · rw [hone] at hfirst
      exact ⟨_, hfirst, rfl, rfl, rfl⟩

end Caller

end Requests

/-! ### Who gave out the ids -/

/-- The instance of ubusd that serves the connection, or served the last one, and
    everything that was logged, each with the instance it took place with. -/
structure Peers where
  host : Nat := 0
  seen : List (Nat × Event) := []

def Peers.see (c : Caller) (a : Act) (c' : Caller) (g : Peers) : Peers :=
  match a with
  | .call .. => g
  | .turn host =>
      let host := if !c.wire.conn && (c.wire.script.headD {}).opens then host else g.host
      { host, seen := g.seen ++ (c'.wire.log.drop c.wire.log.length).map (host, ·) }

/-- Each INVOKE goes to the instance that has given out its id, in reply to a LOOKUP. -/
def Issued (seen : List (Nat × Event)) : Prop :=
  ∀ pre post host id a status, seen = pre ++ (host, .sent .invoke id a status) :: post →
    (host, .found id) ∈ pre

/-- No connection is made to another instance than the last while ids are cached. -/
def Steady (s : Caller × Peers) : Act → Prop
  | .call .. => True
  | .turn host =>
      s.1.wire.conn = false → (s.1.wire.script.headD {}).opens = true →
        (∃ o, s.1.wire.ids o ≠ none) → host = s.2.host

/-- What one turn does to the cache and the log. -/
structure Turned (c c' : Caller) (l : List Event) : Prop where
  log : c'.wire.log = c.wire.log ++ l
  linked : c.wire.linked = false → l = []
  ids : ∀ o id, c'.wire.ids o = some id → c.wire.ids o = some id ∨ .found id ∈ l
  invokes : ∀ id a status, .sent .invoke id a status ∈ l → c.wire.ids c.object = some id
  carried : ∀ id n, c'.stage = .invoke id n → c'.wire.ids c'.object = some id

theorem Caller.finish_spec (c : Caller) (r : Except UbusError (Option Value)) :
    (c.finish r).wire.ids = c.wire.ids ∧ (c.finish r).wire.log = c.wire.log ∧
      ∀ id n, (c.finish r).stage ≠ .invoke id n := by
  rcases r with e | v
  · rw [finish]
    split
    · exact ⟨rfl, rfl, fun _ _ h => (by cases h)⟩
    · exact ⟨rfl, rfl, fun _ _ h => (by cases h)⟩
  · exact ⟨rfl, rfl, fun _ _ h => (by cases h)⟩

/-- A turn that ends the attempt. -/
theorem Turned.finish {c : Caller} {w : Wire} {l : List Event} (h : Leaves c.wire w l)
    (hlink : c.wire.linked = false → l = [])
    (hinv : ∀ id a status, .sent .invoke id a status ∈ l → c.wire.ids c.object = some id)
    (r : Except UbusError (Option Value)) : Turned c ({ c with wire := w }.finish r) l := by
  obtain ⟨hids, hlog, hstage⟩ := Caller.finish_spec { c with wire := w } r
  exact ⟨hlog.trans h.log, hlink, fun o id hid => .inl (h.ids o id (by rwa [hids] at hid)), hinv,
    fun id n hst => absurd hst (hstage id n)⟩

/-- A turn whose LOOKUP succeeds: the id it finds is cached. -/
theorem Turned.found {c d : Caller} {v : Wire} {id : Nat} {a : Answer} {status : Option Int}
    (hlink : c.wire.linked = true) (hv : Leaves c.wire v [.sent .lookup 0 a status])
    (hobj : d.object = c.object)
    (hlog : d.wire.log = ((v.insert c.object id).note (.found id)).log)
    (hids : d.wire.ids = ((v.insert c.object id).note (.found id)).ids)
    (hst : ∀ i n, d.stage = .invoke i n → i = id) :
    Turned c d [.sent .lookup 0 a status, .found id] where
  log := by
    rw [hlog]
    simp [Wire.note, Wire.insert, hv.log]
  linked := fun hw => absurd (hw.symm.trans hlink) Bool.false_ne_true
  ids := by
    intro o i hi
    rw [hids] at hi
    simp only [Wire.note, Wire.insert] at hi
    split at hi
    · cases hi
      exact .inr (by simp)
    · exact .inl (hv.ids o i hi)
  invokes := by
    intro i a' status' hm
    simp at hm
  carried := by
    intro i n hi
    rw [hids, hobj, hst i n hi]
    simp [Wire.note, Wire.insert]

namespace Caller

theorem invoke_turned {c : Caller} {id : Nat} (n : Nat) (hid : c.wire.ids c.object = some id) :
    ∃ l, Turned c (c.invoke id n) l := by
  obtain ⟨l, hl, hlink⟩ := c.wire.invoke_leaves c.object id c.method
  have hnone : c.wire.linked = false → l = [] := by
    intro hw
    rcases hlink with ⟨-, h⟩ | ⟨h, -⟩
    · exact h
    · exact absurd (hw.symm.trans h) Bool.false_ne_true
  have hinv : ∀ i a status, .sent .invoke i a status ∈ l → c.wire.ids c.object = some i := by
    intro i a status hm
    rcases hlink with ⟨-, rfl⟩ | ⟨-, a', status', rfl⟩
    · exact absurd hm List.not_mem_nil
    · cases List.mem_singleton.mp hm
      exact hid
  refine ⟨l, ?_⟩
  have hforget : ∀ w, Leaves c.wire w l → Leaves c.wire (w.forget c.object) l := by
    intro w hw
    simpa using hw.trans (w.forget_leaves c.object)
  rw [invoke]
  rcases hi : c.wire.invoke c.object id c.method with
    ⟨(_ | _ | _ | ⟨o, m, code⟩ | _ | _ | _) | v, w⟩ <;> rw [hi] at hl
  case error.status =>
    rcases n with _ | n
    · dsimp only
      split
      · exact .finish (hforget w hl) hnone hinv _
      · exact .finish hl hnone hinv _
    · dsimp only
      split
      · have hf := hforget w hl
        exact ⟨hf.log, hnone, fun o i h => .inl (hf.ids o i h), hinv, fun _ _ h => (by cases h)⟩
      split
      · exact .finish (hforget w hl) hnone hinv _
      · exact .finish hl hnone hinv _
  all_goals exact .finish hl hnone hinv _

theorem turn_turned {c c' : Caller} (h : c.turn = some c')
    (hc : ∀ id n, c.stage = .invoke id n → c.wire.ids c.object = some id) :
    ∃ l, Turned c c' l := by
  rw [turn] at h
  split at h
  · cases h
  · split at h
    · cases h
      exact invoke_turned _ ‹_›
    · rcases c.wire.lookup_leaves c.object with
        ⟨e, w, l, hl, hleaves, hnone, hask⟩ | ⟨id, v, a, status, hl, hlink, hv⟩
      · rw [hl] at h
        cases h
        exact ⟨l, .finish hleaves hnone (fun i a st hm => absurd hm (hask i a st)) _⟩
      · rw [hl] at h
        cases h
        refine ⟨_, Turned.found hlink hv rfl rfl rfl fun i n hi => ?_⟩
        cases hi
        rfl
  · rename_i id n hst
    cases h
    exact invoke_turned n (hc id n hst)
  · rcases c.wire.lookup_leaves c.object with
      ⟨e, w, l, hl, hleaves, hnone, hask⟩ | ⟨id, v, a, status, hl, hlink, hv⟩
    · rw [hl] at h
      cases h
      exact ⟨l, .finish hleaves hnone (fun i a st hm => absurd hm (hask i a st)) _⟩
    · rw [hl] at h
      dsimp only at h
      split at h
      · cases h
        obtain ⟨hids, hlog, hstage⟩ := finish_spec
          { c with wire := (v.insert c.object id).note (.found id) } (.error ‹UbusError›)
        refine ⟨_, Turned.found hlink hv ?_ hlog hids
          fun i n hi => absurd hi (hstage i n)⟩
        rw [finish]
        split <;> rfl
      · cases h
        exact ⟨_, Turned.found hlink hv rfl rfl rfl fun i n hi => (by cases hi)⟩

end Caller

/-! ### Runs -/

/-- Between two requests: every cached id is one that the instance at the other end has
    given out. -/
structure Sound (s : Caller × Peers) : Prop where
  cached : ∀ o id, s.1.wire.ids o = some id → (s.2.host, .found id) ∈ s.2.seen
  carried : ∀ id n, s.1.stage = .invoke id n → s.1.wire.ids s.1.object = some id
  issued : Issued s.2.seen

theorem Issued.append {seen l : List (Nat × Event)} (h : Issued seen)
    (hl : ∀ host id a status, (host, .sent .invoke id a status) ∈ l → (host, .found id) ∈ seen) :
    Issued (seen ++ l) := by
  intro pre post host id a status heq
  rcases List.append_eq_append_iff.mp heq with ⟨m, rfl, hm⟩ | ⟨m, hm, hpost⟩
  · refine List.mem_append_left m (hl host id a status ?_)
    rw [hm]
    simp
  · rcases m with _ | ⟨e, m⟩
    · rw [List.append_nil] at hm
      rw [← hm]
      refine hl host id a status ?_
      rw [← List.nil_append l, ← hpost]
      simp
    · rw [List.cons_append, List.cons.injEq] at hpost
      rw [← hpost.1] at hm
      exact h pre m host id a status hm

theorem Sound.step {table : List (String × Value) → List UInt8} {s s' : Caller × Peers} {a : Act}
    (h : Sound s) (hok : Steady s a)
    (hs : watched (Caller.next table) Peers.see s a = some s') : Sound s' := by
  obtain ⟨hn, hg⟩ := watched_eq_some.mp hs
  obtain ⟨c, g⟩ := s
  obtain ⟨c', g'⟩ := s'
  cases a with
  | call object method args =>
    obtain rfl : g' = g := hg
    simp only [Caller.next] at hn
    split at hn
    · rename_i hidle
      cases hn
      rw [Caller.start]
      dsimp only
      split
      · exact ⟨h.cached, fun id n hst => absurd (hst.symm.trans hidle) (by simp), h.issued⟩
      · exact ⟨h.cached, fun id n hst => (by cases hst), h.issued⟩
    · cases hn
  | turn host =>
    obtain ⟨l, ht⟩ := Caller.turn_turned hn h.carried
    have hdrop : c'.wire.log.drop c.wire.log.length = l := by rw [ht.log, List.drop_left]
    simp only [Peers.see, hdrop] at hg
    -- with ids in the cache, the connection goes to the instance they are from
    have hhost : ∀ o id, c.wire.ids o = some id → g'.host = g.host := by
      intro o id hid
      rw [hg]
      dsimp only
      split
      · rename_i hopen
        rw [Bool.and_eq_true, Bool.not_eq_true'] at hopen
        exact hok hopen.1 hopen.2 ⟨o, by rw [hid]; exact Option.some_ne_none id⟩
      · rfl
    have hseen : g'.seen = g.seen ++ l.map (g'.host, ·) := by rw [hg]
    refine ⟨fun o id hid => ?_, ht.carried, ?_⟩
    · show (g'.host, Event.found id) ∈ g'.seen
      rw [hseen]
      rcases ht.ids o id hid with hid | hfound
      · rw [hhost o id hid]
        exact List.mem_append_left _ (h.cached o id hid)
      · exact List.mem_append_right _ (List.mem_map_of_mem hfound)
    · show Issued g'.seen
      rw [hseen]
      refine h.issued.append fun p id b status hm => ?_
      obtain ⟨e, he, heq⟩ := List.mem_map.mp hm
      obtain ⟨rfl, rfl⟩ := Prod.mk.inj heq
      have hid := ht.invokes id b status he
      rw [hhost c.object id hid]
      exact h.cached c.object id hid

/-- **Every INVOKE carries an id of the instance it is sent to**, in every run in which no
    connection is made to another instance than the last while ids are cached. -/
theorem Caller.invokes_issued (table : List (String × Value) → List UInt8) (path : String)
    (timeoutMs : Nat) (script : List Exchange) {s : Caller × Peers}
    (h : Exec (watched (Caller.next table) Peers.see) Steady
      ({ wire := { path, timeoutMs, script } }, {}) s) : Issued s.2.seen := by
  have hinit : Sound ({ wire := { path, timeoutMs, script } }, {}) := by
    refine ⟨fun o id hid => (by cases hid), fun id n hst => (by cases hst), ?_⟩
    intro pre post host id a status heq
    simp at heq
  exact (h.invariant Sound (fun hs hok hn => hs.step hok hn) hinit).issued

/-- ubusd gives "zwrt_wlan" the id 7, and does not answer for "zwrt_wms". -/
def wlanThenSilence : List Exchange :=
  let status (seq peer : Nat) (code : UInt32) : ReadAnswer :=
    .frame ⟨STATUS, seq, peer, .ok { status := some (.ok code) }⟩
  let hello : Option ReadAnswer := some (.frame ⟨HELLO, 0, 0, .ok {}⟩)
  [{ connect := .done
     hello
     write := .done
     frames := [.frame ⟨DATA, 1, 0, .ok { objpath := some "zwrt_wlan", objid := some (.ok 7) }⟩,
       status 1 0 0] },
    { write := .done, frames := [status 2 7 0] },
    { write := .done, frames := [] },
    { connect := .done, hello, write := .done, frames := [status 4 7 0] }]

/-- The client drops the connection at the timeout and keeps the id 7. -/
def twoCalls (later : Nat) : List Act :=
  [.call "zwrt_wlan" "reload" (.obj []), .turn 0, .turn 0,
    .call "zwrt_wms" "zte_libwms_get_sms_data" (.obj []), .turn 0,
    .call "zwrt_wlan" "reload" (.obj []), .turn later]

def sameHost (s : Caller × Peers) : Act → Bool
  | .call .. => true
  | .turn host => decide (host = s.2.host)

theorem steady_of_sameHost (s : Caller × Peers) (a : Act) (h : sameHost s a = true) :
    Steady s a := by
  cases a with
  | call object method args => trivial
  | turn host => exact fun _ _ _ => of_decide_eq_true h

/-- ubusd runs on, and the kept id is still its own. -/
theorem Caller.invokes_issued_running :
    ∃ s, Exec (watched (Caller.next fun _ => []) Peers.see) Steady
        ({ wire := { script := wlanThenSilence } }, {}) s ∧
      (0, .sent .invoke 7 .done (some OK)) ∈ s.2.seen ∧ Issued s.2.seen := by
  have hrun : (run (watched (Caller.next fun _ => []) Peers.see) sameHost
      ({ wire := { script := wlanThenSilence } }, {}) (twoCalls 0)).any
        (fun s => decide ((0, .sent .invoke 7 .done (some OK)) ∈ s.2.seen)) = true := by
    decide +kernel
  obtain ⟨s, hs, hp⟩ := Exec.exists_of_run steady_of_sameHost (.refl _) hrun
  exact ⟨s, hs, of_decide_eq_true hp, invokes_issued _ _ _ _ hs⟩

/-- ubusd is restarted after the timeout: the new instance is sent the id 7, which only
    the old one has given out. -/
theorem Caller.invoke_outlives :
    ∃ s, Exec (watched (Caller.next fun _ => []) Peers.see) (fun _ _ => True)
        ({ wire := { script := wlanThenSilence } }, {}) s ∧ ¬ Issued s.2.seen := by
  let seen : List (Nat × Event) :=
    [(0, .sent .lookup 0 .done (some OK)), (0, .found 7), (0, .sent .invoke 7 .done (some OK)),
      (0, .sent .lookup 0 .done none)]
  have hrun : (run (watched (Caller.next fun _ => []) Peers.see) (fun _ _ => true)
      ({ wire := { script := wlanThenSilence } }, {}) (twoCalls 1)).any
        (fun s => decide (s.2.seen = seen ++ [(1, .sent .invoke 7 .done (some OK))])) = true := by
    decide +kernel
  obtain ⟨s, hs, hp⟩ := Exec.exists_of_run (fun _ _ _ => trivial) (.refl _) hrun
  refine ⟨s, hs, fun hissued => ?_⟩
  have hmem := hissued seen [] 1 7 .done (some OK) (of_decide_eq_true hp)
  simp [seen] at hmem

end Ubus

end Datad
