/-
  Datad/Executor/Gate.lean
  ========================
  **The gate before the next write** (`call_here`, `reopen_gate`, `probe_for` of
  `executor.rs`).

  A write that times out may still be under way on the other side.  The object is kept, and
  before the next call of a write it is asked something harmless, four times at most, until
  it answers.  Rounds and other reads neither close the gate nor wait for it.

  One call says what it does with the gate (`callHere_ensures`); by induction on the calls,
  the requests of a whole run are in the order `Gated` says (`serve_ensures`), which is read
  off between two writes (`Gated.between`).
-/
import Datad.Lib.Interaction
import Datad.Ubus.Call

namespace Datad

namespace Executor

open Interaction Interaction.Program Ubus

/-- A call of `call_here`; `writing` is the flag that `write_scope` sets. -/
structure Op where
  round : Bool
  writing : Bool
  call : Invocation

def Op.writes (op : Op) : Bool := !op.round && op.writing

/-- What `raw_call` is asked for. -/
inductive Raw where
  | call (op : Op)
  | probe (i : Invocation)

abbrev RawEvent := Sigma fun _ : Raw => CallAnswer

def timedOut : CallAnswer → Bool
  | .error (.client (.timeout ..)) => true
  | _ => false

def PROBES : List (String × String) :=
  [("zte_nwinfo_api", "nwinfo_get_netinfo"), ("zwrt_data", "get_wwaniface"),
    ("zwrt_zte_mdm.api", "get_sim_info"), ("zwrt_apn_object", "get_apn_mode"),
    ("zwrt_router.api", "router_get_status_no_auth"), ("zwrt_bsp.usb", "list"),
    ("zwrt_wms", "zwrt_wms_get_wms_capacity"), ("zwrt_nfc", "zwrt_nfc_wifi_get")]

def GATE_PROBES : Nat := 4

section

-- the requests of the blocks
variable (requests : List Invocation)

def probeFor (object : String) : Invocation :=
  match PROBES.find? fun p => decide (p.1 = object) with
  | some (o, m) =>
      ⟨o, m,
        if o = "zwrt_data" then
          .obj [("cid", .num (.int 1)), ("connect_status", .str ""), ("source_module", .str "web")]
        else .obj []⟩
  | none =>
      match requests.find? fun r => decide (r.service = object) with
      | some r => r
      | none => ⟨"system", "board", .obj []⟩

/-- Whatever comes of it, the gate is open afterwards. -/
def reopenGate : Option String → Program Raw (fun _ => CallAnswer) Unit
  | none => .ret ()
  | some object => do
      let _ ← attempts (fun _ => do
        let r ← request (.probe (probeFor requests object))
        .ret (if timedOut r then none else some ())) GATE_PROBES 0
      .ret ()

/-- `call_here`: the answer, and the gate behind it. -/
def callHere (gate : Option String) (op : Op) :
    Program Raw (fun _ => CallAnswer) (CallAnswer × Option String) :=
  if op.writes then do
    reopenGate requests gate
    let r ← request (.call op)
    .ret (r, if timedOut r then some op.call.service else none)
  else do
    let r ← request (.call op)
    .ret (r, gate)

/-- Calls one after the other, as the executor makes them. -/
def serve : List Op → Option String → Program Raw (fun _ => CallAnswer) (Option String)
  | [], gate => .ret gate
  | op :: ops, gate => do
      let r ← callHere requests gate op
      serve ops r.2

/-! ### One call -/

/-- The probes between a timeout and the next write: all but the last have timed out, and the
    last did not, or it is the fourth. -/
structure Probed (object : String) (ps : List RawEvent) : Prop where
  asks : ∀ e ∈ ps, e.1 = .probe (probeFor requests object)
  most : ps.length ≤ GATE_PROBES
  before : ∀ e ∈ ps.dropLast, timedOut e.2 = true
  last : ∃ e, ps.getLast? = some e ∧ (timedOut e.2 = false ∨ ps.length = GATE_PROBES)

theorem reopenGate_ensures (object : String) :
    Ensures (reopenGate requests (some object)) fun t _ => Probed requests object t := by
  have hloop := Ensures.attempts_lt
    (I := fun n (t : List RawEvent) => t.length = n ∧
      ∀ e ∈ t, e.1 = .probe (probeFor requests object) ∧ timedOut e.2 = true)
    (K := fun t (_ : Unit) => Probed requests object t) (n := GATE_PROBES)
    (f := fun _ => do
      let r ← request (.probe (probeFor requests object))
      .ret (if timedOut r then none else some ()))
    (fun n hn before hbefore => ?_) GATE_PROBES 0 [] rfl ⟨rfl, fun _ he => nomatch he⟩
  · refine hloop.bind fun t r ht => ?_
    show Probed requests object (t ++ [])
    rw [List.append_nil]
    cases r with
    | some u => exact ht.2 u rfl
    | none =>
      obtain ⟨hlen, hall⟩ := ht.1 rfl
      rw [List.nil_append] at hlen hall
      have hne : t ≠ [] := List.ne_nil_of_length_pos (by rw [hlen]; decide)
      exact
        { asks := fun e he => (hall e he).1
          most := Nat.le_of_eq hlen
          before := fun e he => (hall e (List.dropLast_subset t he)).2
          last := ⟨_, List.getLast?_eq_getLast_of_ne_nil hne, Or.inr hlen⟩ }
  · obtain ⟨hlen, hall⟩ := hbefore
    refine Ensures.request fun r => ?_
    have hasks : ∀ e ∈ before ++ [(⟨.probe (probeFor requests object), r⟩ : RawEvent)],
        e.1 = .probe (probeFor requests object) := fun e he => by
      rcases List.mem_append.mp he with he | he
      · exact (hall e he).1
      · rw [List.mem_singleton.mp he]
    have hlength : (before ++ [(⟨.probe (probeFor requests object), r⟩ : RawEvent)]).length =
        n + 1 := by
      rw [List.length_append, hlen]
      rfl
    cases hr : timedOut r with
    | true =>
      refine ⟨fun _ => ⟨hlength, fun e he => ⟨hasks e he, ?_⟩⟩, fun _ h => nomatch h⟩
      rcases List.mem_append.mp he with he | he
      · exact (hall e he).2
      · rw [List.mem_singleton.mp he]
        exact hr
    | false =>
      refine ⟨(fun h => nomatch h), fun _ _ => ?_⟩
      exact
        { asks := hasks
          most := by omega
          before := fun e he => by
            rw [List.dropLast_concat] at he
            exact (hall e he).2
          last := ⟨_, List.getLast?_concat, Or.inl hr⟩ }

/-! ### A run -/

/-- The gate behind a call of a write. -/
def closedBy (op : Op) (r : CallAnswer) : Option String :=
  if timedOut r then some op.call.service else none

/-- The order of the requests from one gate to another. -/
inductive Gated : Option String → List RawEvent → Option String → Prop
  | nil (g : Option String) : Gated g [] g
  | other {g g' : Option String} {op : Op} {r : CallAnswer} {t : List RawEvent}
      (h : op.writes = false) (ht : Gated g t g') : Gated g (⟨.call op, r⟩ :: t) g'
  | opened {g' : Option String} {op : Op} {r : CallAnswer} {t : List RawEvent}
      (h : op.writes = true) (ht : Gated (closedBy op r) t g') :
      Gated none (⟨.call op, r⟩ :: t) g'
  | probed {object : String} {g' : Option String} {ps : List RawEvent} {op : Op} {r : CallAnswer}
      {t : List RawEvent} (hps : Probed requests object ps) (h : op.writes = true)
      (ht : Gated (closedBy op r) t g') : Gated (some object) (ps ++ ⟨.call op, r⟩ :: t) g'

variable {requests}

theorem callHere_ensures (gate : Option String) (op : Op) :
    Ensures (callHere requests gate op) fun t r => ∀ t' g', Gated requests r.2 t' g' →
      Gated requests gate (t ++ t') g' := by
  unfold callHere
  cases hw : op.writes with
  | false => exact fun r t' g' ht => .other hw ht
  | true =>
    cases gate with
    | none => exact fun r t' g' ht => .opened hw ht
    | some object =>
      refine (reopenGate_ensures requests object).bind fun ps _ hps => ?_
      intro r t' g' ht
      show Gated requests (some object) (ps ++ [⟨.call op, r⟩] ++ t') g'
      rw [List.append_assoc]
      exact .probed hps hw ht

theorem serve_ensures (ops : List Op) :
    ∀ gate, Ensures (serve requests ops gate) fun t g => Gated requests gate t g := by
  induction ops with
  | nil => exact fun gate => .nil gate
  | cons op ops ih =>
    exact fun gate => (callHere_ensures gate op).bind fun t r h =>
      (ih r.2).mono fun t' g' ht => h t' g' ht

/-! ### Between two writes -/

/-- A call of a write. -/
def isWrite (e : RawEvent) : Bool :=
  match e.1 with
  | .call op => op.writes
  | .probe _ => false

/-- What comes before the first `y` with the property is inside what comes before any. -/
theorem append_inside {α : Type} {p : α → Bool} {as bs cs ds : List α} {y : α}
    (has : ∀ a ∈ as, p a = false) (hy : p y = true) (h : as ++ bs = cs ++ y :: ds) :
    ∃ m, cs = as ++ m ∧ bs = m ++ y :: ds := by
  rcases List.append_eq_append_iff.mp h with ⟨m, hcs, hbs⟩ | ⟨m, has', hds⟩
  · exact ⟨m, hcs, hbs⟩
  · cases m with
    | nil =>
      rw [List.append_nil] at has'
      exact ⟨[], by rw [has', List.append_nil], hds.symm⟩
    | cons z m =>
      obtain ⟨rfl, -⟩ := List.cons.inj hds
      have hz : y ∈ as := by
        rw [has']
        exact List.mem_append_right _ List.mem_cons_self
      rw [has y hz] at hy
      cases hy

theorem Probed.not_write {object : String} {ps : List RawEvent} (h : Probed requests object ps) :
    ∀ e ∈ ps, isWrite e = false := fun e he => by
  rw [isWrite, h.asks e he]

/-- The gate after a write. -/
theorem Gated.after {g g' : Option String} {t a rest : List RawEvent} {w : Op} {r : CallAnswer}
    (h : Gated requests g t g') (hw : w.writes = true) (ht : t = a ++ ⟨.call w, r⟩ :: rest) :
    Gated requests (closedBy w r) rest g' := by
  induction h generalizing a with
  | nil => simp at ht
  | other hop _ ih =>
    cases a with
    | nil =>
      obtain ⟨he, -⟩ := List.cons.inj ht
      cases he
      rw [hop] at hw
      cases hw
    | cons e a => exact ih (List.cons.inj ht).2
  | opened _ h ih =>
    cases a with
    | nil =>
      obtain ⟨he, rfl⟩ := List.cons.inj ht
      cases he
      exact h
    | cons e a => exact ih (List.cons.inj ht).2
  | probed hps _ h ih =>
    have hwrite : isWrite ⟨.call w, r⟩ = true := hw
    obtain ⟨m, -, hm⟩ := append_inside hps.not_write hwrite ht
    cases m with
    | nil =>
      obtain ⟨he, rfl⟩ := List.cons.inj hm
      cases he
      exact h
    | cons e m => exact ih (List.cons.inj hm).2

/-- What comes before the next write: other calls, and the probes if the gate is closed. -/
theorem Gated.before {g g' : Option String} {t b c : List RawEvent} {w : Op} {r : CallAnswer}
    (h : Gated requests g t g') (hw : w.writes = true) (hb : ∀ e ∈ b, isWrite e = false)
    (ht : t = b ++ ⟨.call w, r⟩ :: c) :
    ∃ others ps, b = others ++ ps ∧ (∀ e ∈ others, ∃ op, e.1 = .call op ∧ op.writes = false) ∧
      (g = none → ps = []) ∧ ∀ object, g = some object → Probed requests object ps := by
  induction h generalizing b with
  | nil => simp at ht
  | other hop _ ih =>
    cases b with
    | nil =>
      obtain ⟨he, -⟩ := List.cons.inj ht
      cases he
      rw [hop] at hw
      cases hw
    | cons e b =>
      obtain ⟨rfl, htail⟩ := List.cons.inj ht
      obtain ⟨others, ps, rfl, hothers, hps⟩ :=
        ih (fun e he => hb e (List.mem_cons_of_mem _ he)) htail
      refine ⟨_ :: others, ps, rfl, fun e he => ?_, hps⟩
      rcases List.mem_cons.mp he with rfl | he
      · exact ⟨_, rfl, hop⟩
      · exact hothers e he
  | opened hop _ _ =>
    cases b with
    | nil => exact ⟨[], [], rfl, (fun _ he => nomatch he), fun _ => rfl, nofun⟩
    | cons e b =>
      obtain ⟨rfl, -⟩ := List.cons.inj ht
      exact absurd (hop.symm.trans (hb _ List.mem_cons_self)) (by decide)
  | probed hps hop _ _ =>
    -- both are what comes before the first write
    have hwrite : isWrite ⟨.call w, r⟩ = true := hw
    obtain ⟨m, rfl, hm⟩ := append_inside hps.not_write hwrite ht
    cases m with
    | nil =>
      refine ⟨[], _, List.append_nil _, (fun _ he => nomatch he), nofun, ?_⟩
      rintro _ ⟨⟩
      exact hps
    | cons e m =>
      obtain ⟨rfl, -⟩ := List.cons.inj hm
      exact absurd (hop.symm.trans (hb _ (List.mem_append_right _ List.mem_cons_self)))
        (by decide)

/-- **No write goes out on the heels of one that timed out.**  Between two calls of writes,
    with none in between, the object of the first is asked something harmless if and only if
    the first timed out: up to four times, right before the second, until it answers. -/
theorem serve_between (requests : List Invocation) (ops : List Op) (gate g : Option String)
    (t a b c : List RawEvent) (w₁ w₂ : Op) (r₁ r₂ : CallAnswer)
    (hrun : Interaction.Run (serve requests ops gate) t g)
    (ht : t = a ++ ⟨.call w₁, r₁⟩ :: (b ++ ⟨.call w₂, r₂⟩ :: c))
    (h₁ : w₁.writes = true) (h₂ : w₂.writes = true) (hb : ∀ e ∈ b, isWrite e = false) :
    ∃ others ps, b = others ++ ps ∧ (∀ e ∈ others, ∃ op, e.1 = .call op ∧ op.writes = false) ∧
      (timedOut r₁ = false → ps = []) ∧
      (timedOut r₁ = true → Probed requests w₁.call.service ps) := by
  have hgated := ensures_iff.mp (serve_ensures ops gate) t g hrun
  obtain ⟨others, ps, hsplit, hothers, hopen, hclosed⟩ := (hgated.after h₁ ht).before h₂ hb rfl
  refine ⟨others, ps, hsplit, hothers, fun h => hopen ?_, fun h => hclosed _ ?_⟩
  · rw [closedBy, h]
    rfl
  · rw [closedBy, h]
    rfl

/-- A write of an APN that times out, a round, and the next write. -/
def apnWrites : List Op :=
  [⟨false, true, ⟨"zwrt_apn_object", "add_manu_apn", .obj []⟩⟩,
    ⟨true, true, ⟨"system", "board", .obj []⟩⟩,
    ⟨false, true, ⟨"zwrt_wlan", "reload", .obj []⟩⟩]

/-- The object does not answer. -/
def deaf : Raw → CallAnswer
  | .call op => if op.writes then .error (.client (.timeout op.call.service "")) else .ok (.obj [])
  | .probe i => .error (.client (.timeout i.service ""))

theorem serve_between_apn :
    ∃ others ps, (answered deaf (serve [] apnWrites none)).1.extract 1 6 = others ++ ps ∧
      Probed [] "zwrt_apn_object" ps := by
  have hrun := run_answered deaf (serve [] apnWrites none)
  obtain ⟨others, ps, hsplit, -, -, hps⟩ := serve_between [] apnWrites none _ _ []
    ((answered deaf (serve [] apnWrites none)).1.extract 1 6) [] _ _ _ _ hrun rfl rfl rfl
    (by decide)
  exact ⟨others, ps, hsplit, hps rfl⟩

end

end Executor

end Datad
