/-
  Datad/Collect/Coherence.lean
  ============================
  **Writes and the caches of the old collection** (`state.rs`, `control_job`,
  `UbusDevice::write`).

  A round reads ubus and uci through two caches: safe point, look-up, request, store.
  Control jobs and the writes of transactions run at the safe points.  A control job drops
  both caches before it calls the device, on the executor; a transaction drops them after
  its job, outside the executor, while the next round may already be reading.  Either way
  nothing that was asked before the device calls is served once the write is over
  (`writes_visible`).

  The code does not keep the fields marked as the observer's.
-/
import Datad.Collect.Cache

namespace Datad

namespace Coherence

open Hub Transition Ubus

/-! ### The caches -/

structure Cached (α : Type) where
  at_ : Instant
  ttl : Duration
  value : α
  /-- How many device calls writes had made when the request went out (observer). -/
  issued : Nat

abbrev Cache (κ α : Type) := κ → Option (Cached α)

namespace Cache

variable {κ α : Type}

/-- `cache_get`. -/
def get (c : Cache κ α) (key : κ) (now : Instant) : Option (Cached α) :=
  (c key).bind fun e => if now - e.at_ < e.ttl then some e else none

/-- `cache_put`. -/
def put [DecidableEq κ] (c : Cache κ α) (key : κ) (e : Cached α) : Cache κ α :=
  fun k => if k = key then some e else c k

/-- `cache_last_ok`: the last value of a key, expired or not, unless it is a failure. -/
def lastOk {ε : Type} (c : Cache κ (Except ε α)) (key : κ) : Option (α × Nat) :=
  (c key).bind fun e =>
    match e.value with
    | .ok v => some (v, e.issued)
    | .error _ => none

def empty : Cache κ α := fun _ => none

/-- All entries were asked for after that many device calls. -/
def Above (c : Cache κ α) (m : Nat) : Prop := ∀ k e, c k = some e → m ≤ e.issued

theorem above_empty (m : Nat) : Above (empty : Cache κ α) m := by
  intro k e h
  cases h

theorem Above.put [DecidableEq κ] {c : Cache κ α} {m : Nat} (h : c.Above m) (key : κ)
    {e : Cached α} (he : m ≤ e.issued) : (c.put key e).Above m := by
  intro k e' hk
  rw [Cache.put] at hk
  split at hk
  · cases hk
    exact he
  · exact h k e' hk

theorem Above.get {c : Cache κ α} {m : Nat} (h : c.Above m) {key : κ} {now : Instant}
    {e : Cached α} (hg : c.get key now = some e) : m ≤ e.issued := by
  rw [Cache.get, Option.bind_eq_some_iff] at hg
  obtain ⟨e', hk, he⟩ := hg
  split at he
  · cases he
    exact h key _ hk
  · cases he

theorem Above.lastOk {ε : Type} {c : Cache κ (Except ε α)} {m : Nat} (h : c.Above m) {key : κ}
    {v : α} {issued : Nat} (hg : c.lastOk key = some (v, issued)) : m ≤ issued := by
  rw [Cache.lastOk, Option.bind_eq_some_iff] at hg
  obtain ⟨e, hk, he⟩ := hg
  split at he
  · cases he
    exact h key e hk
  · cases he

end Cache

/-! ### Rounds and jobs -/

/-- The output of `uci show`, a map from paths to values. -/
abbrev Shown := List (String × String)

/-- A cached read: `ubus_ttl_read` or `uci_show_ttl`, with its seconds to live. -/
inductive Read where
  | ubus (ttl : Nat) (key : Invocation)
  | uci (ttl : Nat) (package : String)

def Read.ttl : Read → Nat
  | .ubus ttl _ | .uci ttl _ => ttl

/-- Whether a read uses its cache. -/
def Read.cached (r : Read) (enabled : Bool) : Bool := decide (r.ttl ≠ 0) && enabled

/-- What a request comes back with. -/
inductive Answer where
  | ubus (a : CallAnswer)
  | uci (shown : Shown)

/-- What a read returns. -/
inductive Reply where
  | ubus (v : Except String Value)
  | uci (shown : Shown)

/-- Where a round is. -/
inductive Stage where
  /-- Between two cached reads. -/
  | idle
  /-- At the safe point before the look-up. -/
  | begun (r : Read)
  | missed (r : Read)
  /-- The request is out. -/
  | waiting (r : Read) (issued : Nat)
  /-- Answered, to be stored. -/
  | storing (r : Read) (issued : Nat) (v : Reply)

/-- What the executor is in the middle of. -/
inductive Frame where
  | round (stage : Stage)
  /-- An internal task, which may be a round (`round_now`). -/
  | job
  /-- `control_job`; `acting`: past the gate, in `control_task`.  `last` is the number of the
      last device call it has made. -/
  | control (action : String) (acting : Bool) (last : Option Nat)
  /-- The task of `UbusDevice::write`. -/
  | write (last : Option Nat)

/-- `read_only`. -/
def readOnly (action : String) : Bool := decide (action = "sms.list_after")

/-- A write of a transaction whose task is over, on its way out of `UbusDevice::write`. -/
structure Leaving where
  last : Nat
  ubusDropped : Bool := false
  uciDropped : Bool := false

/-- A control job that has ended or a write that has returned (observer). -/
structure Ended where
  readOnly : Bool
  /-- The number of its last device call. -/
  last : Nat

/-- What a read returned (observer). -/
structure Got where
  reply : Reply
  /-- When the request went out, if the reply is from the cache. -/
  cached : Option Nat
  /-- The control jobs and writes that were over by then. -/
  ended : List Ended

structure State where
  ubus : Cache Invocation (Except String Value) := .empty
  uci : Cache String Shown := .empty
  now : Instant := 0
  /-- The innermost first. -/
  frames : List Frame := []
  leaving : List Leaving := []
  /-- How many device calls control jobs and writes have made (observer). -/
  calls : Nat := 0
  /-- The control jobs and writes that are over (observer). -/
  ended : List Ended := []
  /-- What the reads have returned, the newest first (observer). -/
  got : List Got := []

inductive Act where
  | wait (d : Duration)
  /-- `invalidate_sms_cache`, by the handler of SMS events. -/
  | invalidateSms
  /-- A round starts. -/
  | start
  | begin (r : Read)
  | lookup
  | request
  | reply (answer : Answer)
  | put
  | finish
  | job
  | jobEnd
  | control (action : String)
  /-- The gate answers for the control job. -/
  | refuse
  /-- `control_task` begins. -/
  | act
  /-- The control job or write on top makes a device call. -/
  | call
  | controlEnd (success : Bool)
  | write
  | writeEnd
  /-- The two halves of `invalidate_cache`, for the `i`-th write on its way out. -/
  | dropUbus (i : Nat)
  | dropUci (i : Nat)
  | writeReturns (i : Nat)

namespace State

variable (enabled : Bool)

/-- `invalidate_cache`, on the executor. -/
def invalidate (s : State) : State := { s with ubus := .empty, uci := .empty }

/-- The read on top returns. -/
def returns (s : State) (rest : List Frame) (v : Reply) (cached : Option Nat) : State :=
  { s with frames := .round .idle :: rest, got := ⟨v, cached, s.ended⟩ :: s.got }

def atStage (s : State) (rest : List Frame) (stage : Stage) : State :=
  { s with frames := .round stage :: rest }

/-- A job may start: the main loop drains the queue, or a round is at a safe point. -/
def safe (s : State) : Bool :=
  match s.frames with
  | [] | .round .idle :: _ | .round (.begun _) :: _ => true
  | _ => false

def lookup (s : State) (rest : List Frame) (r : Read) : State :=
  let hit : Option (Reply × Nat) :=
    if r.cached enabled then
      match r with
      | .ubus _ key => (s.ubus.get key s.now).map fun e => (.ubus e.value, e.issued)
      | .uci _ package => (s.uci.get package s.now).map fun e => (.uci e.value, e.issued)
    else none
  match hit with
  | some (v, issued) => s.returns rest v (some issued)
  | none => s.atStage rest (.missed r)

def replied (s : State) (rest : List Frame) (r : Read) (issued : Nat) (v : Reply) : State :=
  if r.cached enabled then s.atStage rest (.storing r issued v) else s.returns rest v none

def reply (s : State) (rest : List Frame) (issued : Nat) : Read → Answer → Option State
  | .ubus ttl key, .ubus (.error (.skipped object)) =>
    let previous := if (Read.ubus ttl key).cached enabled then s.ubus.lastOk key else none
    some (s.returns rest
      (.ubus ((previous.map Prod.fst).elim (.error (CallError.skipped object).text) .ok))
      (previous.map Prod.snd))
  | .ubus ttl key, .ubus a =>
    some (s.replied enabled rest (.ubus ttl key) issued (.ubus (a.mapError CallError.text)))
  | .uci ttl package, .uci shown =>
    some (s.replied enabled rest (.uci ttl package) issued (.uci shown))
  | _, _ => none

def put (s : State) (rest : List Frame) (issued : Nat) : Read → Reply → Option State
  | .ubus ttl key, .ubus v =>
    -- failures live for five seconds at most
    let ttl := if v.isOk then ttl else min ttl 5
    some ({ s with ubus := s.ubus.put key ⟨s.now, secs ttl, v, issued⟩ }.returns rest
      (.ubus v) none)
  | .uci ttl package, .uci shown =>
    some ({ s with uci := s.uci.put package ⟨s.now, secs ttl, shown, issued⟩ }.returns rest
      (.uci shown) none)
  | _, _ => none

/-- The end of `control_job`. -/
def controlEnd (s : State) (rest : List Frame) (action : String) (last : Option Nat)
    (success : Bool) : State :=
  let s := if success && !readOnly action then s.invalidate else s
  { s with
    frames := rest
    ended := (last.map (Ended.mk (readOnly action))).toList ++ s.ended }

def next (s : State) : Act → Option State
  | .wait d => some { s with now := s.now + d }
  | .invalidateSms =>
    some { s with ubus := fun k => if Collect.isSmsKey k then none else s.ubus k }
  | .start =>
    match s.frames with
    | [] => some { s with frames := [.round .idle] }
    | .job :: rest => some { s with frames := .round .idle :: .job :: rest }
    | _ => none
  | .begin r =>
    match s.frames with
    | .round .idle :: rest => some (s.atStage rest (.begun r))
    | _ => none
  | .lookup =>
    match s.frames with
    | .round (.begun r) :: rest => some (s.lookup enabled rest r)
    | _ => none
  | .request =>
    match s.frames with
    | .round (.missed r) :: rest => some (s.atStage rest (.waiting r s.calls))
    | _ => none
  | .reply answer =>
    match s.frames with
    | .round (.waiting r issued) :: rest => s.reply enabled rest issued r answer
    | _ => none
  | .put =>
    match s.frames with
    | .round (.storing r issued v) :: rest => s.put rest issued r v
    | _ => none
  | .finish =>
    match s.frames with
    | .round .idle :: rest => some { s with frames := rest }
    | _ => none
  | .job => if s.safe then some { s with frames := .job :: s.frames } else none
  | .jobEnd =>
    match s.frames with
    | .job :: rest => some { s with frames := rest }
    | _ => none
  | .control action =>
    if s.safe then some { s with frames := .control action false none :: s.frames } else none
  | .refuse =>
    match s.frames with
    | .control _ false _ :: rest => some { s with frames := rest }
    | _ => none
  | .act =>
    match s.frames with
    | .control action false last :: rest =>
      let s := if readOnly action then s else s.invalidate
      some { s with frames := .control action true last :: rest }
    | _ => none
  | .call =>
    match s.frames with
    | .control action true _ :: rest =>
      some { s with
        calls := s.calls + 1, frames := .control action true (some (s.calls + 1)) :: rest }
    | .write _ :: rest =>
      some { s with calls := s.calls + 1, frames := .write (some (s.calls + 1)) :: rest }
    | _ => none
  | .controlEnd success =>
    match s.frames with
    | .control action true last :: rest => some (s.controlEnd rest action last success)
    | _ => none
  | .write => if s.safe then some { s with frames := .write none :: s.frames } else none
  | .writeEnd =>
    match s.frames with
    | .write (some last) :: rest =>
      some { s with frames := rest, leaving := { last } :: s.leaving }
    | _ => none
  | .dropUbus i =>
    match s.leaving[i]? with
    | some w => some { s with
        ubus := .empty, leaving := s.leaving.set i { w with ubusDropped := true } }
    | none => none
  | .dropUci i =>
    match s.leaving[i]? with
    | some w =>
      if w.ubusDropped then
        some { s with uci := .empty, leaving := s.leaving.set i { w with uciDropped := true } }
      else none
    | none => none
  | .writeReturns i =>
    match s.leaving[i]? with
    | some w =>
      if w.ubusDropped && w.uciDropped then
        some { s with leaving := s.leaving.eraseIdx i, ended := ⟨false, w.last⟩ :: s.ended }
      else none
    | none => none

end State

/-! ### What holds of the caches -/

/-- The last device calls of the writes that are over; read-only control jobs do not count. -/
def State.over (s : State) : List Nat := (s.ended.filter fun w => !w.readOnly).map Ended.last

/-- Those a cache must not fall behind: also of the writes on their way out that have dropped
    it. -/
def State.ubusMarks (s : State) : List Nat :=
  s.over ++ (s.leaving.filter Leaving.ubusDropped).map Leaving.last

def State.uciMarks (s : State) : List Nat :=
  s.over ++ (s.leaving.filter Leaving.uciDropped).map Leaving.last

/-- Those of all tasks that are over. -/
def State.marks (s : State) : List Nat := s.over ++ s.leaving.map Leaving.last

/-- A round that has no request under way, or an internal task. -/
def Frame.resting : Frame → Bool
  | .round .idle | .round (.begun _) | .job => true
  | _ => false

/-- When the request of the frame went out. -/
def Frame.issued : Frame → Option Nat
  | .round (.waiting _ issued) | .round (.storing _ issued _) => some issued
  | _ => none

/-- The last device call of the frame. -/
def Frame.last : Frame → Option Nat
  | .control _ _ last | .write last => last
  | _ => none

/-- What the innermost frame may be doing. -/
structure Fit (s : State) (f : Frame) : Prop where
  /-- Its request went out after the tasks that are over. -/
  issued : ∀ i, f.issued = some i → ∀ m ∈ s.marks, m ≤ i
  last : ∀ m, f.last = some m → m ≤ s.calls
  /-- A control job that is past the gate has dropped the caches. -/
  acting : ∀ action last, f = .control action true last → readOnly action = false →
    s.ubus = .empty ∧ s.uci = .empty

/-- The reply is not older than the writes that were over when it was served. -/
def Got.Visible (g : Got) : Prop :=
  ∀ issued, g.cached = some issued → ∀ w ∈ g.ended, w.readOnly = false → w.last ≤ issued

structure Sound (s : State) : Prop where
  ubus : ∀ m ∈ s.ubusMarks, s.ubus.Above m
  uci : ∀ m ∈ s.uciMarks, s.uci.Above m
  called : ∀ m ∈ s.marks, m ≤ s.calls
  /-- Only the innermost frame does anything. -/
  below : ∀ f ∈ s.frames.tail, f.resting = true
  head : ∀ f ∈ s.frames.head?, Fit s f
  got : ∀ g ∈ s.got, g.Visible

section Steps

variable {enabled : Bool} {s s' : State} {a : Act} {f f' : Frame} {rest : List Frame}

theorem new_sound : Sound {} where
  ubus := by simp [State.ubusMarks, State.over]
  uci := by simp [State.uciMarks, State.over]
  called := by simp [State.marks, State.over]
  below := by simp
  head := by simp
  got := by simp

theorem Fit.idle (hi : f.issued = none) (hl : f.last = none)
    (ha : ∀ action last, f ≠ .control action true last) : Fit s f where
  issued i h := by rw [hi] at h; cases h
  last m h := by rw [hl] at h; cases h
  acting action last h := absurd h (ha action last)

theorem Fit.resting (h : f.resting = true) : Fit s f := by
  cases f with
  | round stage =>
    cases stage with
    | idle => exact .idle rfl rfl (by simp)
    | begun r => exact .idle rfl rfl (by simp)
    | _ => cases h
  | job => exact .idle rfl rfl (by simp)
  | _ => cases h

/-- The marks of a cache are marks of tasks that are over. -/
theorem ubusMarks_subset (s : State) : s.ubusMarks ⊆ s.marks := by
  intro m hm
  simp only [State.ubusMarks, State.marks, List.mem_append, List.mem_map, List.mem_filter] at hm ⊢
  exact hm.imp_right fun ⟨w, hw, h⟩ => ⟨w, hw.1, h⟩

theorem uciMarks_subset (s : State) : s.uciMarks ⊆ s.marks := by
  intro m hm
  simp only [State.uciMarks, State.marks, List.mem_append, List.mem_map, List.mem_filter] at hm ⊢
  exact hm.imp_right fun ⟨w, hw, h⟩ => ⟨w, hw.1, h⟩

/-- The frames change, beside the caches and the tasks that are over. -/
theorem Sound.reframe (h : Sound s) {now : Instant} {frames : List Frame}
    (hbelow : ∀ f ∈ frames.tail, f.resting = true) (hhead : ∀ f ∈ frames.head?, Fit s f) :
    Sound { s with now, frames } where
  ubus := h.ubus
  uci := h.uci
  called := h.called
  below := hbelow
  head f hf := ⟨(hhead f hf).issued, (hhead f hf).last, (hhead f hf).acting⟩
  got := h.got

theorem Sound.under (h : Sound s) (hf : s.frames = f :: rest) :
    ∀ f ∈ rest, f.resting = true := by
  have := h.below
  rwa [hf] at this

theorem Sound.fit (h : Sound s) (hf : s.frames = f :: rest) : Fit s f :=
  h.head f (by rw [hf]; rfl)

/-- The innermost frame is replaced. -/
theorem Sound.turn (h : Sound s) (hf : s.frames = f :: rest) (hfit : Fit s f') :
    Sound { s with frames := f' :: rest } := by
  refine h.reframe (h.under hf) ?_
  rintro x ⟨⟩
  exact hfit

/-- The innermost frame is done. -/
theorem Sound.pop (h : Sound s) (hf : s.frames = f :: rest) :
    Sound { s with frames := rest } := by
  have hrest := h.under hf
  refine h.reframe (fun x hx => hrest x (List.mem_of_mem_tail hx)) ?_
  intro x hx
  exact .resting (hrest x (List.mem_of_mem_head? hx))

theorem safe_resting (hsafe : s.safe = true) : ∀ f ∈ s.frames.head?, f.resting = true := by
  intro f hf
  rcases hfs : s.frames with _ | ⟨f₀, fs⟩
  · rw [hfs] at hf
    cases hf
  · rw [hfs] at hf
    obtain rfl := Option.some.inj hf
    rw [State.safe, hfs] at hsafe
    revert hsafe
    cases f₀ with
    | round stage => cases stage <;> simp [Frame.resting]
    | _ => simp

/-- A task or a round starts while the innermost frame rests. -/
theorem Sound.start (h : Sound s) (hresting : ∀ f ∈ s.frames.head?, f.resting = true)
    (hfit : Fit s f) : Sound { s with frames := f :: s.frames } := by
  refine h.reframe ?_ ?_
  · intro x hx
    rcases hfs : s.frames with _ | ⟨f₀, fs⟩
    · rw [hfs] at hx
      cases hx
    · rw [hfs] at hx hresting
      rcases List.mem_cons.mp hx with rfl | hx
      · exact hresting x rfl
      · exact h.under hfs x hx
  · rintro x ⟨⟩
    exact hfit

/-- The read on top returns. -/
theorem Sound.returns (h : Sound s) (hf : s.frames = f :: rest) (v : Reply)
    {cached : Option Nat} (hc : ∀ issued, cached = some issued → ∀ m ∈ s.over, m ≤ issued) :
    Sound (s.returns rest v cached) where
  ubus := h.ubus
  uci := h.uci
  called := h.called
  below := h.under hf
  head := by
    rintro x ⟨⟩
    exact .resting rfl
  got := by
    intro g hg
    rcases List.mem_cons.mp hg with rfl | hg
    · intro issued hi w hw hro
      exact hc issued hi w.last (List.mem_map.mpr ⟨w, by simpa [hro] using hw, rfl⟩)
    · exact h.got g hg

theorem Sound.lookup (h : Sound s) (hf : s.frames = f :: rest) (r : Read) :
    Sound (s.lookup enabled rest r) := by
  simp only [State.lookup]
  split
  · rename_i v issued hhit
    refine h.returns hf _ ?_
    rintro i ⟨⟩ m hm
    split at hhit
    · split at hhit
      · obtain ⟨e, he, heq⟩ := Option.map_eq_some_iff.mp hhit
        cases heq
        exact (h.ubus m (List.mem_append_left _ hm)).get he
      · obtain ⟨e, he, heq⟩ := Option.map_eq_some_iff.mp hhit
        cases heq
        exact (h.uci m (List.mem_append_left _ hm)).get he
    · cases hhit
  · exact h.turn hf (.idle rfl rfl (by simp))

theorem Sound.request (h : Sound s) (hf : s.frames = f :: rest) (r : Read) :
    Sound (s.atStage rest (.waiting r s.calls)) := by
  refine h.turn hf ⟨?_, by simp [Frame.last], by simp⟩
  intro i hi m hm
  cases hi
  exact h.called m hm

theorem Sound.reply (h : Sound s) {r : Read} {issued : Nat}
    (hf : s.frames = .round (.waiting r issued) :: rest) {answer : Answer}
    (hs : s.reply enabled rest issued r answer = some s') : Sound s' := by
  have hreplied : ∀ r v, Sound (s.replied enabled rest r issued v) := by
    intro r v
    rw [State.replied]
    split
    · exact h.turn hf ⟨(h.fit hf).issued, by simp [Frame.last], by simp⟩
    · exact h.returns hf _ (by simp)
  rw [State.reply.eq_def] at hs
  split at hs
  · rename_i ttl key object
    cases hs
    refine h.returns hf _ ?_
    -- the last good value is in the cache still
    intro i hi m hm
    obtain ⟨⟨v, i'⟩, hprevious, rfl⟩ := Option.map_eq_some_iff.mp hi
    split at hprevious
    · exact (h.ubus m (List.mem_append_left _ hm)).lastOk hprevious
    · cases hprevious
  · cases hs
    exact hreplied _ _
  · cases hs
    exact hreplied _ _
  · cases hs

theorem Sound.put (h : Sound s) {r : Read} {issued : Nat} {v : Reply}
    (hf : s.frames = .round (.storing r issued v) :: rest)
    (hs : s.put rest issued r v = some s') : Sound s' := by
  have hissued : ∀ m ∈ s.marks, m ≤ issued := (h.fit hf).issued issued rfl
  rw [State.put.eq_def] at hs
  split at hs
  · rename_i key v
    cases hs
    have hput : ∀ ttl, Sound { s with ubus := s.ubus.put key ⟨s.now, ttl, v, issued⟩ } :=
        fun _ => {
      ubus := fun m hm => (h.ubus m hm).put key (hissued m (ubusMarks_subset s hm))
      uci := h.uci
      called := h.called
      below := h.below
      head := by
        intro x hx
        rw [hf] at hx
        cases hx
        exact ⟨(h.fit hf).issued, (h.fit hf).last, by simp⟩
      got := h.got }
    exact (hput _).returns hf _ (by simp)
  · rename_i package shown
    cases hs
    have hput : ∀ ttl, Sound { s with uci := s.uci.put package ⟨s.now, ttl, shown, issued⟩ } :=
        fun _ => {
      ubus := h.ubus
      uci := fun m hm => (h.uci m hm).put package (hissued m (uciMarks_subset s hm))
      called := h.called
      below := h.below
      head := by
        intro x hx
        rw [hf] at hx
        cases hx
        exact ⟨(h.fit hf).issued, (h.fit hf).last, by simp⟩
      got := h.got }
    exact (hput _).returns hf _ (by simp)
  · cases hs

theorem Sound.invalidateSms (h : Sound s) :
    Sound { s with ubus := fun k => if Collect.isSmsKey k then none else s.ubus k } where
  ubus := by
    intro m hm k e hk
    dsimp only at hk
    split at hk
    · cases hk
    · exact h.ubus m hm k e hk
  uci := h.uci
  called := h.called
  below := h.below
  head := by
    intro x hx
    have hfit := h.head x hx
    refine ⟨hfit.issued, hfit.last, fun action last heq hro => ?_⟩
    obtain ⟨hubus, huci⟩ := hfit.acting action last heq hro
    refine ⟨?_, huci⟩
    rw [hubus]
    funext k
    simp [Cache.empty]
  got := h.got

/-- `control_task` begins. -/
theorem Sound.act (h : Sound s) {action : String} {last : Option Nat}
    (hf : s.frames = .control action false last :: rest) :
    Sound { (if readOnly action then s else s.invalidate) with
      frames := .control action true last :: rest } := by
  have hlast := (h.fit hf).last
  by_cases hro : readOnly action = true
  · rw [if_pos hro]
    refine h.turn hf ⟨by simp [Frame.issued], hlast, ?_⟩
    rintro a l heq hwrites
    cases heq
    rw [hro] at hwrites
    cases hwrites
  · rw [if_neg hro]
    exact {
      ubus := fun m _ => Cache.above_empty m
      uci := fun m _ => Cache.above_empty m
      called := h.called
      below := h.under hf
      head := by
        rintro x ⟨⟩
        exact ⟨by simp [Frame.issued], hlast, fun _ _ _ _ => ⟨rfl, rfl⟩⟩
      got := h.got }

/-- The innermost task makes a device call. -/
theorem Sound.call (h : Sound s) (hf : s.frames = f :: rest) (hi : f'.issued = none)
    (hl : f'.last = some (s.calls + 1))
    (ha : ∀ action last, f' = .control action true last → readOnly action = false →
      s.ubus = .empty ∧ s.uci = .empty) :
    Sound { s with calls := s.calls + 1, frames := f' :: rest } where
  ubus := h.ubus
  uci := h.uci
  called m hm := Nat.le_succ_of_le (h.called m hm)
  below := h.under hf
  head := by
    rintro x ⟨⟩
    refine ⟨?_, ?_, ha⟩
    · intro i h'
      rw [hi] at h'
      cases h'
    · intro m h'
      rw [hl] at h'
      cases h'
      exact Nat.le_refl _
  got := h.got

theorem Sound.controlEnd (h : Sound s) {action : String} {last : Option Nat}
    (hf : s.frames = .control action true last :: rest) (success : Bool) :
    Sound (s.controlEnd rest action last success) := by
  have hpop := h.pop hf
  have hfit := h.fit hf
  by_cases hro : readOnly action = true
  · -- nothing was dropped, and nothing is promised of the job
    have hend : s.controlEnd rest action last success =
        { s with frames := rest, ended := (last.map (Ended.mk true)).toList ++ s.ended } := by
      simp [State.controlEnd, hro]
    have hover : (s.controlEnd rest action last success).over = s.over := by
      rw [hend]
      cases last <;> simp [State.over]
    have hmarks : (s.controlEnd rest action last success).marks = s.marks := by
      rw [State.marks, hover, hend, State.marks]
    refine ⟨?_, ?_, ?_, ?_, ?_, by rw [hend]; exact h.got⟩
    · rw [State.ubusMarks, hover, hend]
      exact h.ubus
    · rw [State.uciMarks, hover, hend]
      exact h.uci
    · rw [hmarks, hend]
      exact h.called
    · rw [hend]
      exact hpop.below
    · intro x hx
      rw [hend] at hx
      exact .resting (h.under hf x (List.mem_of_mem_head? hx))
  · rw [Bool.not_eq_true] at hro
    obtain ⟨hubus, huci⟩ := hfit.acting action last rfl hro
    have hempty : (s.controlEnd rest action last success).ubus = .empty ∧
        (s.controlEnd rest action last success).uci = .empty := by
      cases success
      · exact ⟨hubus, huci⟩
      · simp [State.controlEnd, hro, State.invalidate]
    have hsame : (s.controlEnd rest action last success).calls = s.calls ∧
        (s.controlEnd rest action last success).frames = rest ∧
        (s.controlEnd rest action last success).got = s.got ∧
        (s.controlEnd rest action last success).marks = last.toList ++ s.marks := by
      cases success <;> cases last <;>
        simp [State.controlEnd, hro, State.invalidate, State.marks, State.over]
    refine ⟨?_, ?_, ?_, ?_, ?_, by rw [hsame.2.2.1]; exact h.got⟩
    · rw [hempty.1]
      exact fun m _ => Cache.above_empty m
    · rw [hempty.2]
      exact fun m _ => Cache.above_empty m
    · rw [hsame.1, hsame.2.2.2]
      intro m hm
      rcases List.mem_append.mp hm with hm | hm
      · exact hfit.last m (Option.mem_toList.mp hm)
      · exact h.called m hm
    · rw [hsame.2.1]
      exact hpop.below
    · intro x hx
      rw [hsame.2.1] at hx
      exact .resting (h.under hf x (List.mem_of_mem_head? hx))

theorem Sound.writeEnd (h : Sound s) {last : Nat} (hf : s.frames = .write (some last) :: rest) :
    Sound { s with frames := rest, leaving := { last } :: s.leaving } where
  ubus := h.ubus
  uci := h.uci
  called := by
    intro m hm
    simp only [State.marks, List.map_cons, List.mem_append, List.mem_cons] at hm
    rcases hm with hm | rfl | hm
    · exact h.called m (List.mem_append_left _ hm)
    · exact (h.fit hf).last m rfl
    · exact h.called m (List.mem_append_right _ hm)
  below := (h.pop hf).below
  head x hx := .resting (h.under hf x (List.mem_of_mem_head? hx))
  got := h.got

/-- A step that may empty a cache, and finishes no task. -/
theorem Sound.subsides (h : Sound s)
    (hubus : s'.ubus = .empty ∨ s'.ubus = s.ubus ∧ s'.ubusMarks ⊆ s.ubusMarks)
    (huci : s'.uci = .empty ∨ s'.uci = s.uci ∧ s'.uciMarks ⊆ s.uciMarks)
    (hm : s'.marks ⊆ s.marks) (hcalls : s'.calls = s.calls) (hframes : s'.frames = s.frames)
    (hgot : s'.got = s.got) : Sound s' where
  ubus := by
    rcases hubus with hu | ⟨hu, hsub⟩
    · rw [hu]
      exact fun m _ => Cache.above_empty m
    · rw [hu]
      exact fun m hmem => h.ubus m (hsub hmem)
  uci := by
    rcases huci with hc | ⟨hc, hsub⟩
    · rw [hc]
      exact fun m _ => Cache.above_empty m
    · rw [hc]
      exact fun m hmem => h.uci m (hsub hmem)
  called m hmem := hcalls ▸ h.called m (hm hmem)
  below := hframes ▸ h.below
  head := by
    rw [hframes]
    intro x hx
    have hfit := h.head x hx
    refine ⟨fun i hi m hmem => hfit.issued i hi m (hm hmem),
      fun m hl => hcalls ▸ hfit.last m hl, ?_⟩
    intro action last heq hro
    obtain ⟨hu, hc⟩ := hfit.acting action last heq hro
    exact ⟨hubus.elim id fun e => e.1.trans hu, huci.elim id fun e => e.1.trans hc⟩
  got := hgot ▸ h.got

/-- The tasks on their way out, after one of them has dropped a cache: those that pass the
    test are the same, if the test does not look at that. -/
theorem last_of_set {l : List Leaving} {i : Nat} {w w' : Leaving} {p : Leaving → Bool}
    (hw : l[i]? = some w) (hlast : w'.last = w.last) (hp : p w' = true → p w = true) :
    ((l.set i w').filter p).map Leaving.last ⊆ (l.filter p).map Leaving.last := by
  intro m hm
  simp only [List.mem_map, List.mem_filter] at hm ⊢
  obtain ⟨x, ⟨hx, hpx⟩, rfl⟩ := hm
  rcases List.mem_or_eq_of_mem_set hx with hx | rfl
  · exact ⟨x, ⟨hx, hpx⟩, rfl⟩
  · exact ⟨w, ⟨List.mem_of_getElem? hw, hp hpx⟩, hlast.symm⟩

theorem marks_eq (s : State) :
    s.marks = s.over ++ (s.leaving.filter fun _ => true).map Leaving.last := by
  rw [State.marks, List.filter_true]

theorem append_subset {α : Type} {l m m' : List α} (h : m ⊆ m') : l ++ m ⊆ l ++ m' :=
  List.append_subset.mpr
    ⟨List.subset_append_left _ _, List.Subset.trans h (List.subset_append_right _ _)⟩

theorem Sound.dropUbus (h : Sound s) {i : Nat} {w : Leaving} (hw : s.leaving[i]? = some w) :
    Sound { s with
      ubus := .empty, leaving := s.leaving.set i { w with ubusDropped := true } } := by
  refine h.subsides (.inl rfl) (.inr ⟨rfl, append_subset (last_of_set hw rfl id)⟩) ?_ rfl rfl rfl
  rw [marks_eq, marks_eq]
  exact append_subset (last_of_set hw rfl id)

theorem Sound.dropUci (h : Sound s) {i : Nat} {w : Leaving} (hw : s.leaving[i]? = some w) :
    Sound { s with
      uci := .empty, leaving := s.leaving.set i { w with uciDropped := true } } := by
  refine h.subsides (.inr ⟨rfl, append_subset (last_of_set hw rfl id)⟩) (.inl rfl) ?_ rfl rfl rfl
  rw [marks_eq, marks_eq]
  exact append_subset (last_of_set hw rfl id)

/-- A write that has dropped both caches returns. -/
theorem Sound.writeReturns (h : Sound s) {i : Nat} {w : Leaving} (hw : s.leaving[i]? = some w)
    (hubus : w.ubusDropped = true) (huci : w.uciDropped = true) :
    Sound { s with leaving := s.leaving.eraseIdx i, ended := ⟨false, w.last⟩ :: s.ended } := by
  have hmem : w ∈ s.leaving := List.mem_of_getElem? hw
  -- the write was one of those on their way out and is now one of those that are over
  have hmoved : ∀ p : Leaving → Bool, p w = true →
      (w.last :: s.over) ++ ((s.leaving.eraseIdx i).filter p).map Leaving.last ⊆
        s.over ++ (s.leaving.filter p).map Leaving.last := by
    intro p hp m hm
    simp only [List.mem_append, List.mem_cons, List.mem_map, List.mem_filter] at hm ⊢
    rcases hm with (rfl | hm) | ⟨x, ⟨hx, hpx⟩, rfl⟩
    · exact .inr ⟨w, ⟨hmem, hp⟩, rfl⟩
    · exact .inl hm
    · exact .inr ⟨x, ⟨List.mem_of_mem_eraseIdx hx, hpx⟩, rfl⟩
  refine h.subsides (.inr ⟨rfl, hmoved _ hubus⟩) (.inr ⟨rfl, hmoved _ huci⟩) ?_ rfl rfl rfl
  rw [marks_eq, marks_eq]
  exact hmoved _ rfl

/-- Every step keeps what is served after the writes that are over. -/
theorem Sound.step (h : Sound s) (hs : s.next enabled a = some s') : Sound s' := by
  cases a with
  | wait d =>
    cases hs
    exact h.reframe h.below h.head
  | invalidateSms =>
    cases hs
    exact h.invalidateSms
  | start =>
    simp only [State.next] at hs
    split at hs
    · rename_i hf
      cases hs
      have hstart : Sound { s with frames := .round .idle :: s.frames } :=
        h.start (by simp [hf]) (.resting rfl)
      rw [hf] at hstart
      exact hstart
    · rename_i rest hf
      cases hs
      have hstart : Sound { s with frames := .round .idle :: s.frames } :=
        h.start (by rw [hf]; rintro x ⟨⟩; rfl) (.resting rfl)
      rw [hf] at hstart
      exact hstart
    · cases hs
  | begin r =>
    simp only [State.next] at hs
    split at hs
    · rename_i hf
      cases hs
      exact h.turn hf (.resting rfl)
    · cases hs
  | lookup =>
    simp only [State.next] at hs
    split at hs
    · rename_i hf
      cases hs
      exact h.lookup hf _
    · cases hs
  | request =>
    simp only [State.next] at hs
    split at hs
    · rename_i hf
      cases hs
      exact h.request hf _
    · cases hs
  | reply answer =>
    simp only [State.next] at hs
    split at hs
    · rename_i hf
      exact h.reply hf hs
    · cases hs
  | put =>
    simp only [State.next] at hs
    split at hs
    · rename_i hf
      exact h.put hf hs
    · cases hs
  | finish =>
    simp only [State.next] at hs
    split at hs
    · rename_i hf
      cases hs
      exact h.pop hf
    · cases hs
  | job =>
    simp only [State.next] at hs
    split at hs
    · rename_i hsafe
      cases hs
      exact h.start (safe_resting hsafe) (.resting rfl)
    · cases hs
  | jobEnd =>
    simp only [State.next] at hs
    split at hs
    · rename_i hf
      cases hs
      exact h.pop hf
    · cases hs
  | control action =>
    simp only [State.next] at hs
    split at hs
    · rename_i hsafe
      cases hs
      exact h.start (safe_resting hsafe) (.idle rfl rfl (by simp))
    · cases hs
  | refuse =>
    simp only [State.next] at hs
    split at hs
    · rename_i hf
      cases hs
      exact h.pop hf
    · cases hs
  | act =>
    simp only [State.next] at hs
    split at hs
    · rename_i hf
      cases hs
      exact h.act hf
    · cases hs
  | call =>
    simp only [State.next] at hs
    split at hs
    · rename_i hf
      cases hs
      refine h.call hf rfl rfl ?_
      rintro action last ⟨⟩ hro
      exact (h.fit hf).acting _ _ rfl hro
    · rename_i hf
      cases hs
      exact h.call hf rfl rfl (by simp)
    · cases hs
  | controlEnd success =>
    simp only [State.next] at hs
    split at hs
    · rename_i hf
      cases hs
      exact h.controlEnd hf success
    · cases hs
  | write =>
    simp only [State.next] at hs
    split at hs
    · rename_i hsafe
      cases hs
      exact h.start (safe_resting hsafe) (.idle rfl rfl (by simp))
    · cases hs
  | writeEnd =>
    simp only [State.next] at hs
    split at hs
    · rename_i hf
      cases hs
      exact h.writeEnd hf
    · cases hs
  | dropUbus i =>
    simp only [State.next] at hs
    split at hs
    · rename_i hw
      cases hs
      exact h.dropUbus hw
    · cases hs
  | dropUci i =>
    simp only [State.next] at hs
    split at hs
    · rename_i hw
      split at hs
      · cases hs
        exact h.dropUci hw
      · cases hs
    · cases hs
  | writeReturns i =>
    simp only [State.next] at hs
    split at hs
    · rename_i hw
      split at hs
      · rename_i hdropped
        cases hs
        rw [Bool.and_eq_true] at hdropped
        exact h.writeReturns hw hdropped.1 hdropped.2
      · cases hs
    · cases hs

end Steps

/-- **Writes are visible through the caches.**  In every run of rounds, jobs, control jobs
    and writes of transactions, whatever they answer and however long replies are kept: a
    reply that the cache serves, as a hit or as the last good value of a skipped call, was
    asked for after all device calls of the control jobs that had ended by then and of the
    writes that had returned, read-only control jobs apart. -/
theorem writes_visible (enabled : Bool) {s : State}
    (h : Exec (State.next enabled) (fun _ _ => True) {} s) :
    ∀ g ∈ s.got, ∀ issued, g.cached = some issued →
      ∀ w ∈ g.ended, w.readOnly = false → w.last ≤ issued :=
  (h.invariant Sound (fun hs _ hn => hs.step hn) new_sound).got

/-- The list of messages is read and its reply stored. -/
def readsList : List Act :=
  [.begin (.ubus 10 Collect.Read.smsNv.key), .lookup, .request, .reply (.ubus (.ok .null)), .put]

/-- A control job of this action makes one device call. -/
def controlRun (action : String) : List Act := [.control action, .act, .call, .controlEnd true]

/-- The list is read from the cache. -/
def readsAgain : List Act := [.begin (.ubus 10 Collect.Read.smsNv.key), .lookup]

theorem writes_visible_after_send : ∃ s g w issued,
    Exec (State.next true) (fun _ _ => True) {} s ∧ g ∈ s.got ∧ w ∈ g.ended ∧
      g.cached = some issued ∧ w.last = 1 ∧ w.last ≤ issued := by
  have hrun : (run (State.next true) (fun _ _ => true) {}
      (.start :: readsList ++ controlRun "sms.send" ++ readsList ++ readsAgain)).any (fun s =>
        s.got.any fun g => g.cached.isSome &&
          g.ended.any fun w => !w.readOnly && decide (w.last = 1)) = true := by
    decide +kernel
  obtain ⟨s, h, hp⟩ := Exec.exists_of_run (fun _ _ _ => trivial) (.refl _) hrun
  obtain ⟨g, hg, hgp⟩ := List.any_eq_true.mp hp
  rw [Bool.and_eq_true, Option.isSome_iff_exists] at hgp
  obtain ⟨⟨issued, hissued⟩, hended⟩ := hgp
  obtain ⟨w, hw, hwp⟩ := List.any_eq_true.mp hended
  rw [Bool.and_eq_true, Bool.not_eq_true', decide_eq_true_eq] at hwp
  exact ⟨s, g, w, issued, h, hg, hw, hissued, hwp.2,
    writes_visible true h g hg issued hissued w hw hwp.1⟩

/-- The job that lists messages drops nothing: a list that was read before its device call
    is served after it has ended. -/
theorem list_after_leaves_cache : ∃ s g w issued,
    Exec (State.next true) (fun _ _ => True) {} s ∧ g ∈ s.got ∧ w ∈ g.ended ∧
      g.cached = some issued ∧ issued < w.last := by
  have hrun : (run (State.next true) (fun _ _ => true) {}
      (.start :: readsList ++ controlRun "sms.list_after" ++ readsAgain)).any (fun s =>
        s.got.any fun g => decide (g.cached = some 0) &&
          g.ended.any fun w => decide (0 < w.last)) = true := by
    decide +kernel
  obtain ⟨s, h, hp⟩ := Exec.exists_of_run (fun _ _ _ => trivial) (.refl _) hrun
  obtain ⟨g, hg, hgp⟩ := List.any_eq_true.mp hp
  rw [Bool.and_eq_true, decide_eq_true_eq] at hgp
  obtain ⟨w, hw, hwp⟩ := List.any_eq_true.mp hgp.2
  exact ⟨s, g, w, 0, h, hg, hw, hgp.1, of_decide_eq_true hwp⟩

end Coherence

end Datad
