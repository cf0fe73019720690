/-
  Datad/Collect/Health.lean
  =========================
  **Which derived blocks a round records as read** (`read_inputs` of `state.rs`,
  `project` of `project/snapshot.rs`), for the blocks of the SIM and of SMS.

  `ubus_ttl_read` answers whether a result counts as read.  A failure that comes from
  the cache does: the `sms` blocks test the result as well, the `sim` block does not.
  The `sms_list` block takes its list from a field that is there only if the capacity
  has been read.
-/
import Datad.Collect.Cache

namespace Datad.Collect

open Hub Transition Ubus

/-! ### The projection -/

/-- The data of the blocks; whether a block is recorded as read does not depend on it. -/
structure Shapes where
  /-- The `sim` field of the old state. -/
  sim : Value → Value
  /-- The number of unread messages in the reply about the capacity. -/
  unread : Value → Value
  /-- `sms::block_data`. -/
  blockData : Value → Value → Value → Value
  /-- `sms::normalize_lists`. -/
  normalizeLists : List Value → List Value

/-- The inputs of `project` that the three blocks depend on. -/
structure Inputs where
  sim : Except String Value
  simRead : Bool
  smsCapacity : Except String Value
  capacityRead : Bool
  smsNv : Except String Value
  nvRead : Bool
  smsSim : Except String Value
  simListRead : Bool
  smsList : Option (List Value)

def object : Except String Value → Value
  | .ok v => v
  | .error _ => .obj []

def got (done : List (Read × Got)) (read : Read) : Option Got :=
  (done.find? fun p => decide (p.1 = read)).map Prod.snd

/-- The messages are listed only if the capacity has been read. -/
def Inputs.ofReads (shapes : Shapes) (sim capacity nv simList : Got) : Inputs where
  sim := sim.result
  simRead := sim.read
  smsCapacity := capacity.result
  capacityRead := capacity.read
  smsNv := nv.result
  nvRead := nv.read
  smsSim := simList.result
  simListRead := simList.read
  smsList :=
    if capacity.result.isOk then
      some (shapes.normalizeLists [object nv.result, object simList.result])
    else none

/-- What a round that has made its reads hands to `project`. -/
def inputs (shapes : Shapes) (done : List (Read × Got)) : Option Inputs := do
  let sim ← got done .sim
  let capacity ← got done .smsCapacity
  let nv ← got done .smsNv
  let simList ← got done .smsSim
  return .ofReads shapes sim capacity nv simList

/-- The fields of the old state that the blocks are taken from. -/
structure Fields where
  sim : Value
  /-- `unread` and `list`. -/
  sms : Option (Value × List Value)

structure Blocks where
  sms : Except String Value
  smsList : Except String Value
  sim : Except String Value

namespace Inputs

def fields (shapes : Shapes) (i : Inputs) : Fields where
  sim := shapes.sim (object i.sim)
  sms :=
    if i.smsCapacity.isOk then i.smsList.map fun l => (shapes.unread (object i.smsCapacity), l)
    else none

def smsListOk (i : Inputs) : Bool :=
  i.smsNv.isOk && i.smsSim.isOk && i.nvRead && i.simListRead

def smsBlock (shapes : Shapes) (i : Inputs) : Except String Value :=
  match i.smsCapacity, i.smsNv, i.smsSim with
  | .ok capacity, .ok nv, .ok sim =>
      if i.capacityRead && i.nvRead && i.simListRead then .ok (shapes.blockData capacity nv sim)
      else .error "zwrt_wms capacity or SMS list read failed"
  | _, _, _ => .error "zwrt_wms capacity or SMS list read failed"

def project (shapes : Shapes) (i : Inputs) : Blocks where
  sms := i.smsBlock shapes
  smsList :=
    match (i.fields shapes).sms with
    | some (_, list) =>
        if i.smsListOk then .ok (.obj [("list", .arr list)])
        else .error "zwrt_wms SMS list read failed"
    | none => .error "zwrt_wms SMS list read failed"
  sim :=
    if i.simRead then .ok (i.fields shapes).sim
    else .error "zwrt_zte_mdm.api get_sim_info failed"

end Inputs

/-- The blocks that a round records (`collect`). -/
def blocks (shapes : Shapes) (done : List (Read × Got)) : Option Blocks :=
  (inputs shapes done).map (·.project shapes)

/-! ### What the blocks should follow -/

/-- A result that is a success: fresh, or from an entry that has not expired. -/
def Got.succeeded (g : Got) : Bool :=
  g.result.isOk &&
    match g.origin with
    | .skipped _ => false
    | _ => true

def Got.failedHit (g : Got) : Bool :=
  !g.result.isOk &&
    match g.origin with
    | .hit _ => true
    | _ => false

def succeeded (done : List (Read × Got)) (read : Read) : Prop :=
  ∃ g, got done read = some g ∧ g.succeeded = true

/-- The recorded blocks are healthy as far as their sources are. -/
structure Follows (done : List (Read × Got)) (b : Blocks) : Prop where
  sim : b.sim.isOk = true → succeeded done .sim
  sms : b.sms.isOk = true →
    succeeded done .smsCapacity ∧ succeeded done .smsNv ∧ succeeded done .smsSim
  smsList : b.smsList.isOk = true ↔ succeeded done .smsNv ∧ succeeded done .smsSim

/-- Neither does a cached failure stand in for the SIM, nor is the capacity missing while
    both first pages are read. -/
structure Spared (done : List (Read × Got)) : Prop where
  sim : ∀ g, got done .sim = some g → g.failedHit = false
  capacity : ∀ g, got done .smsCapacity = some g → g.result.isOk = false →
    ¬ (succeeded done .smsNv ∧ succeeded done .smsSim)

/-! ### What a round has read -/

/-- What `ubus_ttl_read` says of a result that is a cached entry, an answer or neither. -/
def Got.Sound (g : Got) : Prop :=
  match g.origin with
  | .hit _ => g.read = true
  | .answered => g.read = g.result.isOk
  | .skipped _ => g.read = false

theorem gives_sound {enabled : Bool} {s : State} {read : Read} {st : Stage} {a : Act} {g : Got}
    {c : Cache} (h : Gives enabled s read st a g c) : g.Sound := by
  cases h with
  | hit b e he => exact rfl
  | skip b i object previous hp => exact rfl
  | answer b i answer v => exact rfl
  | put b i v ttl => exact rfl

/-- A round has made its reads in order, and each result is what it says. -/
structure Round.Sound (done : List (Read × Got)) (todo : List Read) : Prop where
  order : done.map Prod.fst ++ todo = READS
  sound : ∀ p ∈ done, p.2.Sound

theorem Round.Sound.record {done : List (Read × Got)} {read : Read} {rest : List Read}
    (h : Round.Sound done (read :: rest)) {g : Got} (hg : g.Sound) :
    Round.Sound (done ++ [(read, g)]) rest := by
  constructor
  · rw [← h.order]
    simp
  · intro p hp
    rcases List.mem_append.mp hp with hp | hp
    · exact h.sound p hp
    · rw [List.mem_singleton.mp hp]
      exact hg

structure State.Sound (s : State) : Prop where
  rounds : ∀ r ∈ s.rounds, Round.Sound r.done r.todo
  finished : ∀ d ∈ s.finished, Round.Sound d []

theorem sound_step {enabled : Bool} {s s' : State} {a : Act} (hs : s.Sound)
    (h : Step enabled s a s') : s'.Sound := by
  cases h with
  | wait d => exact ⟨hs.rounds, hs.finished⟩
  | invalidate => exact ⟨hs.rounds, hs.finished⟩
  | invalidateSms => exact ⟨hs.rounds, hs.finished⟩
  | start =>
    refine ⟨fun r hr => ?_, hs.finished⟩
    rcases List.mem_cons.mp hr with rfl | hr
    · exact ⟨rfl, fun p hp => absurd hp List.not_mem_nil⟩
    · exact hs.rounds r hr
  | goes read rest st st' done rounds hr h =>
    have hrounds := hs.rounds
    rw [hr, List.forall_mem_cons] at hrounds
    exact ⟨List.forall_mem_cons.mpr hrounds, hs.finished⟩
  | gives read rest st done rounds g c hr h =>
    have hrounds := hs.rounds
    rw [hr, List.forall_mem_cons] at hrounds
    refine ⟨List.forall_mem_cons.mpr ⟨?_, hrounds.2⟩, hs.finished⟩
    exact hrounds.1.record (gives_sound h)
  | finish st done rounds hr =>
    have hrounds := hs.rounds
    rw [hr, List.forall_mem_cons] at hrounds
    refine ⟨hrounds.2, fun d hd => ?_⟩
    rcases List.mem_append.mp hd with hd | hd
    · exact hs.finished d hd
    · rw [List.mem_singleton.mp hd]
      exact hrounds.1

theorem sound_of_exec {enabled : Bool} {s : State}
    (h : Exec (State.next enabled) (fun _ _ => True) {} s) : s.Sound := by
  refine h.invariant State.Sound (fun hs _ hn => sound_step hs (next_step hn)) ?_
  exact ⟨fun r hr => absurd hr List.not_mem_nil, fun d hd => absurd hd List.not_mem_nil⟩

/-- A finished round has a result for each of its reads. -/
theorem got_of_sound {done : List (Read × Got)} (h : Round.Sound done []) (read : Read) :
    ∃ g, got done read = some g := by
  have hread : read ∈ done.map Prod.fst := by
    rw [← List.append_nil (done.map Prod.fst), h.order]
    cases read <;> decide
  obtain ⟨p, hp, rfl⟩ := List.mem_map.mp hread
  have hfound : (done.find? fun q => decide (q.1 = p.1)).isSome = true :=
    List.find?_isSome.mpr ⟨p, hp, decide_eq_true rfl⟩
  obtain ⟨q, hq⟩ := Option.isSome_iff_exists.mp hfound
  exact ⟨q.2, by rw [got, hq, Option.map_some]⟩

theorem Round.Sound.got {done : List (Read × Got)} (h : Round.Sound done []) {read : Read}
    {g : Got} (hg : got done read = some g) : g.Sound := by
  obtain ⟨q, hq, rfl⟩ := Option.map_eq_some_iff.mp hg
  exact h.sound q (List.mem_of_find?_eq_some hq)

/-! ### The blocks and their sources -/

theorem succeeded_iff {done : List (Read × Got)} {read : Read} {g : Got}
    (h : got done read = some g) : succeeded done read ↔ g.succeeded = true := by
  constructor
  · rintro ⟨g', hg', hs⟩
    rw [h] at hg'
    cases hg'
    exact hs
  · intro hs
    exact ⟨g, h, hs⟩

/-- A result counts as read if it is a success, or a failure from the cache. -/
theorem Got.Sound.read_eq {g : Got} (h : g.Sound) : g.read = (g.succeeded || g.failedHit) := by
  obtain ⟨result, read, origin, begun⟩ := g
  cases origin with
  | hit issued =>
    obtain rfl : read = true := h
    simp [Got.succeeded, Got.failedHit]
  | answered =>
    obtain rfl : read = result.isOk := h
    simp [Got.succeeded, Got.failedHit]
  | skipped issued =>
    obtain rfl : read = false := h
    simp [Got.succeeded, Got.failedHit]

theorem Got.Sound.isOk_and_read {g : Got} (h : g.Sound) :
    (g.result.isOk && g.read) = g.succeeded := by
  rw [h.read_eq, Got.succeeded, Got.failedHit]
  cases g.result.isOk with
  | true => simp
  | false => simp

theorem Got.not_succeeded_of_failedHit {g : Got} (h : g.failedHit = true) :
    g.succeeded = false := by
  rw [Got.failedHit, Bool.and_eq_true, Bool.not_eq_true'] at h
  rw [Got.succeeded, h.1, Bool.false_and]

namespace Inputs

variable (shapes : Shapes) (i : Inputs)

theorem project_sim_isOk : (i.project shapes).sim.isOk = i.simRead := by
  unfold project
  cases i.simRead with
  | true => rfl
  | false => rfl

theorem project_sms_isOk :
    (i.project shapes).sms.isOk =
      ((i.smsCapacity.isOk && i.capacityRead) && (i.smsNv.isOk && i.nvRead) &&
        (i.smsSim.isOk && i.simListRead)) := by
  unfold project smsBlock
  rcases i.smsCapacity with _ | capacity
  · rfl
  rcases i.smsNv with _ | nv
  · simp [Except.isOk, Except.toBool]
  rcases i.smsSim with _ | sim
  · simp [Except.isOk, Except.toBool]
  cases h : i.capacityRead && i.nvRead && i.simListRead with
  | true => simpa [Except.isOk, Except.toBool] using h.symm
  | false => simpa [Except.isOk, Except.toBool] using h.symm

theorem project_smsList_isOk (hl : i.smsList.isSome = i.smsCapacity.isOk) :
    (i.project shapes).smsList.isOk =
      (i.smsCapacity.isOk && ((i.smsNv.isOk && i.nvRead) && (i.smsSim.isOk && i.simListRead))) := by
  have hok : i.smsListOk = ((i.smsNv.isOk && i.nvRead) && (i.smsSim.isOk && i.simListRead)) := by
    rw [smsListOk]
    cases i.smsNv.isOk <;> cases i.smsSim.isOk <;> simp
  rw [← hok]
  unfold project fields
  cases hc : i.smsCapacity.isOk with
  | false => rfl
  | true =>
    rw [hc] at hl
    obtain ⟨list, hlist⟩ := Option.isSome_iff_exists.mp hl
    rw [hlist]
    cases i.smsListOk with
    | true => rfl
    | false => rfl

variable {gs gc gn gl : Got}

theorem project_ofReads_sim (hs : gs.Sound) :
    ((ofReads shapes gs gc gn gl).project shapes).sim.isOk = (gs.succeeded || gs.failedHit) := by
  rw [project_sim_isOk, ofReads, hs.read_eq]

theorem project_ofReads_sms (hc : gc.Sound) (hn : gn.Sound) (hl : gl.Sound) :
    ((ofReads shapes gs gc gn gl).project shapes).sms.isOk =
      (gc.succeeded && gn.succeeded && gl.succeeded) := by
  rw [project_sms_isOk, ofReads, hc.isOk_and_read, hn.isOk_and_read, hl.isOk_and_read]

theorem project_ofReads_smsList (hn : gn.Sound) (hl : gl.Sound) :
    ((ofReads shapes gs gc gn gl).project shapes).smsList.isOk =
      (gc.result.isOk && (gn.succeeded && gl.succeeded)) := by
  rw [project_smsList_isOk, ofReads, hn.isOk_and_read, hl.isOk_and_read]
  rw [ofReads]
  cases gc.result.isOk with
  | true => rfl
  | false => rfl

end Inputs

theorem blocks_eq {done : List (Read × Got)} {gs gc gn gl : Got} (shapes : Shapes)
    (hgs : got done .sim = some gs) (hgc : got done .smsCapacity = some gc)
    (hgn : got done .smsNv = some gn) (hgl : got done .smsSim = some gl) :
    blocks shapes done = some ((Inputs.ofReads shapes gs gc gn gl).project shapes) := by
  simp [blocks, inputs, hgs, hgc, hgn, hgl]

/-- **Health of the derived blocks.**  In every run, the blocks that a round records
    follow their sources exactly if the SIM was not taken from a cached failure and the
    capacity was not missing while both first pages were read. -/
theorem blocks_follow_iff {enabled : Bool} {s : State} (shapes : Shapes)
    (h : Exec (State.next enabled) (fun _ _ => True) {} s) {done : List (Read × Got)}
    (hd : done ∈ s.finished) :
    ∃ b, blocks shapes done = some b ∧ (Follows done b ↔ Spared done) := by
  have hsound := (sound_of_exec h).finished done hd
  obtain ⟨gs, hgs⟩ := got_of_sound hsound .sim
  obtain ⟨gc, hgc⟩ := got_of_sound hsound .smsCapacity
  obtain ⟨gn, hgn⟩ := got_of_sound hsound .smsNv
  obtain ⟨gl, hgl⟩ := got_of_sound hsound .smsSim
  have hs := hsound.got hgs
  have hc := hsound.got hgc
  have hn := hsound.got hgn
  have hl := hsound.got hgl
  refine ⟨_, blocks_eq shapes hgs hgc hgn hgl, ?_⟩
  have hlist : ((Inputs.ofReads shapes gs gc gn gl).project shapes).smsList.isOk =
      (gc.result.isOk && (gn.succeeded && gl.succeeded)) :=
    Inputs.project_ofReads_smsList shapes hn hl
  constructor
  · intro hf
    constructor
    · intro g hg
      rw [hgs] at hg
      cases hg
      by_contra hhit
      rw [Bool.not_eq_false] at hhit
      have hok := (succeeded_iff hgs).mp (hf.sim (by
        rw [Inputs.project_ofReads_sim shapes hs, hhit, Bool.or_true]))
      rw [Got.not_succeeded_of_failedHit hhit] at hok
      cases hok
    · intro g hg hfail hpages
      rw [hgc] at hg
      cases hg
      have hok := hf.smsList.mpr hpages
      rw [hlist, hfail] at hok
      cases hok
  · intro hspared
    constructor
    · intro hok
      rw [Inputs.project_ofReads_sim shapes hs, hspared.sim gs hgs, Bool.or_false] at hok
      exact (succeeded_iff hgs).mpr hok
    · intro hok
      rw [Inputs.project_ofReads_sms shapes hc hn hl, Bool.and_eq_true, Bool.and_eq_true] at hok
      rw [succeeded_iff hgc, succeeded_iff hgn, succeeded_iff hgl]
      exact ⟨hok.1.1, hok.1.2, hok.2⟩
    · rw [hlist, succeeded_iff hgn, succeeded_iff hgl, Bool.and_eq_true, Bool.and_eq_true]
      constructor
      · exact fun hok => hok.2
      · intro hpages
        refine ⟨?_, hpages⟩
        by_contra hfail
        refine hspared.capacity gc hgc (by simpa using hfail) ?_
        rw [succeeded_iff hgn, succeeded_iff hgl]
        exact hpages

/-! ### Rounds -/

/-- The steps of a read that finds nothing in the cache. -/
def fetch (read : Read) (answer : CallAnswer) : List Act :=
  [.begin, .lookup, .request, .reply answer] ++ if read.ttl = 0 then [] else [.put]

/-- The steps of some reads, of which `found` says which find an entry. -/
def readsOf (found : Read → Bool) (answers : Read → CallAnswer) (reads : List Read) : List Act :=
  reads.flatMap fun r => if found r then [.begin, .lookup] else fetch r (answers r)

def roundOf (found : Read → Bool) (answers : Read → CallAnswer) : List Act :=
  .start :: readsOf found answers READS ++ [.finish]

/-- Nothing has failed. -/
def untroubled (done : List (Read × Got)) : Bool :=
  (got done .sim).any (fun g => !g.failedHit) &&
    (got done .smsCapacity).any fun g => g.result.isOk

theorem spared_of_untroubled {done : List (Read × Got)} (h : untroubled done = true) :
    Spared done := by
  rw [untroubled, Bool.and_eq_true, Option.any_eq_true, Option.any_eq_true] at h
  obtain ⟨⟨gs, hgs, hs⟩, gc, hgc, hc⟩ := h
  constructor
  · intro g hg
    rw [hgs] at hg
    cases hg
    simpa using hs
  · intro g hg hfail
    rw [hgc] at hg
    cases hg
    rw [hc] at hfail
    cases hfail

theorem blocks_follow_fresh :
    ∃ s done, Exec (State.next true) (fun _ _ => True) {} s ∧ done ∈ s.finished ∧
      ∀ shapes, ∃ b, blocks shapes done = some b ∧ Follows done b := by
  have hrun : ((run (State.next true) (fun _ _ => true) {}
      (roundOf (fun _ => false) fun _ => .ok (.obj []))).any
      fun s => s.finished.any untroubled) = true := by decide +kernel
  obtain ⟨s, hs, hp⟩ := Exec.exists_of_run (fun _ _ _ => trivial) (.refl _) hrun
  obtain ⟨done, hd, hu⟩ := List.any_eq_true.mp hp
  refine ⟨s, done, hs, hd, fun shapes => ?_⟩
  obtain ⟨b, hb, hiff⟩ := blocks_follow_iff shapes hs hd
  exact ⟨b, hb, hiff.mpr (spared_of_untroubled hu)⟩

/-- Everything answers but the SIM and the capacity. -/
def simless : Read → CallAnswer
  | .sim => .error (.client (.timeout "zwrt_zte_mdm.api" "timed out"))
  | .smsCapacity => .error (.client (.timeout "zwrt_wms" "timed out"))
  | _ => .ok (.obj [])

def onCachedFailures (done : List (Read × Got)) : Bool :=
  (got done .sim).any Got.failedHit && (got done .smsCapacity).any (fun g => !g.result.isOk) &&
    ((got done .smsNv).any Got.succeeded && (got done .smsSim).any Got.succeeded)

/-- Two rounds within five seconds, in which the SIM and the capacity time out: the second
    takes the SIM from its failure and records it as read, and it reads both first pages
    and records no list. -/
theorem blocks_on_cachedFailures :
    ∃ s done, Exec (State.next true) (fun _ _ => True) {} s ∧ done ∈ s.finished ∧
      ∀ shapes, ∃ b, blocks shapes done = some b ∧
        (b.sim.isOk = true ∧ ¬ succeeded done .sim) ∧
        (b.smsList.isOk = false ∧ succeeded done .smsNv ∧ succeeded done .smsSim) ∧
        ¬ Follows done b := by
  have hrun : ((run (State.next true) (fun _ _ => true) {}
      (roundOf (fun _ => false) simless ++ roundOf (fun r => decide (r.ttl ≠ 0)) simless)).any
      fun s => s.finished.any onCachedFailures) = true := by decide +kernel
  obtain ⟨s, hs, hp⟩ := Exec.exists_of_run (fun _ _ _ => trivial) (.refl _) hrun
  obtain ⟨done, hd, ht⟩ := List.any_eq_true.mp hp
  simp only [onCachedFailures, Bool.and_eq_true, Option.any_eq_true] at ht
  obtain ⟨⟨⟨gs, hgs, hhit⟩, gc, hgc, hcap⟩, ⟨gn, hgn, hnv⟩, gl, hgl, hsl⟩ := ht
  refine ⟨s, done, hs, hd, fun shapes => ⟨_, blocks_eq shapes hgs hgc hgn hgl, ?_⟩⟩
  have hsound := (sound_of_exec hs).finished done hd
  have hsim : ((Inputs.ofReads shapes gs gc gn gl).project shapes).sim.isOk = true := by
    rw [Inputs.project_ofReads_sim shapes (hsound.got hgs), hhit, Bool.or_true]
  have hnot : ¬ succeeded done .sim := by
    rw [succeeded_iff hgs, Got.not_succeeded_of_failedHit hhit]
    decide
  have hlist : ((Inputs.ofReads shapes gs gc gn gl).project shapes).smsList.isOk = false := by
    rw [Inputs.project_ofReads_smsList shapes (hsound.got hgn) (hsound.got hgl),
      (Bool.not_eq_true' _).mp hcap, Bool.false_and]
  refine ⟨⟨hsim, hnot⟩, ⟨hlist, ?_, ?_⟩, fun hf => hnot (hf.sim hsim)⟩
  · exact (succeeded_iff hgn).mpr hnv
  · exact (succeeded_iff hgl).mpr hsl

end Datad.Collect
