/-
  Datad/Hub/Feed.lean
  ===================
  **Snapshot plus deltas** (`v2.rs`).  A subscriber gets a snapshot, taken under the
  lock that numbers events, and then the events sent from there on.  Whatever the hub
  does, the client that folds those events into its snapshot has the hub's blocks.
-/
import Datad.Hub.Publication
import Mathlib.Data.List.Nodup
import Mathlib.Data.List.Range

namespace Datad.Hub

open Trace

/-! ### The subscriber -/

/-- What a `broadcast` receiver hands out of the events sent since it subscribed:
    the next one, or that it fell behind and `n` events are gone for it. -/
inductive Received : List Event → List (Except Nat Event) → Prop where
  | nil (es : List Event) : Received es []
  | next {es : List Event} {rs : List (Except Nat Event)} (e : Event) (h : Received es rs) :
      Received (e :: es) (.ok e :: rs)
  | lagged {es : List Event} {rs : List (Except Nat Event)} (n : Nat)
      (h : Received (es.drop n) rs) : Received es (.error n :: rs)

/-- The events of one subscriber's stream: it ends when the receiver lags. -/
def stream : List (Except Nat Event) → List Event
  | .ok e :: rs => e :: stream rs
  | _ => []

theorem stream_prefix {es : List Event} {rs : List (Except Nat Event)}
    (h : Received es rs) : stream rs <+: es := by
  induction h with
  | nil es => exact List.nil_prefix
  | next e h ih => exact List.cons_prefix_cons.mpr ⟨rfl, ih⟩
  | lagged n h ih => exact List.nil_prefix

/-- One event folded into the client's blocks. -/
def receive (vs : List BlockView) : Event → List BlockView
  | .block e => vs.map fun v => if v.name = e.name then e.toBlockView else v
  | .heartbeat hb =>
    vs.map fun v => { v with observedAt := (hb.blocks.lookup v.name).getD v.observedAt }

/-- What a client knows of a block at every moment. -/
def BlockView.state (v : BlockView) : String × Nat × Bool × Value :=
  (v.name, v.revision, v.stale, v.data)

/-! ### Lists with distinct keys -/

section Keyed

variable {α κ β : Type} [DecidableEq κ] {l : List α} {key : α → κ}

omit [DecidableEq κ] in
theorem index_eq_of_key (hn : (l.map key).Nodup) {i j : Nat} {x y : α} (hx : l[i]? = some x)
    (hy : l[j]? = some y) (hxy : key x = key y) : i = j := by
  have hi : i < (l.map key).length := by
    simpa using (List.getElem?_eq_some_iff.mp hx).1
  apply (List.getElem?_inj hi hn).mp
  rw [List.getElem?_map, List.getElem?_map, hx, hy, Option.map_some, Option.map_some, hxy]

theorem map_ite_key_eq_set (hn : (l.map key).Nodup) {i : Nat} {x : α} (hx : l[i]? = some x)
    (y : α) : (l.map fun z => if key z = key x then y else z) = l.set i y := by
  apply List.ext_getElem?
  intro j
  rw [List.getElem?_map, List.getElem?_set]
  by_cases hj : i = j
  · subst hj
    obtain ⟨hi, rfl⟩ := List.getElem?_eq_some_iff.mp hx
    simp [hi]
  · rw [if_neg hj]
    rcases hz : l[j]? with _ | z
    · rfl
    · have hkey : key z ≠ key x := fun heq => hj (index_eq_of_key hn hx hz heq.symm)
      simp [hkey]

theorem lookup_map_key (hn : (l.map key).Nodup) (val : α → β) {x : α} (hx : x ∈ l) :
    (l.map fun z => (key z, val z)).lookup (key x) = some (val x) := by
  induction l with
  | nil => cases hx
  | cons z l ih =>
    rw [List.map_cons, List.nodup_cons] at hn
    rw [List.map_cons, List.lookup_cons]
    rcases List.mem_cons.mp hx with rfl | hx
    · simp
    · have hne : key x ≠ key z := fun heq => hn.1 (heq ▸ List.mem_map_of_mem hx)
      rw [beq_false_of_ne hne]
      exact ih hn.2 hx

end Keyed

/-! ### One elementary step -/

variable {fresh : Nat → Value → Prop} {beat : Prop} {g g' : Inner} {o : Option Event}
  {vs : List BlockView}

def names (g : Inner) : List String := g.blocks.map fun b => b.spec.name

theorem Micro.names_eq (hm : Micro fresh beat g o g') : names g' = names g := by
  cases hm with
  | touch hseq hface hs =>
    have h := congrArg (List.map Face.name) hface
    rwa [List.map_map, List.map_map] at h
  | @publish i b b' hb hname hrev ht hs =>
    have hi := List.getElem?_eq_some_iff.mp hb
    apply List.ext_getElem?
    intro j
    by_cases hj : i = j
    · subst hj
      simp [names, hi.1, hi.2, hname]
    · simp [names, hj]
  | beat => rfl

theorem Micro.seq_eq (hm : Micro fresh beat g o g') :
    g'.seq = g.seq + o.toList.length ∧ o.toList.map Event.seq =
      List.range' (g.seq + 1) o.toList.length := by
  cases hm with
  | touch hseq hface hs => exact ⟨hseq, rfl⟩
  | publish hb hname hrev ht hs => exact ⟨rfl, rfl⟩
  | beat => exact ⟨rfl, rfl⟩

theorem views_state (g : Inner) : (views g).map BlockView.state =
    (g.blocks.map Block.face).map
      fun f => (f.name, f.revision, f.stale, f.published.getD .null) := by
  simp [views, Block.face, Block.view, BlockView.state]

theorem client_names (h : vs.map BlockView.state = (views g).map BlockView.state) :
    vs.map BlockView.name = names g := by
  have h' := congrArg (List.map Prod.fst) h
  rw [views, List.map_map, List.map_map, List.map_map] at h'
  exact h'

/-- A client that agrees with the hub before an elementary step and folds in its
    event agrees with the hub after it. -/
theorem Micro.agree (hm : Micro fresh beat g o g') (hn : (names g).Nodup)
    (h : vs.map BlockView.state = (views g).map BlockView.state) :
    (o.toList.foldl receive vs).map BlockView.state = (views g').map BlockView.state := by
  cases hm with
  | touch hseq hface hs =>
    rw [Option.toList_none, List.foldl_nil, h, views_state, views_state, hface]
  | @publish i b b' hb hname hrev ht hs =>
    obtain ⟨v, hv, hvb⟩ : ∃ v, vs[i]? = some v ∧ v.state = b.view.state := by
      have hi := congrArg (·[i]?) h
      simpa [views, hb] using hi
    have hkey : v.name = b'.view.name := (congrArg Prod.fst hvb).trans hname.symm
    have hset : receive vs (.block ⟨b'.view, g.seq + 1⟩) = vs.set i b'.view := by
      rw [receive, ← map_ite_key_eq_set (client_names h ▸ hn) hv b'.view, hkey]
    simp only [Option.toList_some, List.foldl_cons, List.foldl_nil, hset, List.map_set, h, views]
  | beat hbeat now age =>
    refine Eq.trans ?_ h
    simp [receive, BlockView.state]

/-- Right after a heartbeat the client also has the times of the last reads. -/
theorem receive_heartbeat (hn : (names g).Nodup)
    (h : vs.map BlockView.state = (views g).map BlockView.state) (now : Instant)
    (execAgeMs : Nat) :
    (emitHeartbeat g now execAgeMs).2.foldl receive vs =
      views (emitHeartbeat g now execAgeMs).1 := by
  have hlook : ∀ b ∈ g.blocks, (g.blocks.map fun b => (b.spec.name, b.observedAt)).lookup
      b.spec.name = some b.observedAt :=
    fun b hb => lookup_map_key hn Block.observedAt hb
  simp only [emitHeartbeat, List.foldl_cons, List.foldl_nil, receive, views]
  apply List.ext_getElem?
  intro j
  have hj := congrArg (·[j]?) h
  rw [List.getElem?_map, List.getElem?_map]
  rcases hb : g.blocks[j]? with _ | b
  · have hv : vs[j]? = none := by simpa [views, hb] using hj
    simp [hv]
  · obtain ⟨v, hv, hvb⟩ : ∃ v, vs[j]? = some v ∧ v.state = b.view.state := by
      simpa [views, hb] using hj
    obtain ⟨name, revision, observedAt, stale, data⟩ := v
    simp only [BlockView.state, Block.view, Prod.mk.injEq] at hvb
    obtain ⟨rfl, rfl, rfl, rfl⟩ := hvb
    simp [hv, hlook b (List.mem_of_getElem? hb), Block.view]

/-! ### Whole runs -/

/-- A client that started from `vs₀` at the cut, and the hub. -/
structure Synced (cut : Nat) (vs₀ : List BlockView) (es : List Event) (g : Inner) : Prop where
  names : (names g).Nodup
  seq : g.seq = cut + es.length
  numbered : es.map Event.seq = List.range' (cut + 1) es.length
  agree : (es.foldl receive vs₀).map BlockView.state = (views g).map BlockView.state

namespace Synced

variable {cut : Nat} {vs₀ : List BlockView} {es : List Event}

/-- At the cut. -/
theorem start (hn : (Hub.names g).Nodup) : Synced g.seq (views g) [] g :=
  ⟨hn, rfl, rfl, rfl⟩

theorem micro (h : Synced cut vs₀ es g) (hm : Micro fresh beat g o g') :
    Synced cut vs₀ (es ++ o.toList) g' where
  names := hm.names_eq ▸ h.names
  seq := by rw [hm.seq_eq.1, h.seq, List.length_append, Nat.add_assoc]
  numbered := by
    rw [List.map_append, h.numbered, hm.seq_eq.2, List.length_append, h.seq,
      ← List.range'_append, Nat.one_mul]
    congr 2
    omega
  agree := by
    rw [List.foldl_append]
    exact hm.agree h.names h.agree

theorem emits (h : Synced cut vs₀ es g) {es' : List Event}
    (he : Emits (Micro fresh beat) g es' g') : Synced cut vs₀ (es ++ es') g' :=
  he.invariant (Synced cut vs₀) micro h

theorem run (h : Synced cut vs₀ es g) (hs : Sound g) (ops : List Op) :
    Synced cut vs₀ (es ++ (run g ops).2) (run g ops).1 :=
  h.emits (run_emits hs ops)

/-- The numbers of the log start above the cut. -/
theorem cut_lt (h : Synced cut vs₀ es g) {e : Event} (he : e ∈ es) :
    cut < e.seq ∧ e.seq ≤ g.seq := by
  have hmem : e.seq ∈ es.map Event.seq := List.mem_map_of_mem he
  rw [h.numbered, List.mem_range'_1] at hmem
  rw [h.seq]
  omega

/-- A heartbeat is the last thing its operation sends. -/
theorem after_heartbeat (h : Synced cut vs₀ es g) (hs : Sound g) {op : Op} {hb : Heartbeat}
    (hmem : .heartbeat hb ∈ (step g op).2) :
    (es ++ (step g op).2).foldl receive vs₀ = views (step g op).1 := by
  -- operations without a heartbeat are sequences of steps without one
  have hquiet : ¬ op.beats → .heartbeat hb ∉ (step g op).2 := by
    intro hno
    have hblocks := (step_emits hs op).invariant (fun l _ => .heartbeat hb ∉ l)
      (fun hl hm => by
        cases hm with
        | beat hbeat => exact absurd hbeat hno
        | _ => simpa using hl) (l := []) List.not_mem_nil
    simpa using hblocks
  cases op with
  | roundEnd now sampleInterval =>
    obtain ⟨g₁, es', he, heq⟩ := roundEnd_emits hs now sampleInterval
    have he' : Emits (Micro (fun _ _ => True) True) g es' g₁ := he
    have h₁ : Synced cut vs₀ (es ++ es') g₁ := h.emits he'
    simp only [step, heq]
    rw [← List.append_assoc, List.foldl_append]
    exact receive_heartbeat h₁.names h₁.agree now 0
  | heartbeatIfQuiet now execAgeMs quiet =>
    simp only [step, heartbeatIfQuiet] at hmem ⊢
    split at hmem
    · cases hmem
    · rename_i hq
      rw [if_neg hq, List.foldl_append]
      exact receive_heartbeat h.names h.agree now execAgeMs
  | _ => exact absurd hmem (hquiet id)

end Synced

theorem run_append (g : Inner) (ops₁ ops₂ : List Op) :
    run g (ops₁ ++ ops₂) =
      ((run (run g ops₁).1 ops₂).1, (run g ops₁).2 ++ (run (run g ops₁).1 ops₂).2) :=
  forEach_append ops₁ ops₂ g

theorem run_sound {g : Inner} (h : Sound g) (ops : List Op) : Sound (run g ops).1 :=
  sound_of_emits h (run_emits h ops)

theorem names_new (specs : List BlockSpec) : names (new specs) = specs.map BlockSpec.name := by
  rw [names, new, List.map_map]
  rfl

/-- The events numbered above the cut are those sent after it. -/
theorem deltas_eq (specs : List BlockSpec) (hn : (specs.map BlockSpec.name).Nodup)
    (ops₁ ops₂ : List Op) :
    (run (new specs) (ops₁ ++ ops₂)).2.filter
        (fun e => (run (new specs) ops₁).1.seq < e.seq) =
      (run (run (new specs) ops₁).1 ops₂).2 := by
  have hn₀ : (names (new specs)).Nodup := names_new specs ▸ hn
  have hs := new_sound specs
  have h₁ := (Synced.start hn₀).run hs ops₁
  have h₂ := (Synced.start h₁.names).run (run_sound hs ops₁) ops₂
  rw [List.nil_append] at h₁ h₂
  rw [run_append, List.filter_append]
  have hbefore : (run (new specs) ops₁).2.filter
      (fun e => (run (new specs) ops₁).1.seq < e.seq) = [] := by
    rw [List.filter_eq_nil_iff]
    intro e he
    have hle := (h₁.cut_lt he).2
    simp only [decide_eq_true_eq]
    omega
  have hafter : (run (run (new specs) ops₁).1 ops₂).2.filter
      (fun e => (run (new specs) ops₁).1.seq < e.seq) = (run (run (new specs) ops₁).1 ops₂).2 := by
    rw [List.filter_eq_self]
    intro e he
    simpa using (h₂.cut_lt he).1
  rw [hbefore, hafter, List.nil_append]

/-- **Snapshot plus deltas.**  For a subscription made after `ops₁` and any `ops₂` after
    it, folding the events numbered above the cut into the snapshot gives the hub's
    revision, stale flag and data of every block, right after a heartbeat also the times
    of the last reads; and what a subscriber is sent is numbered from the cut on without
    a gap, for as long as its stream lasts. -/
theorem snapshot_plus_deltas (specs : List BlockSpec) (hn : (specs.map BlockSpec.name).Nodup)
    (ops₁ ops₂ : List Op) :
    let before := (run (new specs) ops₁).1
    let after := run (new specs) (ops₁ ++ ops₂)
    let cut := (snapshot before).1
    let deltas := after.2.filter fun e => cut < e.seq
    let client := deltas.foldl receive (snapshot before).2
    client.map BlockView.state = (views after.1).map BlockView.state ∧
      (∀ ops op hb, ops₂ = ops ++ [op] →
        .heartbeat hb ∈ (step (run (new specs) (ops₁ ++ ops)).1 op).2 → client = views after.1) ∧
      ∀ received, Received (run before ops₂).2 received →
        stream received <+: deltas ∧
          (stream received).map Event.seq = List.range' (cut + 1) (stream received).length := by
  intro before after cut deltas client
  have hn₀ : (names (new specs)).Nodup := names_new specs ▸ hn
  have hs := new_sound specs
  have hs₁ : Sound before := run_sound hs ops₁
  have h₁ := (Synced.start hn₀).run hs ops₁
  have hstart : Synced cut (views before) [] before := .start h₁.names
  have h₂ := hstart.run hs₁ ops₂
  rw [List.nil_append] at h₂
  have hdeltas : deltas = (run before ops₂).2 := deltas_eq specs hn ops₁ ops₂
  have hafter : after.1 = (run before ops₂).1 := by simp only [after, before, run_append]
  refine ⟨?_, ?_, ?_⟩
  · simp only [client, hdeltas, hafter]
    exact h₂.agree
  · intro ops op hb hops hmem
    have hlast : run before ops₂ = ((step (run before ops).1 op).1,
        (run before ops).2 ++ (step (run before ops).1 op).2) := by
      rw [hops, run_append]
      simp only [Hub.run, forEach_singleton]
    have hmid := hstart.run hs₁ ops
    rw [run_append] at hmem
    have hview := hmid.after_heartbeat (run_sound hs₁ ops) hmem
    simp only [client, hdeltas, hafter, hlast]
    simpa [snapshot] using hview
  · intro received hrec
    have hpre := stream_prefix hrec
    refine ⟨hdeltas ▸ hpre, ?_⟩
    have hseqs := hpre.map Event.seq
    rw [h₂.numbered] at hseqs
    rw [List.prefix_iff_eq_take.mp hseqs, List.length_map,
      List.take_range'_of_length_ge hpre.length_le]


theorem roundEnd_heartbeat (g : Inner) (now : Instant) (sampleInterval : Duration) :
    ∃ hb, .heartbeat hb ∈ (step g (.roundEnd now sampleInterval)).2 :=
  ⟨_, List.mem_append_right _ (List.mem_singleton.mpr rfl)⟩

def sampleReads : List Op :=
  [.recordRead 0 (.ok (.obj [])) 1 100, .record "live" (.ok (.obj [])) 2 100]

/-- Two reads before the cut; after it a round ends, by which both have expired. -/
theorem sample_client_follows :
    let before := (run (new sampleSpecs) sampleReads).1
    let after := run (new sampleSpecs) (sampleReads ++ [.roundEnd (secs 20) (secs 1)])
    let deltas := after.2.filter fun e => before.seq < e.seq
    (sampleSpecs.map BlockSpec.name).Nodup ∧ deltas.length = 3 ∧
      deltas.foldl receive (views before) = views after.1 := by
  have hn : (sampleSpecs.map BlockSpec.name).Nodup := phase1Blocks_names_nodup _ _ _
  obtain ⟨hb, hmem⟩ :=
    roundEnd_heartbeat (run (new sampleSpecs) (sampleReads ++ [])).1 (secs 20) (secs 1)
  refine ⟨hn, by decide +kernel, ?_⟩
  exact (snapshot_plus_deltas sampleSpecs hn sampleReads [.roundEnd (secs 20) (secs 1)]).2.1
    [] (.roundEnd (secs 20) (secs 1)) hb rfl hmem

end Datad.Hub
