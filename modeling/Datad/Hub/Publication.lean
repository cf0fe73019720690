/-
  Datad/Hub/Publication.lean
  ==========================
  **What publishing can do.**  Every operation of the hub is a sequence of elementary
  steps: a change no client can see, the publication of one block, or a heartbeat.
  A publication flips the stale flag or changes the published data, and says so in
  one event; nothing else changes what clients see.
-/
import Datad.Hub.Block
import Datad.Lib.Pointwise

namespace Datad.Hub

open Trace

/-- What clients see of a block, the time of its last read apart. -/
structure Face where
  name : String
  revision : Nat
  stale : Bool
  published : Option Value

def Block.face (b : Block) : Face := ⟨b.spec.name, b.revision, b.stale, b.published⟩

/-- A fresh block has data and has published some. -/
def Block.Sound (b : Block) : Prop :=
  b.stale = false → b.data.isSome ∧ b.published.isSome

def Sound (g : Inner) : Prop := ∀ b ∈ g.blocks, b.Sound

/-- How a publication changes block `i`.  `fresh` limits the data with which it may
    come back from being stale. -/
inductive Turns (fresh : Nat → Value → Prop) (i : Nat) (b b' : Block) : Prop where
  | toStale (h : b.stale = false) (h' : b'.stale = true) (hp : b'.published = b.published)
  | toFresh (h : b.stale = true) (h' : b'.stale = false) (d : Value)
      (hp : b'.published = some d) (hd : fresh i d)
  | change (h : b.stale = false) (h' : b'.stale = false) (hp : b'.published ≠ b.published)

/-- The elementary steps of the hub.  `beat` says whether heartbeats are among them. -/
inductive Micro (fresh : Nat → Value → Prop) (beat : Prop) :
    Inner → Option Event → Inner → Prop where
  | touch {g g' : Inner} (hseq : g'.seq = g.seq)
      (hface : g'.blocks.map Block.face = g.blocks.map Block.face) (hs : Sound g') :
      Micro fresh beat g none g'
  | publish {g : Inner} {i : Nat} {b b' : Block} (hb : g.blocks[i]? = some b)
      (hname : b'.spec.name = b.spec.name) (hrev : b'.revision = b.revision + 1)
      (ht : Turns fresh i b b') (hs : b'.Sound) :
      Micro fresh beat g (some (.block ⟨b'.view, g.seq + 1⟩))
        { g with seq := g.seq + 1, blocks := g.blocks.set i b' }
  | beat {g : Inner} (h : beat) (now : Instant) (execAgeMs : Nat) :
      Micro fresh beat g
        (some (.heartbeat
          ⟨g.seq + 1, g.blocks.map fun b => (b.spec.name, b.observedAt), execAgeMs⟩))
        { g with seq := g.seq + 1, lastHeartbeat := some now }

variable {fresh fresh' : Nat → Value → Prop} {beat beat' : Prop} {g g' : Inner}
  {o : Option Event} {i : Nat} {b b' : Block} {now : Instant}

theorem Micro.sound (h : Sound g) (hm : Micro fresh beat g o g') : Sound g' := by
  cases hm with
  | touch hseq hface hs => exact hs
  | publish hb hname hrev ht hs => exact Pointwise.forall_set h hs
  | beat => exact h

theorem Micro.mono (hf : ∀ i d, fresh i d → fresh' i d) (hbeat : beat → beat')
    (hm : Micro fresh beat g o g') : Micro fresh' beat' g o g' := by
  cases hm with
  | touch hseq hface hs => exact .touch hseq hface hs
  | publish hb hname hrev ht hs =>
    refine .publish hb hname hrev ?_ hs
    cases ht with
    | toStale h h' hp => exact .toStale h h' hp
    | toFresh h h' d hp hd => exact .toFresh h h' d hp (hf _ d hd)
    | change h h' hp => exact .change h h' hp
  | beat h now age => exact .beat (hbeat h) now age

/-! ### Publishing one block -/

/-- A fresh block stays as it is, or everything it has goes out. -/
theorem publish_fresh (seq : Nat) (decision : Publish) (flipped : Bool) (now : Instant)
    (hs : b.stale = false) :
    (publish seq b decision flipped now = (seq, b, []) ∧ flipped = false ∧
        (decision = .ifChanged → b.published = b.data)) ∨
      ∃ b', b' = { b with published := b.data, publishedAt := some now,
                          revision := b.revision + 1 } ∧
        publish seq b decision flipped now = (seq + 1, b', [.block ⟨b'.view, seq + 1⟩]) ∧
        (flipped = true ∨ b.published ≠ b.data) := by
  by_cases hd : b.published = b.data
  · cases flipped with
    | false => cases decision <;> simp [publish, hd]
    | true => cases decision <;> simp [publish, hd, hs]
  · cases flipped with
    | false => cases decision <;> simp [publish, hd, hs]
    | true => cases decision <;> simp [publish, hd, hs]

/-- A block that has just gone stale keeps what it published. -/
theorem publish_stale (seq : Nat) (hs : b.stale = true) :
    publish seq b .no true now =
      (seq + 1, { b with publishedAt := some now, revision := b.revision + 1 },
        [.block ⟨{ b.view with revision := b.revision + 1 }, seq + 1⟩]) := by
  simp [publish, hs, Block.view]

theorem face_set (hb : g.blocks[i]? = some b) (hf : b'.face = b.face) :
    (g.blocks.set i b').map Block.face = g.blocks.map Block.face :=
  Pointwise.map_eq (R := fun a c => c.face = a.face) id (.set (fun _ => rfl) hb hf)

/-- Putting back a block nobody can tell from the one before. -/
theorem put_silent (h : Sound g) (hb : g.blocks[i]? = some b) (hf : b'.face = b.face)
    (hs : b'.Sound) :
    Emits (Micro fresh beat) g (put g i (g.seq, b', [])).2 (put g i (g.seq, b', [])).1 :=
  Emits.single (o := none) (.touch rfl (face_set hb hf) (Pointwise.forall_set h hs))

/-- Publishing a block after a read or at the end of a round.  `b` is the block
    before, `b'` what it was changed to. -/
theorem put_fresh (h : Sound g) (hb : g.blocks[i]? = some b) (hspec : b'.spec = b.spec)
    (hrev : b'.revision = b.revision) (hpub : b'.published = b.published)
    (hstale : b'.stale = false) {d : Value} (hd : b'.data = some d)
    {flipped : Bool} (hflip : b.stale = flipped) (hfresh : flipped = true → fresh i d)
    (decision : Publish) :
    Emits (Micro fresh beat) g
      (put g i (publish g.seq b' decision flipped now)).2
      (put g i (publish g.seq b' decision flipped now)).1 := by
  subst hflip
  rcases publish_fresh g.seq decision b.stale now hstale with
    ⟨heq, hfl, -⟩ | ⟨b'', rfl, heq, hch⟩
  · rw [heq]
    have hsound := h b (List.mem_of_getElem? hb)
    refine put_silent h hb ?_ ?_
    · simp [Block.face, hspec, hrev, hpub, hstale, hfl]
    · intro _
      exact ⟨by simp [hd], hpub ▸ (hsound hfl).2⟩
  · rw [heq]
    refine Emits.single (o := some _) (.publish hb ?_ ?_ ?_ ?_)
    · exact congrArg BlockSpec.name hspec
    · exact congrArg (· + 1) hrev
    · cases hb0 : b.stale with
      | true => exact .toFresh hb0 hstale d hd (hfresh hb0)
      | false =>
        refine .change hb0 hstale ?_
        rw [hb0] at hch
        rcases hch with hch | hch
        · cases hch
        · exact fun heq => hch (hpub.trans heq.symm)
    · intro _
      exact ⟨by simp [hd], by simp [hd]⟩

/-- Publishing a block that has just gone stale. -/
theorem put_stale (hb : g.blocks[i]? = some b) (hspec : b'.spec = b.spec)
    (hrev : b'.revision = b.revision) (hpub : b'.published = b.published)
    (hb0 : b.stale = false) (hstale : b'.stale = true) :
    Emits (Micro fresh beat) g
      (put g i (publish g.seq b' .no true now)).2
      (put g i (publish g.seq b' .no true now)).1 := by
  rw [publish_stale _ hstale]
  refine Emits.single (o := some _)
    (@Micro.publish _ _ g i b
      { b' with publishedAt := some now, revision := b'.revision + 1 } hb ?_ ?_ ?_ ?_)
  · exact congrArg BlockSpec.name hspec
  · exact congrArg (· + 1) hrev
  · exact .toStale hb0 hstale hpub
  · intro hf
    exact absurd (hstale.symm.trans hf) (by simp)

/-! ### Loops in place -/

section InPlace

variable {R : Block → Block → Prop} {f : Nat → Block → Nat × Block × List Event}

theorem onBlock_pointwise (hr : ∀ b, R b b) (hf : ∀ seq b, R b (f seq b).2.1) (g : Inner)
    (i : Nat) : Pointwise R g.blocks (onBlock f g i).1.blocks := by
  rw [onBlock]
  rcases hb : g.blocks[i]? with _ | b
  · exact .refl hr g.blocks
  · exact .set hr hb (hf g.seq b)

theorem sweep_pointwise (hr : ∀ b, R b b) (ht : ∀ {a b c}, R a b → R b c → R a c)
    (hf : ∀ seq b, R b (f seq b).2.1) (is : List Nat) (g : Inner) :
    Pointwise R g.blocks (forEach (onBlock f) is g).1.blocks :=
  forEach_invariant (fun g' => Pointwise R g.blocks g'.blocks)
    (fun g' i h => h.trans ht (onBlock_pointwise hr hf g' i)) is g (.refl hr g.blocks)

/-- A sweep works on every block once. -/
theorem sweep_all {Q : Block → Prop} (hf : ∀ seq b, Q (f seq b).2.1) (g : Inner) :
    ∀ b ∈ (forEach (onBlock f) (List.range g.blocks.length) g).1.blocks, Q b := by
  have hdone : ∀ j b, j < g.blocks.length →
      (forEach (onBlock f) (List.range g.blocks.length) g).1.blocks[j]? = some b → Q b := by
    refine forEach_range (fun k g' => ∀ j b, j < k → g'.blocks[j]? = some b → Q b)
      g.blocks.length ?_ g (fun j _ hj => absurd hj (Nat.not_lt_zero j))
    intro k g' _ ih j b hj hb
    rcases hk : g'.blocks[k]? with _ | bk
    · simp only [onBlock, hk] at hb
      have hne : j ≠ k := by
        rintro rfl
        exact nomatch hk.symm.trans hb
      exact ih j b (by omega) hb
    · simp only [onBlock, hk, put] at hb
      by_cases hkj : k = j
      · subst hkj
        rw [List.getElem?_set_self (List.getElem?_eq_some_iff.mp hk).1] at hb
        exact Option.some.inj hb ▸ hf g'.seq bk
      · rw [List.getElem?_set_ne hkj] at hb
        exact ih j b (by omega) hb
  have hlen := sweep_pointwise (R := fun _ _ => True) (f := f) (fun _ => trivial)
    (fun _ _ => trivial) (fun _ _ => trivial) (List.range g.blocks.length) g
  intro b hb
  obtain ⟨j, hj⟩ := List.mem_iff_getElem?.mp hb
  obtain ⟨a, ha, -⟩ := hlen.get hj
  exact hdone j b (List.getElem?_eq_some_iff.mp ha).1 hj

theorem reshapeDependents_pointwise (hr : ∀ b, R b b) (ht : ∀ {a b c}, R a b → R b c → R a c)
    (hf : ∀ seq b d, R b (publishRead seq { b with data := some d } false now).2.1)
    (g : Inner) (i : Nat) (name : String) :
    Pointwise R g.blocks (reshapeDependents g i name now).1.blocks := by
  refine forEach_invariant (fun g' => Pointwise R g.blocks g'.blocks) (fun g' j h => ?_) _ g
    (.refl hr g.blocks)
  refine h.trans ht ?_
  rw [reshape]
  rcases hb : g'.blocks[j]? with _ | b
  · exact .refl hr g'.blocks
  · dsimp only
    split
    · exact .refl hr g'.blocks
    · rcases hraw : b.raw with _ | raw
      · exact .refl hr g'.blocks
      · dsimp only
        split
        · exact .refl hr g'.blocks
        · rw [← hraw]
          exact .set hr hb (hf _ b _)

end InPlace

/-! ### The operations as sequences of elementary steps -/

theorem expireBlock_emits (h : Sound g) (now : Instant) (sampleInterval : Duration) (i : Nat) :
    Emits (Micro fresh beat) g (onBlock (expireBlock now sampleInterval) g i).2
      (onBlock (expireBlock now sampleInterval) g i).1 := by
  rw [onBlock]
  rcases hb : g.blocks[i]? with _ | b
  · exact .refl g
  · dsimp only
    rw [expireBlock]
    split
    · rename_i hc
      have hfr : b.stale = false := by simp_all
      exact put_stale hb rfl rfl rfl hfr rfl
    · exact put_silent h hb rfl (h b (List.mem_of_getElem? hb))

theorem roundEndBlock_emits (h : Sound g) (now : Instant) (i : Nat) :
    Emits (Micro fresh beat) g (onBlock (roundEndBlock now) g i).2
      (onBlock (roundEndBlock now) g i).1 := by
  rw [onBlock]
  rcases hb : g.blocks[i]? with _ | b
  · exact .refl g
  · have hsound := h b (List.mem_of_getElem? hb)
    dsimp only
    rw [roundEndBlock]
    split
    · exact put_silent h hb rfl hsound
    · rename_i hfr
      rw [Bool.not_eq_true] at hfr
      dsimp only
      split
      · exact put_silent h hb rfl hsound
      · obtain ⟨d, hd⟩ := Option.isSome_iff_exists.mp (hsound hfr).1
        exact put_fresh h hb rfl rfl rfl hfr hd hfr (fun hc => nomatch hc) _

theorem reshape_emits (h : Sound g) (i : Nat) (name : String) (j : Nat) :
    Emits (Micro fresh beat) g (reshape i name now g j).2 (reshape i name now g j).1 := by
  rw [reshape]
  rcases hb : g.blocks[j]? with _ | b
  · exact .refl g
  · dsimp only
    split
    · exact .refl g
    · rename_i hskip
      have hfr : b.stale = false := by simp_all
      rcases b.raw with _ | raw
      · exact .refl g
      · dsimp only
        split
        · exact .refl g
        · refine put_fresh (d := shape g.blocks b.spec raw) h hb ?_ ?_ ?_ ?_ ?_ hfr
            (fun hc => nomatch hc) _
          · rfl
          · rfl
          · rfl
          · exact hfr
          · rfl

theorem expire_emits (h : Sound g) (now : Instant) (sampleInterval : Duration) :
    Emits (Micro fresh beat) g (expire g now sampleInterval).2
      (expire g now sampleInterval).1 :=
  .forEach Sound Micro.sound (fun _ i hs => expireBlock_emits hs now sampleInterval i) _ g h

theorem reshapeDependents_emits (h : Sound g) (i : Nat) (name : String) :
    Emits (Micro fresh beat) g (reshapeDependents g i name now).2
      (reshapeDependents g i name now).1 :=
  .forEach Sound Micro.sound (fun _ j hs => reshape_emits hs i name j) _ g h

theorem sound_of_emits {es : List Event} (h : Sound g) (he : Emits (Micro fresh beat) g es g') :
    Sound g' :=
  he.invariant (fun _ => Sound) (fun hs hm => hm.sound hs) (l := []) h

/-- The end of a round up to its heartbeat. -/
theorem roundEnd_emits (h : Sound g) (now : Instant) (sampleInterval : Duration) :
    ∃ g₁ es, Emits (Micro fresh beat) g es g₁ ∧
      roundEnd g now sampleInterval =
        ((emitHeartbeat g₁ now 0).1, es ++ (emitHeartbeat g₁ now 0).2) := by
  have he : Emits (Micro fresh beat) g _ _ := expire_emits h now sampleInterval
  have hr : Emits (Micro fresh beat) _ _ _ :=
    .forEach Sound Micro.sound (fun _ i hs => roundEndBlock_emits hs now i)
      (List.range (expire g now sampleInterval).1.blocks.length) _ (sound_of_emits h he)
  exact ⟨_, _, he.trans hr, rfl⟩

theorem emitHeartbeat_emits (hbeat : beat) (now : Instant) (execAgeMs : Nat) :
    Emits (Micro fresh beat) g (emitHeartbeat g now execAgeMs).2
      (emitHeartbeat g now execAgeMs).1 :=
  Emits.single (Micro.beat hbeat now execAgeMs)

theorem recordRead_emits (h : Sound g) (i : Nat) (result : Except String Value) (now : Instant)
    (wall : Nat) (hfresh : ∀ b v, g.blocks[i]? = some b → accepted result = some v →
      fresh i (shape g.blocks b.spec v)) :
    Emits (Micro fresh beat) g (recordRead g i result now wall).2
      (recordRead g i result now wall).1 := by
  rw [recordRead]
  rcases hb : g.blocks[i]? with _ | b
  · exact .refl g
  · have hsound := h b (List.mem_of_getElem? hb)
    rcases ha : accepted result with _ | v
    · dsimp only
      split
      · rename_i hst
        exact put_silent h hb rfl fun hf => absurd (hst.symm.trans hf) (by simp)
      · rename_i hst
        exact put_stale hb rfl rfl rfl (by simpa using hst) rfl
    · dsimp only
      generalize hread : b.read v (shape g.blocks b.spec v) now wall = b'
      have hput : Emits (Micro fresh beat) g (put g i (publishRead g.seq b' b.stale now)).2
          (put g i (publishRead g.seq b' b.stale now)).1 := by
        subst hread
        refine put_fresh (d := shape g.blocks b.spec v) h hb ?_ ?_ ?_ ?_ ?_ rfl
          (fun _ => hfresh b v hb ha) _
        all_goals rfl
      split
      · exact hput
      · exact hput.trans (reshapeDependents_emits (sound_of_emits h hput) i b.spec.name)

/-- The data with which an operation may bring block `i` back from being stale. -/
def Op.brings (g : Inner) (op : Op) (i : Nat) (d : Value) : Prop :=
  ∃ b v, op.read g = some (i, v) ∧ g.blocks[i]? = some b ∧ d = shape g.blocks b.spec v

/-- The operations that may send a heartbeat. -/
def Op.beats : Op → Prop
  | .roundEnd .. | .heartbeatIfQuiet .. => True
  | _ => False

theorem markImmediate_face (g : Inner) (names : Option (List String)) :
    (markImmediate g names).blocks.map Block.face = g.blocks.map Block.face := by
  rw [markImmediate, List.map_map]
  refine List.map_congr_left fun b _ => ?_
  dsimp only [Function.comp_apply]
  split <;> rfl

theorem markImmediate_sound (h : Sound g) (names : Option (List String)) :
    Sound (markImmediate g names) := by
  intro b hb
  obtain ⟨b₀, hb₀, rfl⟩ := List.mem_map.mp hb
  have hsound := h b₀ hb₀
  split <;> exact hsound

theorem step_emits (h : Sound g) (op : Op) :
    Emits (Micro (op.brings g) op.beats) g (step g op).2 (step g op).1 := by
  cases op with
  | recordRead i result now wall =>
    exact recordRead_emits h i result now wall fun b v hb ha =>
      ⟨b, v, by simp [Op.read, ha], hb, rfl⟩
  | record name result now wall =>
    simp only [step, record]
    rcases hp : position g name with _ | i
    · exact .refl g
    · exact recordRead_emits h i result now wall fun b v hb ha =>
        ⟨b, v, by simp [Op.read, ha, hp], hb, rfl⟩
  | markImmediate names =>
    exact Emits.single (o := none)
      (.touch rfl (markImmediate_face g names) (markImmediate_sound h names))
  | expire now sampleInterval => exact expire_emits h now sampleInterval
  | roundEnd now sampleInterval =>
    obtain ⟨g₁, es, he, heq⟩ := roundEnd_emits h now sampleInterval
    simp only [step, heq]
    exact he.trans (emitHeartbeat_emits trivial now 0)
  | heartbeatIfQuiet now execAgeMs quiet =>
    simp only [step, heartbeatIfQuiet]
    split
    · exact .refl g
    · exact emitHeartbeat_emits trivial now execAgeMs

theorem new_sound (specs : List BlockSpec) : Sound (new specs) := by
  intro b hb
  obtain ⟨spec, -, rfl⟩ := List.mem_map.mp hb
  intro hs
  cases hs

/-- A run of the hub is one sequence of elementary steps. -/
theorem run_emits (h : Sound g) (ops : List Op) :
    Emits (Micro (fun _ _ => True) True) g (run g ops).2 (run g ops).1 :=
  .forEach Sound Micro.sound
    (fun _ op hs => (step_emits hs op).mono (Micro.mono (fun _ _ _ => trivial) fun _ => trivial))
    ops g h

end Datad.Hub
