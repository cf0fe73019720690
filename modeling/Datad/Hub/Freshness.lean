/-
  Datad/Hub/Freshness.lean
  ========================
  **What is published is what was read.**  A fresh block's data are its last raw reply
  shaped with the replies the other blocks have now; the policies decide how far the
  published data may lag behind.  The delicate part is a block whose shape consults
  another one: it is recomputed when that block gets a new reply, left alone while it is
  stale, and recomputed on its own next read.
-/
import Datad.Hub.Publication

namespace Datad.Hub

open Trace

/-- `deps` lists every block the shape consults, all of them other blocks. -/
def BlockSpec.Consults (spec : BlockSpec) : Prop :=
  ∀ f, spec.shape = some f → ∀ (raw : Value) (look look' : String → Option Value),
    (∀ n ∈ spec.deps, n ≠ spec.name → look n = look' n) → f raw look = f raw look'

/-! ### Raw replies -/

theorem shape_congr {blocks blocks' : List Block} {spec : BlockSpec} (hc : spec.Consults)
    (raw : Value)
    (h : ∀ n ∈ spec.deps, n ≠ spec.name → lookup blocks n = lookup blocks' n) :
    shape blocks spec raw = shape blocks' spec raw := by
  rw [shape, shape]
  rcases hf : spec.shape with _ | f
  · rfl
  · exact hc f hf raw _ _ h

/-- Lookups see names and raw replies only. -/
theorem lookup_congr {blocks blocks' : List Block}
    (h : blocks'.map (fun b => (b.spec.name, b.raw)) = blocks.map fun b => (b.spec.name, b.raw))
    (name : String) : lookup blocks' name = lookup blocks name := by
  have hview (bs : List Block) : lookup bs name =
      ((bs.map fun b => (b.spec.name, b.raw)).find? fun p => p.1 = name).bind Prod.snd := by
    rw [List.find?_map, lookup]
    cases hx : bs.find? fun b => b.spec.name = name <;>
      simp only [Function.comp_def, hx] <;> rfl
  rw [hview, hview, h]

/-- Putting back a block with the reply it had. -/
theorem lookup_set_same {blocks : List Block} {i : Nat} {b b' : Block}
    (hb : blocks[i]? = some b) (hspec : b'.spec = b.spec) (hraw : b'.raw = b.raw) :
    lookup (blocks.set i b') = lookup blocks := by
  funext n
  refine lookup_congr (Pointwise.map_eq (R := fun a c => c.spec = a.spec ∧ c.raw = a.raw) ?_ ?_) n
  · rintro a c ⟨hs, hr⟩
    rw [hs, hr]
  · exact .set (fun _ => ⟨rfl, rfl⟩) hb ⟨hspec, hraw⟩

/-- A new reply of one block is seen under its name only. -/
theorem lookup_set_ne {blocks : List Block} {i : Nat} {b b' : Block}
    (hb : blocks[i]? = some b) (hname : b'.spec.name = b.spec.name) {n : String}
    (hn : n ≠ b.spec.name) : lookup (blocks.set i b') n = lookup blocks n := by
  induction blocks generalizing i with
  | nil => simp at hb
  | cons x xs ih =>
    cases i with
    | zero =>
      obtain rfl : x = b := by simpa using hb
      have h₁ : ¬ b'.spec.name = n := fun h => hn (h.symm.trans hname)
      have h₂ : ¬ x.spec.name = n := fun h => hn h.symm
      simp [lookup, h₁, h₂]
    | succ i =>
      have hrest := ih (by simpa using hb)
      simp only [lookup, List.set_cons_succ, List.find?_cons] at hrest ⊢
      split
      · rfl
      · exact hrest

/-! ### The invariant -/

/-- The data of a fresh block are its reply, shaped with what the lookup gives now. -/
def Block.Current (blocks : List Block) (b : Block) : Prop :=
  b.stale = false → ∃ raw, b.raw = some raw ∧ b.data = some (shape blocks b.spec raw)

/-- A fresh block that publishes every change has published its data. -/
def Block.Settled (b : Block) : Prop :=
  b.spec.policy = onChange → b.stale = false → b.published = b.data

structure Fresh (g : Inner) : Prop where
  consults : ∀ b ∈ g.blocks, b.spec.Consults
  current : ∀ b ∈ g.blocks, b.Current g.blocks
  settled : ∀ b ∈ g.blocks, b.Settled

/-- A change that reads nothing: the reply and the data stay, and a block does not
    come back from being stale. -/
structure Quiet (b b' : Block) : Prop where
  spec : b'.spec = b.spec
  raw : b'.raw = b.raw
  data : b'.data = b.data
  stale : b'.stale = false → b.stale = false
  settled : b.Settled → b'.Settled

theorem Quiet.refl (b : Block) : Quiet b b := ⟨rfl, rfl, rfl, id, id⟩

theorem Quiet.trans {a b c : Block} (h : Quiet a b) (h' : Quiet b c) : Quiet a c :=
  ⟨h'.spec.trans h.spec, h'.raw.trans h.raw, h'.data.trans h.data, h.stale ∘ h'.stale,
    h'.settled ∘ h.settled⟩

variable {g g' : Inner} {i : Nat} {b b' : Block} {now : Instant}

/-- With unchanged lookups, a block that was current is so after a quiet change. -/
theorem Block.Current.quiet {blocks blocks' : List Block}
    (hlook : lookup blocks' = lookup blocks) (h : b.Current blocks) (hq : Quiet b b') :
    b'.Current blocks' := by
  intro hs
  obtain ⟨raw, hraw, hdata⟩ := h (hq.stale hs)
  refine ⟨raw, hq.raw.trans hraw, ?_⟩
  rw [hq.data, hdata, hq.spec, shape, shape, hlook]

theorem Fresh.quiet (h : Fresh g) (hp : Pointwise Quiet g.blocks g'.blocks) : Fresh g' := by
  have hlook : lookup g'.blocks = lookup g.blocks := by
    funext n
    refine lookup_congr (hp.map_eq fun hq => ?_) n
    rw [hq.spec, hq.raw]
  constructor
  · intro b' hb'
    obtain ⟨b, hb, hq⟩ := hp.mem hb'
    exact hq.spec ▸ h.consults b hb
  · intro b' hb'
    obtain ⟨b, hb, hq⟩ := hp.mem hb'
    exact (h.current b hb).quiet hlook hq
  · intro b' hb'
    obtain ⟨b, hb, hq⟩ := hp.mem hb'
    exact hq.settled (h.settled b hb)

/-! ### Operations without a read -/

/-- Publishing at the end of a round. -/
theorem publish_quiet (hs : b.stale = false) (seq : Nat) (decision : Publish) :
    Quiet b (publish seq b decision false now).2.1 := by
  rcases publish_fresh seq decision false now hs with ⟨heq, -, -⟩ | ⟨b', rfl, heq, -⟩
  · rw [heq]
    exact .refl b
  · rw [heq]
    exact ⟨rfl, rfl, rfl, id, fun _ _ _ => rfl⟩

theorem roundEndBlock_quiet (now : Instant) (seq : Nat) (b : Block) :
    Quiet b (roundEndBlock now seq b).2.1 := by
  rw [roundEndBlock]
  split
  · exact .refl b
  · rename_i hs
    dsimp only
    split
    · exact .refl b
    · exact publish_quiet (by simpa using hs) seq _

/-- A block that goes stale. -/
theorem quiet_of_stale (hspec : b'.spec = b.spec) (hraw : b'.raw = b.raw)
    (hdata : b'.data = b.data) (hs : b'.stale = true) : Quiet b b' := by
  have hno : b'.stale ≠ false := by simp [hs]
  exact ⟨hspec, hraw, hdata, fun h => absurd h hno, fun _ _ h => absurd h hno⟩

theorem expireBlock_quiet (now : Instant) (sampleInterval : Duration) (seq : Nat) (b : Block) :
    Quiet b (expireBlock now sampleInterval seq b).2.1 := by
  rw [expireBlock]
  split
  · rw [publish_stale _ rfl]
    exact quiet_of_stale rfl rfl rfl rfl
  · exact .refl b

theorem Fresh.expire (h : Fresh g) (now : Instant) (sampleInterval : Duration) :
    Fresh (expire g now sampleInterval).1 :=
  h.quiet (sweep_pointwise Quiet.refl Quiet.trans (expireBlock_quiet now sampleInterval) _ g)

theorem Fresh.roundEnd (h : Fresh g) (now : Instant) (sampleInterval : Duration) :
    Fresh (roundEnd g now sampleInterval).1 :=
  (h.expire now sampleInterval).quiet
    (sweep_pointwise Quiet.refl Quiet.trans (roundEndBlock_quiet now) _ _)

theorem Fresh.markImmediate (h : Fresh g) (names : Option (List String)) :
    Fresh (markImmediate g names) := by
  refine h.quiet (.map fun b => ?_)
  split
  · exact ⟨rfl, rfl, rfl, id, id⟩
  · exact .refl b

/-! ### A read -/

/-- The state while dependents are being recomputed: those before `k` are done.  Raw
    replies do not change, so what is done stays done. -/
structure Reshaping (i : Nat) (name : String) (look : String → Option Value) (k : Nat)
    (g : Inner) : Prop where
  look : lookup g.blocks = look
  consults : ∀ b ∈ g.blocks, b.spec.Consults
  settled : ∀ b ∈ g.blocks, b.Settled
  read : ∀ b ∈ g.blocks, b.stale = false → b.raw.isSome
  current : ∀ j b, g.blocks[j]? = some b → j < k ∨ j = i ∨ name ∉ b.spec.deps →
    b.Current g.blocks

/-- What publishing after a read leaves of a block. -/
theorem publishRead_spec (hs : b.stale = false) (seq : Nat) (flipped : Bool) (now : Instant) :
    let b' := (publishRead seq b flipped now).2.1
    b'.spec = b.spec ∧ b'.raw = b.raw ∧ b'.data = b.data ∧ b'.Settled := by
  rw [publishRead]
  rcases publish_fresh seq (b.spec.policy.onRead (b.policyInput now)) flipped now hs with
    ⟨heq, -, hch⟩ | ⟨b', rfl, heq, -⟩
  · rw [heq]
    refine ⟨rfl, rfl, rfl, fun hp _ => hch ?_⟩
    rw [hp]
    rfl
  · rw [heq]
    exact ⟨rfl, rfl, rfl, fun _ _ => rfl⟩

section Reshaping

variable {name : String} {look : String → Option Value} {k : Nat}

theorem Reshaping.skip (h : Reshaping i name look k g)
    (hk : ∀ b, g.blocks[k]? = some b → b.Current g.blocks) :
    Reshaping i name look (k + 1) g := by
  refine ⟨h.look, h.consults, h.settled, h.read, ?_⟩
  intro j b hb hdone
  by_cases hjk : j = k
  · subst hjk
    exact hk b hb
  · apply h.current j b hb
    rcases hdone with hlt | hdone
    · exact .inl (by omega)
    · exact .inr hdone

theorem Reshaping.put (h : Reshaping i name look k g) (hb : g.blocks[k]? = some b)
    (hspec : b'.spec = b.spec) (hraw : b'.raw = b.raw) (hset : b'.Settled)
    (hcur : b'.Current g.blocks) (seq : Nat) (es : List Event) :
    Reshaping i name look (k + 1) (put g k (seq, b', es)).1 := by
  have hbm := List.mem_of_getElem? hb
  have hlook : lookup (g.blocks.set k b') = lookup g.blocks := lookup_set_same hb hspec hraw
  have hlt : k < g.blocks.length := (List.getElem?_eq_some_iff.mp hb).1
  refine ⟨hlook.trans h.look, ?_, ?_, ?_, ?_⟩
  · exact Pointwise.forall_set h.consults (hspec ▸ h.consults b hbm)
  · exact Pointwise.forall_set h.settled hset
  · refine Pointwise.forall_set h.read fun hs => ?_
    obtain ⟨raw, hr, -⟩ := hcur hs
    simp [hr]
  · intro j x hx hdone
    dsimp only [Hub.put] at hx ⊢
    by_cases hjk : k = j
    · subst hjk
      rw [List.getElem?_set_self hlt] at hx
      obtain rfl := Option.some.inj hx
      exact hcur.quiet hlook (.refl _)
    · rw [List.getElem?_set_ne hjk] at hx
      refine Block.Current.quiet hlook (h.current j x hx ?_) (.refl x)
      rcases hdone with hlt | hdone
      · exact .inl (by omega)
      · exact .inr hdone

theorem Reshaping.step (h : Reshaping i name look k g) (now : Instant) :
    Reshaping i name look (k + 1) (reshape i name now g k).1 := by
  rw [reshape]
  rcases hb : g.blocks[k]? with _ | b
  · exact h.skip fun b hb' => by cases hb.symm.trans hb'
  · have hbm := List.mem_of_getElem? hb
    dsimp only
    split
    · rename_i hskip
      refine h.skip fun b₁ hb₁ => ?_
      obtain rfl := Option.some.inj (hb.symm.trans hb₁)
      intro hs
      have hdone : k = i ∨ name ∉ b.spec.deps := by simpa [hs] using hskip
      exact h.current k b hb (.inr hdone) hs
    · rename_i hgo
      have hfr : b.stale = false := by simp_all
      rcases hraw : b.raw with _ | raw
      · exact absurd (h.read b hbm hfr) (by simp [hraw])
      · dsimp only
        split
        · rename_i hdata
          refine h.skip fun b₁ hb₁ => ?_
          obtain rfl := Option.some.inj (hb.symm.trans hb₁)
          exact fun _ => ⟨raw, hraw, hdata⟩
        · rw [← hraw]
          obtain ⟨hspec, hraw', hdata, hset⟩ :=
            publishRead_spec (b := { b with data := some (shape g.blocks b.spec raw) }) hfr g.seq
              false now
          refine h.put hb hspec hraw' hset ?_ _ _
          intro _
          exact ⟨raw, hraw'.trans hraw, by rw [hdata, hspec]⟩

/-- After the loop every block is up to date. -/
theorem Reshaping.fresh (h : Reshaping i name look 0 g) (now : Instant) :
    Fresh (reshapeDependents g i name now).1 := by
  have hlen : Pointwise (fun _ _ => True) g.blocks (reshapeDependents g i name now).1.blocks :=
    reshapeDependents_pointwise (fun _ => trivial) (fun _ _ => trivial)
      (fun _ _ _ => trivial) g i name
  have hall := forEach_range (Reshaping i name look) g.blocks.length
    (fun k s _ hk => hk.step now) g h
  refine ⟨hall.consults, ?_, hall.settled⟩
  intro b hb
  obtain ⟨j, hj⟩ := List.mem_iff_getElem?.mp hb
  obtain ⟨a, ha, -⟩ := hlen.get hj
  exact hall.current j b hj (.inl (List.getElem?_eq_some_iff.mp ha).1)

end Reshaping

section Read

variable {v : Value}

/-- Block `i` with its new reply put back, before its dependents are looked at. -/
theorem read_current (h : Fresh g) (hb : g.blocks[i]? = some b) (hspec : b'.spec = b.spec)
    (hraw : b'.raw = some v) (hdata : b'.data = some (shape g.blocks b.spec v)) {j : Nat}
    {x : Block} (hx : (g.blocks.set i b')[j]? = some x)
    (hj : b.raw = some v ∨ j = i ∨ b.spec.name ∉ x.spec.deps) :
    x.Current (g.blocks.set i b') := by
  have hlook {n : String} (hn : n ≠ b.spec.name) :
      lookup g.blocks n = lookup (g.blocks.set i b') n :=
    (lookup_set_ne hb (congrArg BlockSpec.name hspec) hn).symm
  by_cases hij : i = j
  · subst hij
    rw [List.getElem?_set_self (List.getElem?_eq_some_iff.mp hb).1] at hx
    obtain rfl := Option.some.inj hx
    intro _
    refine ⟨v, hraw, ?_⟩
    rw [hdata, hspec]
    exact congrArg some
      (shape_congr (h.consults b (List.mem_of_getElem? hb)) v fun n _ hn => hlook hn)
  · rw [List.getElem?_set_ne hij] at hx
    have hxm := List.mem_of_getElem? hx
    intro hs
    obtain ⟨raw, hr, hd⟩ := h.current x hxm hs
    refine ⟨raw, hr, hd.trans (congrArg some ?_)⟩
    refine shape_congr (h.consults x hxm) raw fun n hn _ => ?_
    rcases hj with hsame | hj | hnot
    · -- the reply is the one from before
      rw [lookup_set_same hb hspec (hraw.trans hsame.symm)]
    · exact absurd hj.symm hij
    · exact hlook fun heq => hnot (heq ▸ hn)

theorem Fresh.recordRead (h : Fresh g) (i : Nat) (result : Except String Value)
    (now : Instant) (wall : Nat) : Fresh (recordRead g i result now wall).1 := by
  rw [Hub.recordRead]
  rcases hb : g.blocks[i]? with _ | b
  · exact h
  · have hbm := List.mem_of_getElem? hb
    rcases accepted result with _ | v
    · dsimp only
      split
      · rename_i hs
        exact h.quiet (.set Quiet.refl hb (quiet_of_stale rfl rfl rfl hs))
      · rw [publish_stale _ rfl]
        exact h.quiet (.set Quiet.refl hb (quiet_of_stale rfl rfl rfl rfl))
    · dsimp only
      obtain ⟨hspec, hraw, hdata, hset⟩ :=
        publishRead_spec (b := b.read v (shape g.blocks b.spec v) now wall) rfl g.seq b.stale now
      generalize publishRead g.seq (b.read v (shape g.blocks b.spec v) now wall) b.stale now = r
        at hspec hraw hdata hset ⊢
      have hcur {j : Nat} {x : Block} := read_current (j := j) (x := x) h hb hspec hraw hdata
      have hconsults : ∀ x ∈ g.blocks.set i r.2.1, x.spec.Consults :=
        Pointwise.forall_set h.consults (hspec ▸ h.consults b hbm)
      have hsettled : ∀ x ∈ g.blocks.set i r.2.1, x.Settled :=
        Pointwise.forall_set h.settled hset
      split
      · rename_i hsame
        refine ⟨hconsults, fun x hx => ?_, hsettled⟩
        obtain ⟨j, hj⟩ := List.mem_iff_getElem?.mp hx
        exact hcur hj (.inl hsame)
      · refine Reshaping.fresh ⟨rfl, hconsults, hsettled, ?_, ?_⟩ now
        · refine Pointwise.forall_set (fun x hx hs => ?_) fun _ => ?_
          · obtain ⟨raw, hr, -⟩ := h.current x hx hs
            simp [hr]
          · simp [hraw, Block.read]
        · intro j x hx hdone
          rcases hdone with hlt | hdone
          · exact absurd hlt (Nat.not_lt_zero j)
          · exact hcur hx (.inr hdone)

end Read

/-! ### Whole runs -/

theorem Fresh.step (h : Fresh g) (op : Op) : Fresh (step g op).1 := by
  cases op with
  | recordRead i result now wall => exact h.recordRead i result now wall
  | record name result now wall =>
    simp only [Hub.step, record]
    rcases position g name with _ | i
    · exact h
    · exact h.recordRead i result now wall
  | markImmediate names => exact h.markImmediate names
  | expire now sampleInterval => exact h.expire now sampleInterval
  | roundEnd now sampleInterval => exact h.roundEnd now sampleInterval
  | heartbeatIfQuiet now execAgeMs quiet =>
    simp only [Hub.step, heartbeatIfQuiet]
    split
    · exact h
    · exact ⟨h.consults, h.current, h.settled⟩

theorem new_fresh {specs : List BlockSpec} (hc : ∀ spec ∈ specs, spec.Consults) :
    Fresh (new specs) := by
  constructor
  · intro b hb
    obtain ⟨spec, hspec, rfl⟩ := List.mem_map.mp hb
    exact hc spec hspec
  · intro b hb hs
    obtain ⟨spec, -, rfl⟩ := List.mem_map.mp hb
    cases hs
  · intro b hb _ hs
    obtain ⟨spec, -, rfl⟩ := List.mem_map.mp hb
    cases hs

theorem Fresh.run (h : Fresh g) (ops : List Op) : Fresh (run g ops).1 :=
  forEach_invariant Fresh (fun _ op hg => hg.step op) ops g h

/-! ### The other policies -/

/-- The hook of a live block at the end of a round leaves nothing unpublished. -/
theorem roundEndBlock_live (now : Instant) (seq : Nat) (b : Block) :
    let b' := (roundEndBlock now seq b).2.1
    b'.spec.policy = livePolicy → b'.stale = false → b'.published = b'.data := by
  intro b' hp hs
  have hq : Quiet b b' := roundEndBlock_quiet now seq b
  have hfr : b.stale = false := hq.stale hs
  have hif : b.spec.policy.onRoundEnd (b.policyInput now) = .ifChanged := by
    rw [← hq.spec, hp]
    rfl
  have hpub : b' = (publish seq b .ifChanged false now).2.1 := by
    simp [b', roundEndBlock, hfr, hif]
  rcases publish_fresh seq .ifChanged false now hfr with ⟨heq, -, hch⟩ | ⟨b₁, rfl, heq, -⟩
  · rw [hpub, heq]
    exact hch rfl
  · rw [hpub, heq]

theorem roundEnd_live (g : Inner) (now : Instant) (sampleInterval : Duration) :
    ∀ b ∈ (roundEnd g now sampleInterval).1.blocks, b.spec.policy = livePolicy →
      b.stale = false → b.published = b.data :=
  sweep_all (roundEndBlock_live now) (Hub.expire g now sampleInterval).1

/-- Recomputing dependents leaves the block that was read alone. -/
theorem reshapeDependents_self (g : Inner) (i : Nat) (name : String) (now : Instant) :
    (reshapeDependents g i name now).1.blocks[i]? = g.blocks[i]? := by
  refine forEach_invariant (fun g' => g'.blocks[i]? = g.blocks[i]?) (fun g' j h => ?_) _ g rfl
  rw [← h, reshape]
  rcases g'.blocks[j]? with _ | b
  · rfl
  · dsimp only
    split
    · rfl
    · rename_i hgo
      have hne : j ≠ i := by simp_all
      split
      · rfl
      · split
        · rfl
        · exact List.getElem?_set_ne hne

theorem signal_onRead {crosses : Value → Value → Bool} {input : PolicyInput}
    (h : (signalPolicy crosses).onRead input = .no) :
    ∃ p c t, input.published = some p ∧ input.current = some c ∧
      input.sincePublish = some t ∧ t < signalForce ∧ crosses p c = false := by
  obtain ⟨published, current, since⟩ := input
  rcases published with _ | p
  · cases h
  · rcases current with _ | c
    · cases h
    · rcases since with _ | t
      · simp [signalPolicy] at h
      · simp only [signalPolicy, Option.all_some] at h
        split at h
        · cases h
        · rename_i hc
          simp only [Bool.or_eq_true, decide_eq_true_eq, not_or, Bool.not_eq_true,
            Nat.not_le] at hc
          exact ⟨p, c, t, rfl, rfl, rfl, hc.2, hc.1⟩

/-- After a read of a signal block, what it has not published is young and below the
    threshold. -/
theorem recordRead_signal {v : Value} {result : Except String Value}
    (hr : accepted result = some v) (wall : Nat) {crosses : Value → Value → Bool}
    (hb : (recordRead g i result now wall).1.blocks[i]? = some b)
    (hp : b.spec.policy = signalPolicy crosses) :
    b.published = b.data ∨ ∃ t p d, b.publishedAt = some t ∧ now - t < signalForce ∧
      b.published = some p ∧ b.data = some d ∧ crosses p d = false := by
  rw [recordRead] at hb
  rcases hb₀ : g.blocks[i]? with _ | b₀
  · rw [hb₀] at hb
    cases hb₀.symm.trans hb
  · simp only [hb₀, hr] at hb
    have hput : (put g i (publishRead g.seq (b₀.read v (shape g.blocks b₀.spec v) now wall)
        b₀.stale now)).1.blocks[i]? = some b := by
      split at hb
      · exact hb
      · rwa [reshapeDependents_self] at hb
    rw [put, List.getElem?_set_self (List.getElem?_eq_some_iff.mp hb₀).1, Option.some.injEq] at hput
    generalize hread : b₀.read v (shape g.blocks b₀.spec v) now wall = b₁ at hput
    have hs : b₁.stale = false := by rw [← hread]; rfl
    rw [publishRead] at hput
    rcases publish_fresh g.seq (b₁.spec.policy.onRead (b₁.policyInput now)) b₀.stale now hs with
      ⟨heq, -, hch⟩ | ⟨b₂, rfl, heq, -⟩
    · rw [heq] at hput
      subst hput
      rcases hd : b₁.spec.policy.onRead (b₁.policyInput now) with _ | _
      · rw [hp] at hd
        obtain ⟨p, c, t, h₁, h₂, h₃, h₄, h₅⟩ := signal_onRead hd
        obtain ⟨t₀, ht₀, rfl⟩ := Option.map_eq_some_iff.mp h₃
        exact .inr ⟨t₀, p, c, ht₀, h₄, h₁, h₂, h₅⟩
      · exact .inl (hch hd)
    · rw [heq] at hput
      subst hput
      exact .inl rfl

/-- **Freshness.**  For any blocks whose `deps` list what their shapes consult, after
    every run: a fresh block that publishes every change has published its data, and
    they are its reply shaped with the current replies of the others; a fresh live block
    has published its data right after a round; and after a successful read a signal
    block has published its data, or it did publish less than 30 s ago and the difference
    is below the threshold. -/
theorem published_is_fresh (specs : List BlockSpec) (hc : ∀ spec ∈ specs, spec.Consults)
    (ops : List Op) :
    let g := (run (new specs) ops).1
    (∀ b ∈ g.blocks, b.spec.policy = onChange → b.stale = false →
      ∃ raw, b.raw = some raw ∧ b.data = some (shape g.blocks b.spec raw) ∧
        b.published = b.data) ∧
    (∀ now sampleInterval, ∀ b ∈ (step g (.roundEnd now sampleInterval)).1.blocks,
      b.spec.policy = livePolicy → b.stale = false → b.published = b.data) ∧
    ∀ op i v now b crosses, op.read g = some (i, v) → op.time = some now →
      (step g op).1.blocks[i]? = some b → b.spec.policy = signalPolicy crosses →
      b.published = b.data ∨ ∃ t p d, b.publishedAt = some t ∧ now - t < signalForce ∧
        b.published = some p ∧ b.data = some d ∧ crosses p d = false := by
  intro g
  have hfresh : Fresh g := (new_fresh hc).run ops
  refine ⟨?_, ?_, ?_⟩
  · intro b hb hp hs
    obtain ⟨raw, hraw, hdata⟩ := hfresh.current b hb hs
    exact ⟨raw, hraw, hdata, hfresh.settled b hb hp hs⟩
  · intro now sampleInterval
    exact roundEnd_live g now sampleInterval
  · intro op i v now b crosses hread htime hb hp
    cases op with
    | recordRead j result now' wall =>
      obtain ⟨v', hv, heq⟩ := Option.map_eq_some_iff.mp hread
      cases heq
      cases htime
      exact recordRead_signal hv wall hb hp
    | record name result now' wall =>
      obtain ⟨j, hj, hread⟩ := Option.bind_eq_some_iff.mp hread
      obtain ⟨v', hv, heq⟩ := Option.map_eq_some_iff.mp hread
      cases heq
      cases htime
      simp only [Hub.step, record, hj] at hb
      exact recordRead_signal hv wall hb hp
    | _ => cases hread

theorem phase1Blocks_consults {batteryV2 chargerV2 : ShapeFn} (crosses : Value → Value → Bool)
    (hb : ∀ raw look look', look "charger" = look' "charger" →
      batteryV2 raw look = batteryV2 raw look')
    (hch : ∀ raw look look', chargerV2 raw look = chargerV2 raw look') :
    ∀ spec ∈ phase1Blocks batteryV2 chargerV2 crosses, spec.Consults := by
  have hnone {spec : BlockSpec} (h : spec.shape = none) : spec.Consults :=
    fun f hf => nomatch h.symm.trans hf
  intro spec hspec
  simp only [phase1Blocks, List.mem_cons, List.not_mem_nil, or_false] at hspec
  rcases hspec with rfl | rfl | hspec
  · intro f hf raw look look' h
    cases hf
    have hother : "charger" ≠ "battery" := by decide
    exact hb raw look look' (h "charger" (List.mem_singleton.mpr rfl) hother)
  · intro f hf raw look look' _
    cases hf
    exact hch raw look look'
  · apply hnone
    rcases hspec with rfl | rfl | rfl | rfl | rfl | rfl | rfl | rfl | rfl | rfl | rfl | rfl |
      rfl | rfl | rfl <;> rfl

/-- A battery that is shown with the reply of its charger. -/
def dependentSpecs : List BlockSpec :=
  phase1Blocks (fun raw other => .arr [raw, (other "charger").getD .null]) (fun raw _ => raw)
    fun p c => p ≠ c

/-- The charger is read after the battery, and the battery is published again. -/
theorem charger_read_reshapes_battery :
    let g := (run (new dependentSpecs)
      [.recordRead 0 (.ok (.obj [])) 1 100,
        .recordRead 1 (.ok (.obj [("on", .bool true)])) 2 100]).1
    (∀ spec ∈ dependentSpecs, spec.Consults) ∧
      ∃ b ∈ g.blocks, b.spec.name = "battery" ∧ b.published = b.data ∧
        b.data = some (.arr [.obj [], .obj [("on", .bool true)]]) := by
  intro g
  have hc : ∀ spec ∈ dependentSpecs, spec.Consults :=
    phase1Blocks_consults _ (fun _ _ _ h => by rw [h]) fun _ _ _ => rfl
  obtain ⟨b, hb⟩ : ∃ b, g.blocks[0]? = some b := ⟨_, rfl⟩
  have hpol : (g.blocks[0]?.map fun b => b.spec.policy) = some onChange := rfl
  have hval : (g.blocks[0]?.map fun b => (b.spec.name, b.stale, b.data)) =
      some ("battery", false, some (.arr [.obj [], .obj [("on", .bool true)]])) := by
    decide +kernel
  rw [hb, Option.map_some, Option.some.injEq] at hpol hval
  simp only [Prod.mk.injEq] at hval
  obtain ⟨raw, -, -, hpub⟩ := (published_is_fresh dependentSpecs hc _).1 b
    (List.mem_of_getElem? hb) hpol hval.2.1
  exact ⟨hc, b, List.mem_of_getElem? hb, hval.1, hpub, hval.2.2⟩

end Datad.Hub
