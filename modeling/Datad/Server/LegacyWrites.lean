/-
  Datad/Server/LegacyWrites.lean
  ==============================
  **Old requests and transactions on one item.**

  A request without a source passes the engine's gate, or is popped by the drain task,
  while no transaction on its item is live.  It is executed later, from the executor's
  queue, and nothing there looks at described actions again.  A `submit` that is
  accepted in between puts a transaction under it; if none is, it stays alone.
-/
import Datad.Server.Cargo
import Datad.Ops.WriteOnce

namespace Datad

open Transition

namespace Server

/-- A sourceless write of a described item is on its way to the device. -/
def Awaits (s : Server) (item : String) : Prop := ∃ c, s.Carried c ∧ c.item = some item

/-- No transaction is accepted on an item while a sourceless write of it is on its way. -/
def Apart (s : Server) (a : Act) : Prop :=
  ∀ b item, a = .world b → s.world.accepts b = some item → ¬ s.Awaits item

/-- An item gets a transaction only by an acceptance, or when a process starts. -/
theorem Move.free {cfg : Config} {s s' : Server} {a : Act} {item : String}
    (hm : Move cfg s a s') (hok : s.world.Ok)
    (ha : ∀ b, a = .world b → s.world.accepts b ≠ some item) (hf : s.world.st.Free item) :
    s'.world.st.Free item ∨ ∃ w, s' = s.reset w := by
  cases hm.moved with
  | still hst hn =>
      rw [hst]
      exact .inl hf
  | called c hst hn =>
      rw [hst]
      exact .inl (@World.call_free s.world 0 c item hf)
  | @turned key T i hT hst hn hact =>
      rw [hst]
      refine .inl (@World.take_free cfg s.world hok key T hT i item hf ?_)
      rcases hact with hact | ⟨r, rfl⟩
      · exact ha _ hact
      · simp [World.accepts, hT]
  | reset w hs => exact .inr ⟨w, hs⟩

/-! ### The invariant -/

/-- No write on its way has a transaction under it. -/
structure Calm (s : Server) : Prop where
  ok : s.world.Ok
  aligned : s.Aligned
  free : ∀ {item}, s.Awaits item → s.world.st.Free item

theorem Calm.empty : Calm {} := by
  refine ⟨World.Ok.empty, Aligned.empty, ?_⟩
  rintro item ⟨c, hc, -⟩
  cases hc with
  | request hp => cases hp
  | queued hj => cases hj
  | running hr => cases hr
  | held ht => cases ht

theorem legacyItem_sourced {action : String} {b : Body} (h : b.source.isSome = true) :
    legacyItem action b = none := by
  rw [legacyItem, if_neg]
  rw [Option.isNone_iff_eq_none, ← Option.not_isSome_iff_eq_none, h]
  simp

/-- A write that comes on board has no transaction under it. -/
theorem Boards.free {cfg : Config} {s s' : Server} {a : Act} {c : Cargo} {item : String}
    (hb : Boards cfg s a s' c) (hi : c.item = some item) :
    s'.world.st.Free item ∨ s.Awaits item := by
  cases hb with
  | passed hp hs hg hst =>
      left
      have hi : legacyItem _ _ = some item := hi
      dsimp only [Pending.cargo] at hi
      rw [hst]
      rw [hi] at hg ⊢
      exact .of_none (St.legacyGate_pass hg) item
  | sourced hp hst hs =>
      have hi : legacyItem _ _ = some item := hi
      dsimp only [Pending.cargo] at hi
      rw [legacyItem_sourced hs] at hi
      cases hi
  | popped hp ha hs => exact .inl (.of_none ha item)
  | flushed hf hr hc => exact .inr ⟨_, hc, hi⟩

theorem Calm.step {cfg : Config} {s s' : Server} {a : Act} (h : s.Calm) (hap : s.Apart a)
    (hs : next cfg s a = some s') : s'.Calm := by
  have hm := next_move hs
  refine ⟨hm.ok h.ok, h.aligned.move hm, ?_⟩
  intro item haw
  have kept : s.Awaits item → s'.world.st.Free item := by
    intro hbefore
    have ha := fun b hb heq => hap b item hb heq hbefore
    rcases hm.free h.ok ha (h.free hbefore) with hf | ⟨w, rfl⟩
    · exact hf
    · obtain ⟨c, hc, -⟩ := haw
      cases hc with
      | request hp => cases hp
      | queued hj => cases hj
      | running hr => cases hr
      | held ht hr => cases hr
  obtain ⟨c, hc, hi⟩ := haw
  rcases hc.move h.aligned hm with hc | hb
  · exact kept ⟨c, hc, hi⟩
  · rcases hb.free hi with hf | hbefore
    · exact hf
    · exact kept hbefore

/-- The item of the table a call of the device changes. -/
def Deed.item (d : Deed) : Option String := (Spec.find d.action).map Spec.item

/-- A sourceless write of a described item that is executed was on its way. -/
theorem awaits_of_deed {s : Server} {a : Act} {d : Deed} {item : String} (hd : s.deed a = some d)
    (hs : d.sourceless = true) (hi : d.item = some item) : s.Awaits item := by
  cases a with
  | execute =>
      obtain ⟨c, hc, haction, -, hsrc, -, -, htarget⟩ := carried_of_execute hd
      obtain ⟨spec, hspec, hitem⟩ := Option.map_eq_some_iff.mp hi
      rw [← haction] at hspec
      exact ⟨c, hc, legacyItem_eq_some (hsrc.trans hs) hspec (htarget spec hspec) hitem⟩
  | world b =>
      cases b with
      | task key i =>
          simp only [deed] at hd
          split at hd
          · cases hd
            cases hs
          · cases hd
      | _ => cases hd
  | _ => cases hd

/-- **An old request and a transaction do not meet.**  In every run in which no transaction
    is accepted on an item while a sourceless write of it is on its way: whenever such a
    write is executed on the device, no transaction on its item is live. -/
theorem legacy_write_alone {cfg : Config} {s : Server} {a : Act} {d : Deed} {item : String}
    (h : Exec (next cfg) Apart {} s) (hd : s.deed a = some d) (hs : d.sourceless = true)
    (hi : d.item = some item) : s.world.st.Free item := by
  have hcalm := h.invariant Calm (fun hinv hok hstep => hinv.step hok hstep) Calm.empty
  exact hcalm.free (awaits_of_deed hd hs hi)

/-- A client asks for a network mode; an old one names no source. -/
def setMode (id : Nat) (mode : String) (source : Option String) : Act :=
  .receive id "network.set_mode"
    { params := .obj [("mode", .str mode)], source := source.map .str }

/-- A `submit` is reading the device while an old request for the same item passes the
    gate and is handed to the executor; then the `submit` is accepted and the executor
    comes to the job. -/
def crossingRun : List Act :=
  [.world (.start 0 "boot" 5), setMode 0 "Only_5G" (some "web"), .handle 0 1 "a" 10,
    .handle 0 1 "a" 10, .handle 0 1 "a" 10, .world (.task 1 { now := 10 }),
    setMode 1 "Only_LTE" none, .handle 1 2 "" 20, .handle 1 2 "" 20, .handle 1 2 "" 20,
    .handle 1 2 "" 20,
    .world (.task 1
      { now := 30, reading := .ok (Txn.sampleReading "WL_AND_5G" "89860000000000000001") }),
    .pop, .check 3]

/-- The old request is executed under the transaction of the new one. -/
theorem legacy_write_under_change :
    ∃ s d t, Exec (next World.sampleConfig) (fun _ _ => True) {} s ∧ s.deed .execute = some d ∧
      d.sourceless = true ∧ d.item = some NETWORK_MODE ∧ s.world.st.active = some t ∧
      t.item = NETWORK_MODE := by
  have hrun : (run (next World.sampleConfig) (fun _ _ => true) {} crossingRun).any (fun s =>
      ((s.deed .execute).any fun d => d.sourceless && decide (d.item = some NETWORK_MODE)) &&
        s.world.st.active.any fun t => decide (t.item = NETWORK_MODE)) = true := by
    decide +kernel
  obtain ⟨s, hs, hp⟩ := Exec.exists_of_run (fun _ _ _ => trivial) (.refl _) hrun
  simp only [Bool.and_eq_true, Option.any_eq_true, decide_eq_true_eq] at hp
  obtain ⟨⟨d, hd, hsrc, hi⟩, t, ht, hitem⟩ := hp
  exact ⟨s, d, t, hs, hd, hsrc, hi, ht, hitem⟩

/-- Is no transaction accepted in this step? -/
def acceptsNothing (s : Server) : Act → Bool
  | .world b => (s.world.accepts b).isNone
  | _ => true

theorem Apart.of_test {s : Server} {a : Act} (h : acceptsNothing s a = true) : s.Apart a := by
  rintro b item rfl hacc
  rw [acceptsNothing, hacc] at h
  cases h

/-- An old request that nobody comes across. -/
theorem legacy_write_undisturbed :
    ∃ s d, Exec (next World.sampleConfig) Apart {} s ∧ s.deed .execute = some d ∧
      d.sourceless = true ∧ d.item = some NETWORK_MODE ∧ s.world.st.Free NETWORK_MODE := by
  have hrun : (run (next World.sampleConfig) acceptsNothing {}
      [.world (.start 0 "boot" 5), setMode 1 "Only_LTE" none, .handle 1 2 "" 20,
        .handle 1 2 "" 20, .handle 1 2 "" 20, .handle 1 2 "" 20, .pop, .check 3]).any (fun s =>
          (s.deed .execute).any fun d => d.sourceless && decide (d.item = some NETWORK_MODE)) =
        true := by
    decide +kernel
  obtain ⟨s, hs, hp⟩ := @Exec.exists_of_run _ _ _ Apart _ (fun _ _ h => .of_test h) _ _ _ _
    (.refl _) hrun
  simp only [Option.any_eq_true, Bool.and_eq_true, decide_eq_true_eq] at hp
  obtain ⟨d, hd, hsrc, hi⟩ := hp
  exact ⟨s, d, hs, hd, hsrc, hi, legacy_write_alone hs hd hsrc hi⟩

end Server

end Datad
