/-
  Datad/Server/Flushing.lean
  ==========================
  **A safety write flushes older requests.**

  Switching data or roaming off, and restarting the device, empty the legacy queue.
  What the drain task has taken out of the queue is not in it: the flush passes over
  a request that is in its hands and not yet with the executor.  That one is executed
  afterwards, at once or after it was put back.
-/
import Datad.Server.Cargo
import Datad.Ops.WriteOnce

namespace Datad

open Transition

namespace Server

/-- The queue is flushed only while no drain task holds a request that it has not handed to
    the executor. -/
def EmptyHanded (s : Server) (a : Act) : Prop :=
  s.flushing a = true → ∀ key t, s.runs key ≠ .held t

/-- No request that a flush has passed over is left. -/
structure Unflushed (s : Server) : Prop where
  aligned : s.Aligned
  tickets : Labelled (fun t => t.flushed = false) s
  carried : ∀ {c}, s.Carried c → c.flushed = false

theorem Unflushed.empty : Unflushed {} := by
  refine ⟨Aligned.empty, ⟨nofun, nofun⟩, ?_⟩
  intro c hc
  cases hc with
  | request hp => cases hp
  | queued hj => cases hj
  | running hr => cases hr
  | held ht => cases ht

theorem Unflushed.step {cfg : Config} {s s' : Server} {a : Act} (h : s.Unflushed)
    (hok : s.EmptyHanded a) (hs : next cfg s a = some s') : s'.Unflushed := by
  have hm := next_move hs
  refine ⟨h.aligned.move hm, ?_, ?_⟩
  · refine h.tickets.move hm (fun _ _ _ _ => rfl) fun hf key t ht => ?_
    exact absurd ht (hok hf key t)
  · intro c hc
    rcases hc.move h.aligned hm with hc | hb
    · exact h.carried hc
    · cases hb with
      | passed => rfl
      | sourced => rfl
      | popped hp => exact h.tickets.1 _ ((popLine_mem hp).1 _ rfl)
      | flushed hf hr => exact absurd hr (hok hf _ _)

/-- **Nothing that was flushed is executed.**  In every run in which the queue is flushed
    only while the drain task has nothing in its hands: no request that was queued and not
    yet with the executor when the queue was flushed is executed on the device. -/
theorem flushed_never_executed {cfg : Config} {s : Server} {a : Act} {d : Deed}
    (h : Exec (next cfg) EmptyHanded {} s) (hd : s.deed a = some d) : d.flushed = false := by
  have hinv := h.invariant Unflushed (fun hinv hok hstep => hinv.step hok hstep) Unflushed.empty
  cases a with
  | execute =>
      obtain ⟨c, hc, -, -, -, -, hf, -⟩ := carried_of_execute hd
      exact hf.symm.trans (hinv.carried hc)
  | world b =>
      cases b with
      | task key i =>
          simp only [deed] at hd
          split at hd
          · cases hd
            rfl
          · cases hd
      | _ => cases hd
  | _ => cases hd

/-- A request waits for a session to end and is taken by the drain task.  Before it is
    handed to the executor, data is switched off. -/
def flushRun : List Act :=
  [.world (.start 0 "boot" 5),
    .receive 0 "netselect.session.open" { source := some (.str "web") }, .handle 0 1 "s" 10,
    .receive 1 "network.set_mode" { params := .obj [("mode", .str "Only_LTE")] },
    .handle 1 2 "" 20, .handle 1 2 "" 20, .handle 1 2 "" 20,
    .receive 2 "netselect.session.close"
      { params := .obj [("session", .str "s")], source := some (.str "web") },
    .handle 2 3 "" 30, .world (.task 3 {}), .world (.task 3 { now := 40 }),
    .receive 3 "cellular.set" { params := .obj [("enabled", .bool false)] },
    .handle 3 4 "" 50, .handle 3 4 "" 50, .hand 3, .pop, .check 5]

/-- The queue is flushed over the request in the drain task's hands, which is executed all
    the same. -/
theorem flushed_executed :
    ∃ s d, Exec (next World.sampleConfig) (fun _ _ => True) {} s ∧ s.deed .execute = some d ∧
      d.flushed = true := by
  have hrun : (run (next World.sampleConfig) (fun _ _ => true) {} flushRun).any (fun s =>
      (s.deed .execute).any fun d => d.flushed) = true := by
    decide +kernel
  obtain ⟨s, hs, hp⟩ := Exec.exists_of_run (fun _ _ _ => trivial) (.refl _) hrun
  simp only [Option.any_eq_true] at hp
  obtain ⟨d, hd, hf⟩ := hp
  exact ⟨s, d, hs, hd, hf⟩

/-! ### The flag of the drain task -/

/-- While the flag is down the drain task has nothing in its hands. -/
theorem lowered_empty {cfg : Config} {ok : Server → Act → Prop} {s : Server}
    (h : Exec (next cfg) ok {} s) (hd : s.world.draining = false) (key : Nat) (t : Ticket) :
    s.runs key ≠ .held t := by
  obtain ⟨hal, q, hq⟩ := h.invariant (fun s => s.Aligned ∧ ∃ q, s.world.Serving q) (by
    rintro s s' a ⟨hal, q, hq⟩ - hs
    have hm := next_move hs
    refine ⟨hal.move hm, ?_⟩
    rcases hm.world with hw | ⟨b, hw⟩
    · rw [hw]
      exact ⟨q, hq⟩
    · obtain ⟨-, q', hq', -⟩ := hq.step (Nat.zero_le _) (World.next_step hw)
      exact ⟨q', hq'⟩) ⟨Aligned.empty, _, World.Serving.empty⟩
  intro ht
  have hdrains := World.drainsOf_of_hand (hal.held key t ht)
  have := hq.flag.mpr ⟨key, hdrains⟩
  rw [hd] at this
  cases this

/-- Is the flag down, if the step flushes the queue? -/
def lowered (s : Server) (a : Act) : Bool := !s.flushing a || !s.world.draining

theorem EmptyHanded.exec {cfg : Config} {s : Server}
    (h : Exec (next cfg) (fun s a => lowered s a = true) {} s) :
    Exec (next cfg) EmptyHanded {} s := by
  induction h with
  | refl => exact .refl _
  | @tail s s' h a hok hs ih =>
      refine .tail ih a (fun hf => ?_) hs
      rw [lowered, hf] at hok
      exact lowered_empty h (by simpa using hok)

/-- Data is switched off while the drain task is idle; a request that comes later waits for
    a session to end and is executed. -/
theorem later_request_executed :
    ∃ s d, Exec (next World.sampleConfig) EmptyHanded {} s ∧ s.deed .execute = some d ∧
      d.action = "network.set_mode" ∧ d.flushed = false := by
  have hrun : (run (next World.sampleConfig) lowered {}
      [.world (.start 0 "boot" 5),
        .receive 3 "cellular.set" { params := .obj [("enabled", .bool false)] },
        .handle 3 4 "" 6, .handle 3 4 "" 6, .handle 3 4 "" 6, .handle 3 4 "" 6, .pop, .check 5,
        .execute, .finish,
        .receive 0 "netselect.session.open" { source := some (.str "web") }, .handle 0 1 "s" 10,
        .receive 1 "network.set_mode" { params := .obj [("mode", .str "Only_LTE")] },
        .handle 1 2 "" 20, .handle 1 2 "" 20, .handle 1 2 "" 20,
        .receive 2 "netselect.session.close"
          { params := .obj [("session", .str "s")], source := some (.str "web") },
        .handle 2 3 "" 30, .world (.task 3 {}), .world (.task 3 { now := 40 }), .hand 3, .pop,
        .check 5]).any (fun s =>
          (s.deed .execute).any fun d => decide (d.action = "network.set_mode")) = true := by
    decide +kernel
  obtain ⟨s, hs, hp⟩ := @Exec.exists_of_run _ _ _ (fun s a => lowered s a = true) _
    (fun _ _ h => h) _ _ _ _ (.refl _) hrun
  simp only [Option.any_eq_true, decide_eq_true_eq] at hp
  obtain ⟨d, hd, ha⟩ := hp
  have hs := EmptyHanded.exec hs
  exact ⟨s, d, hs, hd, ha, flushed_never_executed hs hd⟩

end Server

end Datad
