/-
  Datad/Server/Capture.lean
  =========================
  **The value a transaction captures.**

  `submit` reads the value of the item, asks the device for more, and takes the lock
  again when it has everything.  Under the lock it looks at the transactions and not at
  the device, so a write of the item that takes effect in between is not noticed: an old
  request, a rollback, or the write of another `submit`.  If none does, or the last one
  writes back the value that was read, the transaction starts from what the device
  holds, and its rollback restores that.
-/
import Datad.Server.Device
import Datad.Server.Effects

namespace Datad

open Transition

namespace World

variable {cfg : Config} {w w' : World}

theorem chronicle_append (a : Act) (hist : List Acceptance) :
    chronicle cfg w a w' hist = hist ++ chronicle cfg w a w [] := by
  simp only [chronicle, List.nil_append]

/-- On an errand nothing is accepted. -/
theorem Errand.chronicle {a : Act} (h : w.Errand a) (hist : List Acceptance) :
    chronicle cfg w a w' hist = hist := by
  cases a with
  | task key i =>
      obtain ⟨r, hr⟩ := h
      have hacc : (w.turnOf cfg (.drainRun r) i).accepted = 0 := by
        simp only [turnOf, Task.turn]
        split <;> rfl
      simp only [Datad.chronicle, hr, Turn.news, hacc, if_true, List.append_nil]
  | call key c => exact List.append_nil _
  | submit key req fresh => exact List.append_nil _
  | _ => cases h

/-- A `submit` comes to its reading by a turn of its own. -/
theorem next_submitRead {a : Act} (h : w.next cfg a = some w') {key : Nat} {req : Request}
    {x : String} (ht : w'.tasks key = some (.submitRead req x)) :
    w.tasks key = some (.submitRead req x) ∨
      ∃ i T, a = .task key i ∧ w.tasks key = some T ∧ T.submitting = true := by
  cases next_step h with
  | submit hu hk =>
      rcases Server.setAt_cases (f := w.tasks) ht with ⟨-, ht⟩ | ⟨-, ht⟩
      · cases ht
      · exact .inl ht
  | task hT =>
      rcases Server.setAt_cases (f := w.tasks) ht with ⟨rfl, hturn⟩ | ⟨-, hold⟩
      · exact .inr ⟨_, _, rfl, hT, (Task.turn_follows hturn).1 rfl⟩
      · exact .inl hold
  | call hu hk =>
      rcases Server.setAt_cases (f := w.tasks) ht with ⟨-, ht⟩ | ⟨-, ht⟩
      · rcases Call.turn_task ht with h | ⟨id, h⟩ <;> cases h
      · exact .inl ht
  | drop hT hd =>
      rcases Server.setAt_cases (f := w.tasks) ht with ⟨-, ht⟩ | ⟨-, ht⟩
      · cases ht
      · exact .inl ht
  | start hu =>
      rcases Server.setAt_cases (f := fun _ => none) ht with ⟨-, ht⟩ | ⟨-, ht⟩
      · obtain ⟨t, -, ht⟩ := Option.map_eq_some_iff.mp ht
        cases ht
      · cases ht
  | takeover => exact .inl ht
  | crash hu => cases ht
  | crashTask hT => cases ht
  | crashCall hu => cases ht
  | crashStart hu => cases ht

/-- What a turn accepts: the transaction of a `submit` that has its reading. -/
theorem turnOf_news (hok : w.Ok) {key : Nat} {T : Task} (hT : w.tasks key = some T) (i : Input)
    {e : Acceptance} (he : e ∈ (w.turnOf cfg T i).news w.st.active) :
    ∃ req x r, T = .submitRead req x ∧ i.reading = .ok r ∧ r.value = some e.txn.old ∧
      e.txn.item = req.spec.item ∧ e.superseded = w.st.active ∧
      w.accepts (.task key i) = some req.spec.item := by
  have hacc : (w.turnOf cfg T i).accepted ≠ 0 := by
    intro h0
    rw [Turn.news, if_pos h0] at he
    cases he
  obtain ⟨req, x, -, -, rfl, href, -⟩ := (Turned.task hok hT i).accepts hacc
  rcases hr : i.reading with m | r
  · refine absurd ?_ hacc
    simp only [turnOf, Task.turn, hr, St.capture]
  · rcases hv : r.value with _ | v
    · refine absurd ?_ hacc
      simp only [turnOf, Task.turn, hr, St.capture, hv]
    · refine ⟨req, x, r, rfl, rfl, ?_⟩
      simp only [turnOf, Task.turn, hr, St.capture, hv, href, Turn.news] at he
      rw [if_neg Nat.one_ne_zero, St.accept_active] at he
      rw [List.mem_singleton.mp he]
      refine ⟨hv, rfl, rfl, ?_⟩
      simp only [accepts, hT, hr, St.capture, hv, href]
      rfl

end World

namespace Device

/-! ### The invariant -/

/-- The observer's notes are right: the chronicle is, and the register of an item that is
    being read holds what the last write since the look has put there. -/
structure Tracked (s : Device) : Prop where
  ok : s.server.world.Ok
  chronicled : s.server.world.Chronicled (s.snapshots.map Snapshot.acceptance)
  looked : ∀ {key req x v}, s.server.world.tasks key = some (.submitRead req x) →
    s.looks key = some v → s.regs req.spec.item = (s.since key).getLast?.getD v

section Serve

variable {cfg : Config} {s s' : Device} {a : Server.Act}

theorem serve_eq_some (h : s.serve cfg a = some s') : s.truthful a = true ∧
    s.server.next cfg a = some s'.server ∧ s'.regs = s.regs ∧ s'.since = s.since ∧
    s'.looks = s.looksAfter a ∧
    s'.snapshots = s.snapshots ++
      (s.news cfg a).map fun e => { acceptance := e, held := s.regs e.txn.item } := by
  rw [serve] at h
  split at h
  · rename_i ht
    obtain ⟨server, hs, rfl⟩ := Option.map_eq_some_iff.mp h
    exact ⟨ht, hs, rfl, rfl, rfl, rfl⟩
  · cases h

theorem news_of_ne (h : ∀ b, a ≠ .world b) : s.news cfg a = [] := by
  cases a with
  | world b => exact absurd rfl (h b)
  | _ => rfl

theorem looksAfter_some {key : Nat} {v : String} (h : s.looksAfter a key = some v) :
    s.looks key = some v ∧ ∀ i, a ≠ .world (.task key i) := by
  unfold looksAfter at h
  split at h
  · rcases Server.setAt_cases h with ⟨-, h⟩ | ⟨hne, h⟩
    · cases h
    · refine ⟨h, fun i heq => ?_⟩
      cases heq
      exact hne rfl
  · rename_i hno
    exact ⟨h, fun i heq => hno key i heq⟩

/-- A `submit` that has looked was reading before. -/
theorem serve_reads (hs : s.server.next cfg a = some s'.server) {key : Nat} {req : Request}
    {x : String} (ht : s'.server.world.tasks key = some (.submitRead req x))
    (ha : ∀ i, a ≠ .world (.task key i)) :
    s.server.world.tasks key = some (.submitRead req x) := by
  rcases (Server.next_move hs).engine with ⟨b, rfl, hw⟩ | ⟨-, hw | ⟨b, herr, hw⟩⟩
  · rcases World.next_submitRead hw ht with ht | ⟨i, T, rfl, -⟩
    · exact ht
    · exact absurd rfl (ha i)
  · rw [hw] at ht
    exact ht
  · rcases World.next_submitRead hw ht with ht | ⟨i, T, rfl, hT, hsub⟩
    · exact ht
    · obtain ⟨r, hr⟩ := herr
      rw [hr] at hT
      cases hT
      cases hsub

theorem Tracked.serve (h : s.Tracked) (hs : s.serve cfg a = some s') : s'.Tracked := by
  obtain ⟨-, hnext, hregs, hsince, hlooks, hsnap⟩ := serve_eq_some hs
  have hmap : s'.snapshots.map Snapshot.acceptance =
      s.snapshots.map Snapshot.acceptance ++ s.news cfg a := by
    rw [hsnap, List.map_append, List.map_map]
    exact congrArg _ (List.map_id _)
  have hm := Server.next_move hnext
  refine ⟨hm.ok h.ok, ?_, ?_⟩
  · rw [hmap]
    rcases hm.engine with ⟨b, rfl, hw⟩ | ⟨hne, hw | ⟨b, herr, hw⟩⟩
    · have hstep := h.chronicled.step h.ok (World.next_step hw)
      rw [World.chronicle_append] at hstep
      exact hstep
    · rw [hw, news_of_ne hne, List.append_nil]
      exact h.chronicled
    · have hstep := h.chronicled.step h.ok (World.next_step hw)
      rw [herr.chronicle] at hstep
      rw [news_of_ne hne, List.append_nil]
      exact hstep
  · intro key req x v ht hv
    rw [hlooks] at hv
    obtain ⟨hv, ha⟩ := looksAfter_some hv
    rw [hregs, hsince]
    exact h.looked (serve_reads hnext ht ha) hv

end Serve

theorem Tracked.step {cfg : Config} {s s' : Device} {a : Act} (h : s.Tracked)
    (hs : next cfg s a = some s') : s'.Tracked := by
  cases a with
  | server a => exact h.serve hs
  | look key =>
      simp only [next] at hs
      split at hs
      · rename_i req x hT hl
        cases hs
        refine ⟨h.ok, h.chronicled, ?_⟩
        intro k req' x' v ht hv
        have ht : s.server.world.tasks k = some (.submitRead req' x') := ht
        rcases Server.setAt_cases hv with ⟨rfl, hlook⟩ | ⟨hne, hlook⟩
        · rw [hT] at ht
          cases ht
          show s.regs req.spec.item = (setAt s.since k [] k).getLast?.getD v
          rw [setAt, if_pos rfl]
          exact Option.some.inj hlook
        · show s.regs req'.spec.item = (setAt s.since key [] k).getLast?.getD v
          rw [setAt, if_neg hne]
          exact h.looked ht hlook
      · cases hs
  | land n =>
      obtain ⟨f, hf, rfl⟩ := Option.map_eq_some_iff.mp hs
      refine ⟨h.ok, h.chronicled, ?_⟩
      intro k req x v ht hv
      have ht : s.server.world.tasks k = some (.submitRead req x) := ht
      dsimp only
      rw [reads, ht]
      by_cases hi : req.spec.item = f.item
      · rw [if_pos hi, if_pos (by simpa using hi), List.getLast?_concat]
        rfl
      · rw [if_neg hi, if_neg (by simpa using hi)]
        exact h.looked ht hv
  | lose n =>
      obtain ⟨f, hf, rfl⟩ := Option.map_eq_some_iff.mp hs
      exact ⟨h.ok, h.chronicled, h.looked⟩

/-! ### What a transaction captures -/

/-- The slot of a `submit` that is about to accept a transaction and supersedes none. -/
def accepting (s : Device) : Act → Option Nat
  | .server (.world (.task key i)) | .server (.world (.crashTask key i _)) =>
      if (s.server.world.accepts (.task key i)).isSome ∧ s.server.world.st.active = none then
        some key
      else none
  | _ => none

/-- When a `submit` accepts a transaction and supersedes none, the last write of its item
    that took effect since it has read the value, if there is one, wrote that value. -/
def Undisturbed (s : Device) (a : Act) : Prop :=
  ∀ key v, s.accepting a = some key → (s.since key).getLast? = some v → s.looks key = some v

/-- A transaction that is accepted starts from the value its `submit` has looked at. -/
theorem Tracked.captured {cfg : Config} {s : Device} (h : s.Tracked) {a : Server.Act}
    (ht : s.truthful a = true) {e : Acceptance} (he : e ∈ s.news cfg a) (ho : e.superseded = none) :
    ∃ key, s.accepting (.server a) = some key ∧ s.looks key = some e.txn.old ∧
      s.regs e.txn.item = (s.since key).getLast?.getD e.txn.old := by
  have hturn : ∀ {key T i}, s.server.world.tasks key = some T → s.answers key i = true →
      e ∈ (s.server.world.turnOf cfg T i).news s.server.world.st.active →
      ((s.server.world.accepts (.task key i)).isSome ∧ s.server.world.st.active = none) ∧
        s.looks key = some e.txn.old ∧
        s.regs e.txn.item = (s.since key).getLast?.getD e.txn.old := by
    intro key T i hT hans he
    obtain ⟨req, x, r, rfl, hr, hv, hitem, hover, hacc⟩ := World.turnOf_news h.ok hT i he
    simp only [answers, hT, hr, Option.any_eq_true] at hans
    obtain ⟨v, hlook, hrep⟩ := hans
    have hold : v = e.txn.old := by
      rw [decide_eq_true_eq, hv, reported] at hrep
      split at hrep
      · cases hrep
      · exact (Option.some.inj hrep).symm
    rw [hold] at hlook
    refine ⟨⟨by rw [hacc]; rfl, hover.symm.trans ho⟩, hlook, ?_⟩
    rw [hitem]
    exact h.looked hT hlook
  cases a with
  | world b =>
      cases b with
      | task key i =>
          rcases hT : s.server.world.tasks key with _ | T
          · simp only [news, chronicle, hT, List.append_nil, List.not_mem_nil] at he
          · simp only [news, chronicle, hT, List.nil_append] at he
            obtain ⟨hacc, hrest⟩ := hturn hT ht he
            exact ⟨key, if_pos hacc, hrest⟩
      | crashTask key i n =>
          rcases hT : s.server.world.tasks key with _ | T
          · simp only [news, chronicle, hT, List.append_nil, List.not_mem_nil] at he
          · simp only [news, chronicle, hT, List.nil_append] at he
            obtain ⟨hacc, hrest⟩ := hturn hT ht (List.mem_of_mem_filter he)
            exact ⟨key, if_pos hacc, hrest⟩
      | _ => cases he
  | _ => cases he

/-- **What is captured is what the device holds, exactly if no write came between.** -/
theorem Tracked.captured_iff {cfg : Config} {s : Device} (h : s.Tracked) {a : Server.Act}
    (ht : s.truthful a = true) {e : Acceptance} (he : e ∈ s.news cfg a) (ho : e.superseded = none) :
    e.txn.old = s.regs e.txn.item ↔ s.Undisturbed (.server a) := by
  obtain ⟨key, hacc, hlook, hreg⟩ := h.captured ht he ho
  rw [hreg]
  constructor
  · intro heq key' v hacc' hv
    rw [hacc] at hacc'
    cases hacc'
    rw [hv] at heq
    rw [hlook, heq]
    rfl
  · intro hun
    rcases hlast : (s.since key).getLast? with _ | v
    · rfl
    · have hv := hun key v hacc hlast
      rw [hlook] at hv
      exact Option.some.inj hv

/-- Every transaction that superseded none captured what the device held. -/
def Fresh (s : Device) : Prop :=
  ∀ c ∈ s.snapshots, c.acceptance.superseded = none → c.acceptance.txn.old = c.held

theorem Fresh.step {cfg : Config} {s s' : Device} {a : Act} (h : s.Fresh) (htr : s.Tracked)
    (hok : s.Undisturbed a) (hs : next cfg s a = some s') : s'.Fresh := by
  cases a with
  | server a =>
      obtain ⟨ht, -, -, -, -, hsnap⟩ := serve_eq_some hs
      intro c hc ho
      rw [hsnap] at hc
      rcases List.mem_append.mp hc with hc | hc
      · exact h c hc ho
      · obtain ⟨e, he, rfl⟩ := List.mem_map.mp hc
        exact (htr.captured_iff ht he ho).mpr hok
  | look key =>
      simp only [next] at hs
      split at hs
      · cases hs
        exact h
      · cases hs
  | land n =>
      obtain ⟨f, -, rfl⟩ := Option.map_eq_some_iff.mp hs
      exact h
  | lose n =>
      obtain ⟨f, -, rfl⟩ := Option.map_eq_some_iff.mp hs
      exact h

theorem Tracked.init (regs : String → String) : Tracked { regs } :=
  ⟨World.Ok.empty, World.Chronicled.empty, fun ht => (nomatch ht)⟩

/-- **A transaction captures what the device holds.**  In every run in which no write of
    another value is the last to take effect between the read of a `submit` and its
    acceptance: a transaction that was accepted and superseded none has as its old value
    and as its rollback target what the register of its item held at that moment, and
    every rollback write of it, started or about to start, carries that value. -/
theorem capture_fresh {cfg : Config} {regs : String → String} {s : Device}
    (h : Exec (next cfg) Undisturbed { regs } s) {c : Snapshot} (hc : c ∈ s.snapshots)
    (ho : c.acceptance.superseded = none) :
    c.acceptance.txn.old = c.held ∧ c.acceptance.txn.rollbackTo = c.held ∧
      ∀ v, .write c.acceptance.txn.uid .rollback v ∈ s.server.world.log ∨
          (∃ k, aheadOf (s.server.world.tasks k) =
            some (c.acceptance.txn.uid, .rollback, v)) →
        v = c.held := by
  obtain ⟨htr, hfresh⟩ := h.invariant (fun s => s.Tracked ∧ s.Fresh)
    (fun hinv hok hs => ⟨hinv.1.step hs, hinv.2.step hinv.1 hok hs⟩)
    ⟨.init regs, fun _ hc => (nomatch hc)⟩
  have hold := hfresh c hc ho
  have hmem := List.mem_map_of_mem (f := Snapshot.acceptance) hc
  have hroll : c.acceptance.txn.rollbackTo = c.held :=
    (htr.chronicled.first hmem ho).trans hold
  refine ⟨hold, hroll, fun v hv => ?_⟩
  obtain ⟨e, he, hu, hval⟩ : ∃ e ∈ s.snapshots.map Snapshot.acceptance,
      e.txn.uid = c.acceptance.txn.uid ∧ e.txn.rollbackTo = v := by
    rcases hv with hv | ⟨k, hk⟩
    · exact htr.chronicled.wrote hv
    · exact htr.chronicled.ahead hk
  rw [← hval, htr.chronicled.uniq he hmem hu]
  exact hroll

/-- Until a `submit` for another network mode has the lock again.  It has read the value. -/
def readingRun : List Act :=
  [.server (.world (.start 0 "boot" 5)),
    .server (.receive 0 "network.set_mode"
      { params := .obj [("mode", .str "Only_5G")], source := some (.str "web") }),
    .server (.handle 0 1 "a" 10), .server (.handle 0 1 "a" 10), .server (.handle 0 1 "a" 10),
    .server (.world (.task 1 { now := 10 })), .look 1]

/-- The rest of the reading comes, and the `submit` is accepted. -/
def acceptRun : List Act :=
  [.server (.world (.task 1
    { now := 30, reading := .ok (Txn.sampleReading "WL_AND_5G" "89860000000000000001") }))]

/-- An old request sets the mode at once. -/
def directRun : List Act :=
  [.server (.receive 1 "network.set_mode" { params := .obj [("mode", .str "Only_LTE")] }),
    .server (.handle 1 2 "" 20), .server (.handle 1 2 "" 20), .server (.handle 1 2 "" 20),
    .server (.handle 1 2 "" 20), .server .pop, .server (.check 3), .server .execute, .land 0,
    .server .finish]

/-- An old request changes the mode while a `submit` is reading; the transaction of the
    `submit` starts from the mode before. -/
theorem capture_stale :
    ∃ s c, Exec (next World.sampleConfig) (fun _ _ => True) { regs := fun _ => "WL_AND_5G" } s ∧
      c ∈ s.snapshots ∧ c.acceptance.superseded = none ∧ c.acceptance.txn.old ≠ c.held := by
  have hrun : (run (next World.sampleConfig) (fun _ _ => true) { regs := fun _ => "WL_AND_5G" }
      (readingRun ++ directRun ++ acceptRun)).any (fun s =>
        s.snapshots.any fun c => c.acceptance.superseded.isNone &&
          decide (c.acceptance.txn.old ≠ c.held)) = true := by
    decide +kernel
  obtain ⟨s, hs, hp⟩ := Exec.exists_of_run (fun _ _ _ => trivial) (.refl _) hrun
  simp only [List.any_eq_true, Bool.and_eq_true, decide_eq_true_eq,
    Option.isNone_iff_eq_none] at hp
  obtain ⟨c, hc, ho, hne⟩ := hp
  exact ⟨s, c, hs, hc, ho, hne⟩

/-- Is the transaction, if one is accepted, accepted undisturbed? -/
def undisturbed (s : Device) (a : Act) : Bool :=
  match s.accepting a with
  | some key =>
      match (s.since key).getLast? with
      | some v => decide (s.looks key = some v)
      | none => true
  | none => true

theorem Undisturbed.of_test {s : Device} {a : Act} (h : undisturbed s a = true) :
    s.Undisturbed a := by
  intro key v hacc hv
  simpa only [undisturbed, hacc, hv, decide_eq_true_eq] using h

/-- A change that is written after it was accepted captures the mode from before. -/
theorem capture_undisturbed :
    ∃ s c, Exec (next World.sampleConfig) Undisturbed { regs := fun _ => "WL_AND_5G" } s ∧
      c ∈ s.snapshots ∧ c.acceptance.superseded = none ∧ s.regs c.acceptance.txn.item = "Only_5G" ∧
      c.held = "WL_AND_5G" ∧ c.acceptance.txn.old = c.held ∧
      c.acceptance.txn.rollbackTo = c.held := by
  have hrun : (run (next World.sampleConfig) undisturbed { regs := fun _ => "WL_AND_5G" }
      (readingRun ++ acceptRun ++ [.server (.world (.task 1 {})), .land 0])).any (fun s =>
        s.snapshots.any fun c => c.acceptance.superseded.isNone &&
          decide (s.regs c.acceptance.txn.item = "Only_5G") &&
          decide (c.held = "WL_AND_5G")) = true := by
    decide +kernel
  obtain ⟨s, hs, hp⟩ := @Exec.exists_of_run _ _ _ Undisturbed _ (fun _ _ h => .of_test h) _ _ _ _
    (.refl _) hrun
  simp only [List.any_eq_true, Bool.and_eq_true, decide_eq_true_eq,
    Option.isNone_iff_eq_none] at hp
  obtain ⟨c, hc, ⟨ho, hreg⟩, hheld⟩ := hp
  obtain ⟨hold, hroll, -⟩ := capture_fresh hs hc ho
  exact ⟨s, c, hs, hc, ho, hreg, hheld, hold, hroll⟩

end Device

end Datad
