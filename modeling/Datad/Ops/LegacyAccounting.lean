/-
  Datad/Ops/LegacyAccounting.lean
  ===============================
  **What became of every queued legacy request.**

  The journal has a line for a request that is queued, for one that a newer one of
  its item replaces and for one that is dropped; one that is executed is recorded by
  `/control`.  Between the queue and the executor a request is in the hands of the
  drain task, which puts it back when the executor is full, unless a newer request of
  the item waits by then.  That one way out of the queue leaves no line.
-/
import Datad.Ops.LegacyQueue
import Datad.Ops.WriteOnce
import Datad.Lib.Ghost

namespace Datad

open Transition KeyedQueue

namespace World

/-- A request goes back to the queue only while it is the newest of its item: no other
    one waits or was queued since. -/
def PutsBackNewest (s : World × Nat) (a : Act) : Prop :=
  ∀ key i r, a = .task key i → s.1.tasks key = some (.drainBack r) →
    (∀ q ∈ s.1.st.legacy, q.item ≠ r.item) ∧
      latest LegacyReq.item r.item (notes (s.1.log.drop s.2)) = some r

/-- The queue is served in every run. -/
theorem Serving.exec {cfg : Config} {ok : World × Nat → Act → Prop} {w : World} {mark : Nat}
    (h : Exec (watched (next cfg) marks) ok ({}, 0) (w, mark)) : ∃ q, w.Serving q := by
  refine (h.invariant (fun s => s.2 ≤ s.1.log.length ∧ ∃ q, s.1.Serving q) ?_
    ⟨Nat.le_refl _, _, .empty⟩).2
  rintro ⟨v, m⟩ ⟨v', m'⟩ a ⟨hm, q, hq⟩ - hs
  obtain ⟨hs, hmark⟩ := watched_eq_some.mp hs
  obtain ⟨hm', q', hq', -⟩ := hq.step hm (next_step hs)
  rw [← hmark] at hm'
  exact ⟨hm', q', hq'⟩

/-- **Every queued legacy request is accounted for.**  In every run in which a request goes
    back to the queue only while it is the newest of its item: the queue holds at most one
    request of an item; at most one task holds a request; a request was queued exactly as
    often as it waits, is held, was executed, replaced or dropped; and what waits of an
    item is the newest that was queued. -/
theorem legacy_requests_accounted {cfg : Config} {w : World} {mark : Nat}
    (h : Exec (watched (next cfg) marks) PutsBackNewest ({}, 0) (w, mark)) :
    (w.st.legacy.map LegacyReq.item).Nodup ∧
    (∀ k k' r r', handOf (w.tasks k) = some r → handOf (w.tasks k') = some r' → k = k') ∧
    (∃ hand : Option LegacyReq, (∀ r, hand = some r ↔ ∃ k, handOf (w.tasks k) = some r) ∧
      ∀ r, (notes (w.log.drop mark)).count (.queued r) =
        w.st.legacy.count r + hand.toList.count r + (notes (w.log.drop mark)).count (.served r) +
          (notes (w.log.drop mark)).count (.replaced r) +
          (notes (w.log.drop mark)).count (.dropped r)) ∧
    ∀ r ∈ w.st.legacy, latest LegacyReq.item r.item (notes (w.log.drop mark)) = some r := by
  obtain ⟨-, q, hq, hacc⟩ := h.invariant
    (fun s => s.2 ≤ s.1.log.length ∧ ∃ q, s.1.Serving q ∧
      KeyedQueue.Accounted LegacyReq.item q (notes (s.1.log.drop s.2))) (by
    rintro ⟨v, m⟩ ⟨v', m'⟩ a ⟨hm, q, hq, hacc⟩ hok hs
    obtain ⟨hs, hmark⟩ := watched_eq_some.mp hs
    obtain ⟨hm', q', hq', hserved⟩ := hq.step hm (next_step hs)
    rw [← hmark] at hm'
    refine ⟨hm', q', hq', ?_⟩
    rw [hmark]
    cases hserved with
    | step hstep hn hput =>
      rw [hn]
      refine hacc.step hstep ?_
      intro r hr hnil hnone
      obtain ⟨key, i, ha, hT⟩ := hput r hr hnil hnone
      rw [← hq.waiting]
      exact hok key i r ha hT
    | fresh hn =>
      rw [hn]
      exact .empty) ⟨Nat.le_refl _, _, .empty, .empty⟩
  have hwait : w.st.legacy = q.waiting := hq.waiting
  rw [hwait]
  refine ⟨hacc.distinct, ?_, ⟨q.hand, hq.hand_iff, hacc.balanced⟩, hacc.latest⟩
  intro k k' r r' hk hk'
  exact hq.one k k' (drainsOf_of_hand hk) (drainsOf_of_hand hk')

/-- A request for the network mode, as an old client sends it. -/
def legacyRequest (mode : String) (now : Nat) : LegacyReq :=
  { item := NETWORK_MODE
    action := "network.set_mode"
    params := .obj [("mode", .str mode)]
    atMs := now }

def enqueue (key : Nat) (r : LegacyReq) : Act :=
  .call key (.enqueueLegacy r.item r.action r.params r.atMs)

/-- The executor is full.  A request is queued and taken by the drain task; a newer one
    of the item is queued before the drain task puts the first one back. -/
def discardingRun : List Act :=
  [.start 0 "boot" 5, enqueue 1 (legacyRequest "Only_LTE" 10), .task 1 {}, .task 1 {},
    .task 1 { ran := false }, enqueue 2 (legacyRequest "Only_5G" 20), .task 1 {}]

/-- The first request has vanished: it was queued, and it neither waits nor is held, nor
    was it executed, replaced or dropped. -/
theorem discarded_request_unaccounted :
    ∃ w mark, Exec (watched (next sampleConfig) marks) (fun _ _ => True) ({}, 0) (w, mark) ∧
      (∀ k, handOf (w.tasks k) ≠ some (legacyRequest "Only_LTE" 10)) ∧
      (notes (w.log.drop mark)).count (.queued (legacyRequest "Only_LTE" 10)) ≠
        w.st.legacy.count (legacyRequest "Only_LTE" 10) +
          (notes (w.log.drop mark)).count (.served (legacyRequest "Only_LTE" 10)) +
          (notes (w.log.drop mark)).count (.replaced (legacyRequest "Only_LTE" 10)) +
          (notes (w.log.drop mark)).count (.dropped (legacyRequest "Only_LTE" 10)) := by
  have hrun : (run (watched (next sampleConfig) marks) (fun _ _ => true) ({}, 0)
      discardingRun).any (fun s =>
        drainsOf (s.1.tasks 1) && (handOf (s.1.tasks 1)).isNone &&
        decide ((notes (s.1.log.drop s.2)).count (.queued (legacyRequest "Only_LTE" 10)) ≠
          s.1.st.legacy.count (legacyRequest "Only_LTE" 10) +
            (notes (s.1.log.drop s.2)).count (.served (legacyRequest "Only_LTE" 10)) +
            (notes (s.1.log.drop s.2)).count (.replaced (legacyRequest "Only_LTE" 10)) +
            (notes (s.1.log.drop s.2)).count (.dropped (legacyRequest "Only_LTE" 10)))) = true := by
    decide +kernel
  obtain ⟨⟨w, mark⟩, hw, hp⟩ := Exec.exists_of_run (fun _ _ _ => trivial) (.refl _) hrun
  simp only [Bool.and_eq_true, decide_eq_true_eq] at hp
  obtain ⟨⟨hdrains, hnone⟩, hcount⟩ := hp
  refine ⟨w, mark, hw, ?_, hcount⟩
  intro k hk
  obtain ⟨q, hq⟩ := Serving.exec hw
  have hkey := hq.one k 1 (drainsOf_of_hand hk) hdrains
  rw [hkey] at hk
  rw [hk] at hnone
  cases hnone

/-- Does the action put back a request that is no longer the newest? -/
def putsBackNewest (s : World × Nat) : Act → Bool
  | .task key _ =>
      match s.1.tasks key with
      | some (.drainBack r) =>
          !(s.1.st.legacy.any fun q => decide (q.item = r.item)) &&
            decide (latest LegacyReq.item r.item (notes (s.1.log.drop s.2)) = some r)
      | _ => true
  | _ => true

theorem PutsBackNewest.of_test {s : World × Nat} {a : Act} (h : putsBackNewest s a = true) :
    PutsBackNewest s a := by
  rintro key i r rfl hT
  simp only [putsBackNewest, hT, Bool.and_eq_true, Bool.not_eq_true', decide_eq_true_eq] at h
  refine ⟨?_, h.2⟩
  intro q hq heq
  have := List.any_eq_false.mp h.1 q hq
  exact this (decide_eq_true heq)

/-- A request is put back once and executed at the second attempt. -/
theorem retried_request_accounted :
    ∃ w mark, Exec (watched (next sampleConfig) marks) PutsBackNewest ({}, 0) (w, mark) ∧
      .served (legacyRequest "Only_LTE" 10) ∈ notes (w.log.drop mark) ∧
      (w.st.legacy.map LegacyReq.item).Nodup := by
  have hrun : (run (watched (next sampleConfig) marks) putsBackNewest ({}, 0)
      [.start 0 "boot" 5, enqueue 1 (legacyRequest "Only_LTE" 10), .task 1 {}, .task 1 {},
        .task 1 { ran := false }, .task 1 {}, .task 1 {}, .task 1 { ran := true }]).any (fun s =>
          decide (.served (legacyRequest "Only_LTE" 10) ∈ notes (s.1.log.drop s.2))) = true := by
    decide +kernel
  obtain ⟨⟨w, mark⟩, hw, hp⟩ := @Exec.exists_of_run _ _ _ PutsBackNewest _
    (fun _ _ h => .of_test h) _ _ _ _ (.refl _) hrun
  exact ⟨w, mark, hw, of_decide_eq_true hp, (legacy_requests_accounted hw).1⟩

end World

end Datad
