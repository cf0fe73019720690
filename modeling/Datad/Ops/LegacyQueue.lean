/-
  Datad/Ops/LegacyQueue.lean
  ==========================
  **The queue of the legacy requests**, as the rest of the engine sees it.

  A request without a source that finds the lock taken waits in `St.legacy`; the
  drain task takes the requests out one by one when the lock is free.  Seen from the
  queue, the engine is a keyed queue with one worker: most sections leave it alone,
  and the others are its operations (`Task.turn_serves`, `Call.turn_serves`).  The
  `draining` flag makes sure that there is one worker (`World.Serving`).
-/
import Datad.Ops.Turns
import Datad.Lib.KeyedQueue

namespace Datad

open Transition KeyedQueue

/-! ### What the journal says of the queue -/

def Event.note : Event → Option (Note LegacyReq)
  | .fx (.append (.legacy r result _)) =>
      if result = "queued" then some (.queued r)
      else if result = "replaced" then some (.replaced r)
      else if result = "dropped" then some (.dropped r)
      else none
  | .legacyRun r => some (.served r)
  | _ => none

def notes (l : List Event) : List (Note LegacyReq) := l.filterMap Event.note

@[simp] theorem notes_nil : notes [] = [] := rfl

@[simp] theorem notes_append (l l' : List Event) : notes (l ++ l') = notes l ++ notes l' :=
  List.filterMap_append

theorem notes_replaced (l : List LegacyReq) :
    notes ((l.map fun r => Effect.append (.legacy r "replaced" none)).map .fx) =
      l.map .replaced := by
  induction l with
  | nil => rfl
  | cons r l ih =>
    show Note.replaced r :: notes _ = _
    rw [ih]
    rfl

theorem notes_dropped (l : List LegacyReq) (why : String) :
    notes ((l.map fun r => Effect.append (.legacy r "dropped" (some why))).map .fx) =
      l.map .dropped := by
  induction l with
  | nil => rfl
  | cons r l ih =>
    show Note.dropped r :: notes _ = _
    rw [ih]
    rfl

/-! ### Sections that leave the queue alone -/

/-- The section neither touches the queue nor writes about it. -/
def Aside (st st' : St) (fx : List Effect) : Prop :=
  st'.legacy = st.legacy ∧ notes (fx.map .fx) = []

theorem Aside.refl {fx : List Effect} (st : St) (hfx : notes (fx.map .fx) = []) : Aside st st fx :=
  ⟨rfl, hfx⟩

theorem Aside.trans {st st₁ st' : St} {fx fx' : List Effect} (h : Aside st st₁ fx)
    (h' : Aside st₁ st' fx') : Aside st st' (fx ++ fx') := by
  refine ⟨h'.1.trans h.1, ?_⟩
  rw [List.map_append, notes_append, h.2, h'.2]
  rfl

theorem Aside.serves {st st' : St} {fx : List Effect} (h : Aside st st' fx)
    (hand : Option LegacyReq) :
    KeyedQueue.Step LegacyReq.item ⟨st.legacy, hand⟩ (notes (fx.map .fx)) ⟨st'.legacy, hand⟩ := by
  rw [h.1, h.2]
  exact .idle _

namespace St

theorem persist_aside (st : St) (force : Bool) :
    Aside st (st.persist force).1 (st.persist force).2 := by
  rw [persist]
  split
  · exact .refl st rfl
  · split
    · exact .refl st rfl
    · split
      · exact ⟨rfl, rfl⟩
      · exact .refl st rfl

theorem retire_aside (st : St) : Aside st st.retire.1 st.retire.2 := by
  rw [retire]
  split
  · exact .refl st rfl
  · exact ⟨rfl, rfl⟩

theorem finish_aside (st : St) : Aside st st.finish.1 st.finish.2 := by
  rw [finish]
  split
  · split
    · exact st.retire_aside.trans ⟨rfl, rfl⟩
    · exact .refl st rfl
  · exact .refl st rfl

theorem supersede_aside (st : St) : Aside st st.supersede.1 st.supersede.2 := by
  rw [supersede]
  split
  · exact (st.setActive _).retire_aside
  · exact .refl st rfl

end St

section

variable {st st' : St} {fx : List Effect}

theorem Deed.aside (h : Deed st st' fx) : Aside st st' fx := by
  cases h with
  | idle => exact .refl st rfl
  | persist => exact st.persist_aside true
  | save t => exact (st.setActive t).persist_aside true
  | close t => exact (st.setActive t).finish_aside
  | interrupt t hf source opId item what => exact (st.setActive t).finish_aside.trans ⟨rfl, rfl⟩
  | beat t force => exact ((st.setActive t).persist_aside force).trans (St.finish_aside _)
  | accept t =>
    have h := (st.supersede.1.setActive t).persist_aside true
    exact st.supersede_aside.trans ⟨h.1, h.2⟩
  | publish => exact .refl st rfl
  | ack => exact ⟨rfl, rfl⟩
  | noticeAck => exact ⟨rfl, rfl⟩

theorem Tends.aside (h : Tends st st' fx) : Aside st st' fx := by
  obtain ⟨session, lines, rfl, rfl, hlines⟩ := h
  refine ⟨rfl, ?_⟩
  rw [List.map_map]
  apply List.filterMap_eq_nil_iff.mpr
  intro e he
  obtain ⟨line, hmem, rfl⟩ := List.mem_map.mp he
  obtain ⟨s, result, reason, age, rfl⟩ := hlines line hmem
  rfl

end

/-- A process starts with an empty queue. -/
theorem Disk.start_aside (d : Disk) (bootId : String) (now : Nat) :
    (d.start bootId now).1.legacy = [] ∧ notes ((d.start bootId now).2.map .fx) = [] := by
  have htake : notes ((if d.takeover then [Effect.takeTakeover] else []).map .fx) = [] := by
    cases d.takeover <;> rfl
  rw [start]
  split
  · exact ⟨rfl, htake⟩
  · rename_i p hp
    dsimp only
    generalize (if d.takeover = true then p.cancel .takeover else (p.resume bootId now).1) = t
    have h := ((d.boot.setActive t).persist_aside true).trans (St.finish_aside _)
    refine ⟨h.1, ?_⟩
    rw [List.append_assoc, List.map_append, notes_append, htake, h.2]
    rfl

/-! ### Sections that work on the queue -/

namespace St

theorem dropLegacy_serves (st : St) (why : String) (h : Option LegacyReq) :
    KeyedQueue.Step LegacyReq.item ⟨st.legacy, h⟩ (notes ((st.dropLegacy why).2.map .fx))
      ⟨(st.dropLegacy why).1.legacy, h⟩ := by
  rw [dropLegacy]
  dsimp only
  rw [notes_dropped]
  exact .flush ..

theorem enqueueLegacy_serves (st : St) (item action : String) (params : Value) (now : Nat)
    (h : Option LegacyReq) :
    KeyedQueue.Step LegacyReq.item ⟨st.legacy, h⟩
      (notes ((st.enqueueLegacy item action params now).2.map .fx))
      ⟨(st.enqueueLegacy item action params now).1.legacy, h⟩ := by
  have hstep := @KeyedQueue.Step.enqueue _ _ _ LegacyReq.item st.legacy h
    { item, action, params, atMs := now }
  rw [← notes_replaced] at hstep
  rw [enqueueLegacy]
  rw [List.map_append, notes_append]
  exact hstep

theorem popLegacy_serves (cfg : Config) (st : St) (now : Nat) :
    KeyedQueue.Step LegacyReq.item ⟨st.legacy, none⟩
      (notes ((st.popLegacy cfg now).2.1.map .fx))
      ⟨(st.popLegacy cfg now).1.legacy, (st.popLegacy cfg now).2.2⟩ := by
  rw [popLegacy]
  split
  · exact .idle _
  · dsimp only
    split
    · rename_i hkept
      -- nothing fresh is left, so everything was dropped
      have hall : (st.legacy.filter fun r => !decide (now - r.atMs < cfg.legacyTtlMs)) =
          st.legacy := by
        rw [List.filter_eq_self]
        intro r hr
        rw [Bool.not_eq_true']
        exact Bool.eq_false_iff.mpr (List.filter_eq_nil_iff.mp hkept r hr)
      rw [hall, notes_dropped]
      exact .flush ..
    · rename_i r rest hkept
      dsimp only
      rw [notes_dropped]
      exact .take _ hkept

theorem putBackLegacy_serves (st : St) (r : LegacyReq) :
    KeyedQueue.Step LegacyReq.item ⟨st.legacy, some r⟩ [] ⟨(st.putBackLegacy r).legacy, none⟩ := by
  have hlegacy : (st.putBackLegacy r).legacy =
      if st.legacy.any fun q => decide (q.item = r.item) then st.legacy else r :: st.legacy := by
    rw [putBackLegacy]
    split <;> rfl
  rw [hlegacy]
  exact .putBack _ r

theorem preempt_serves (st : St) (h : Option LegacyReq) :
    KeyedQueue.Step LegacyReq.item ⟨st.legacy, h⟩ (notes (st.preempt.2.map .fx))
      ⟨st.preempt.1.legacy, h⟩ := by
  obtain ⟨hlegacy, hnotes⟩ := (st.cancelActive_deed .preempted).aside
  have hdrop := (st.cancelActive .preempted).1.dropLegacy_serves "a safety write" h
  rw [hlegacy] at hdrop
  rw [preempt]
  rw [List.map_append, notes_append, hnotes]
  exact hdrop

theorem legacyGate_serves (st : St) (item : Option String) (safety : Bool)
    (h : Option LegacyReq) :
    KeyedQueue.Step LegacyReq.item ⟨st.legacy, h⟩
      (notes ((st.legacyGate item safety).2.1.map .fx))
      ⟨(st.legacyGate item safety).1.legacy, h⟩ := by
  cases safety with
  | true => exact st.preempt_serves h
  | false => exact (st.legacyGate_deed item).aside.serves h

end St

/-! ### Turns -/

/-- The request the drain task holds. -/
@[simp] def Task.hand : Task → Option LegacyReq
  | .drainRun r | .drainBack r => some r
  | _ => none

/-- The drain task, while it has the flag. -/
def Task.drains : Task → Bool
  | .drain | .drainRun _ | .drainBack _ | .drainLower => true
  | _ => false

theorem Task.turn_aside (cfg : Config) (bootId : String) (uid : Nat) (st : St) (draining : Bool)
    (i : Input) {T : Task} (hT : T.drains = false) :
    Aside st (T.turn cfg bootId uid st draining i).st (T.turn cfg bootId uid st draining i).fx ∧
      notes (T.turn cfg bootId uid st draining i).events = [] := by
  cases T with
  | submit req opId =>
    simp only [Task.turn]
    split <;> exact ⟨.refl st rfl, rfl⟩
  | submitRead req opId =>
    simp only [Task.turn]
    split
    · exact ⟨.refl st rfl, rfl⟩
    · split
      · exact ⟨.refl st rfl, rfl⟩
      · exact ⟨(St.accept_deed ..).aside, rfl⟩
  | submitWait req opId u =>
    have howner : ∀ reached : Bool, notes ((if reached then
        [Effect.setOwner req.spec.item req.source req.undo req.target opId] else []).map .fx) =
          [] := by
      intro reached; cases reached <;> rfl
    exact ⟨.refl st (howner _), rfl⟩
  | submitBack req opId u result => exact ⟨(St.wrote_deed ..).aside, rfl⟩
  | drive opId =>
    simp only [Task.turn]
    split
    · exact ⟨.refl st rfl, rfl⟩
    · split <;> exact ⟨.refl st rfl, rfl⟩
  | rollback opId u value generation spec =>
    simp only [Task.turn]
    split
    · exact ⟨.refl st rfl, rfl⟩
    · exact ⟨st.persist_aside true, rfl⟩
  | rollbackRead opId u value generation spec =>
    have h := (@St.rollbackCheck_deed opId st i.reading).aside
    simp only [Task.turn]
    split <;> exact ⟨h, rfl⟩
  | rollbackWait opId u => exact ⟨(St.rollbackSent_deed ..).aside, rfl⟩
  | rollbackSkip opId u => exact ⟨(St.rollbackSent_deed ..).aside, rfl⟩
  | read opId generation spec =>
    simp only [Task.turn]
    split
    · split
      · exact ⟨.refl st rfl, rfl⟩
      · split <;> exact ⟨.refl st rfl, rfl⟩
    · exact ⟨.refl st rfl, rfl⟩
  | feed opId generation reading =>
    simp only [Task.turn]
    split
    · exact ⟨.refl st rfl, rfl⟩
    · exact ⟨(St.feed_deed ..).aside, rfl⟩
  | timer id => exact ⟨(st.reapSession_tends i.now).aside, rfl⟩
  | drain | drainRun | drainBack | drainLower => cases hT
  | submitWrite | rollbackWrite | sleep | probe | kick | drainMore | drainRetry =>
    exact ⟨.refl st rfl, rfl⟩

/-- **A turn of the drain task is a step of the queue's worker.** -/
theorem Task.turn_serves (cfg : Config) (bootId : String) (uid : Nat) (st : St) (draining : Bool)
    (i : Input) {T : Task} (hT : T.drains = true) :
    KeyedQueue.Step LegacyReq.item ⟨st.legacy, T.hand⟩
      (notes ((T.turn cfg bootId uid st draining i).fx.map .fx ++
        (T.turn cfg bootId uid st draining i).events))
      ⟨(T.turn cfg bootId uid st draining i).st.legacy,
        (T.turn cfg bootId uid st draining i).task.bind Task.hand⟩ := by
  cases T with
  | drain =>
    have h := st.popLegacy_serves cfg i.now
    simp only [Task.turn]
    generalize hp : st.popLegacy cfg i.now = p at h ⊢
    obtain ⟨st', fx, r⟩ := p
    rcases r with _ | r
    · simpa using h
    · simpa using h
  | drainRun r =>
    simp only [Task.turn]
    rcases i.ran with _ | _
    · exact .idle _
    · exact .serve _ r
  | drainBack r => exact st.putBackLegacy_serves r
  | drainLower => exact .idle _
  | _ => cases hT

/-- Only a drain task that found the executor full lets go of a request unserved. -/
theorem Task.turn_putBack (cfg : Config) (bootId : String) (uid : Nat) (st : St)
    (draining : Bool) (i : Input) {T : Task} {r : LegacyReq} (hr : T.hand = some r)
    (hn : notes ((T.turn cfg bootId uid st draining i).fx.map .fx ++
      (T.turn cfg bootId uid st draining i).events) = [])
    (hh : (T.turn cfg bootId uid st draining i).task.bind Task.hand = none) :
    T = .drainBack r := by
  cases T with
  | drainRun r' =>
    simp only [Task.turn] at hn hh
    split at hn
    · cases hn
    · rename_i hran
      rw [if_neg hran] at hh
      cases hh
  | drainBack r' =>
    cases hr
    rfl
  | _ => cases hr

/-- **A call is a step of the queue, whatever the drain task holds.** -/
theorem Call.turn_serves (st : St) (draining : Bool) (c : Call) (h : Option LegacyReq) :
    KeyedQueue.Step LegacyReq.item ⟨st.legacy, h⟩
      (notes ((c.turn st draining).fx.map .fx ++ (c.turn st draining).events))
      ⟨(c.turn st draining).st.legacy, h⟩ := by
  rw [Call.turn_events, List.append_nil]
  cases c with
  | revert opId => exact st.revert_deed.aside.serves h
  | keep opId => exact st.keep_deed.aside.serves h
  | preempt => exact st.preempt_serves h
  | otherWrite source => exact (st.otherWrite_deed source).aside.serves h
  | interrupt source what => exact (st.interrupt_deed source what).aside.serves h
  | legacyGate item safety => exact st.legacyGate_serves item safety h
  | enqueueLegacy item action params now => exact st.enqueueLegacy_serves item action params now h
  | clearLegacy why => exact st.dropLegacy_serves why h
  | sessionOpen source id now => exact (st.sessionOpen_tends source id now).aside.serves h
  | sessionRenew id now => exact (st.sessionRenew_tends id now).aside.serves h
  | sessionClose id result now => exact (st.sessionClose_tends id result now).aside.serves h
  | sessionGate action session now => exact (st.sessionGate_tends action session now).aside.serves h
  | ack opId source => exact (st.ack_deed source).aside.serves h
  | noticeAck source => exact (st.noticeAck_deed source).aside.serves h
  | publishNow => exact .idle _

/-! ### The flag -/

/-- A turn of the drain task keeps the flag up until it lowers it; a waker raises it
    only if it is down, and becomes the drain task. -/
theorem Task.turn_flag (cfg : Config) (bootId : String) (uid : Nat) (st : St) (draining : Bool)
    (i : Input) (T : Task) :
    ((T.turn cfg bootId uid st draining i).task.any Task.drains = T.drains ∧
        (T.turn cfg bootId uid st draining i).draining = draining) ∨
      (T.drains = true ∧ (T.turn cfg bootId uid st draining i).task.any Task.drains = false ∧
        (T.turn cfg bootId uid st draining i).draining = false) ∨
      (T.drains = false ∧ draining = false ∧
        (T.turn cfg bootId uid st draining i).task = some .drain ∧
        (T.turn cfg bootId uid st draining i).draining = true) := by
  cases T with
  | kick =>
    rcases draining with _ | _
    · exact .inr (.inr ⟨rfl, rfl, rfl, rfl⟩)
    · exact .inl ⟨rfl, rfl⟩
  | drainRetry =>
    rcases draining with _ | _
    · exact .inr (.inr ⟨rfl, rfl, rfl, rfl⟩)
    · exact .inl ⟨rfl, rfl⟩
  | drainLower => exact .inr (.inl ⟨rfl, rfl, rfl⟩)
  | submit req opId =>
    left
    simp only [Task.turn]
    split <;> exact ⟨rfl, rfl⟩
  | submitRead req opId =>
    left
    simp only [Task.turn]
    split
    · exact ⟨rfl, rfl⟩
    · split <;> exact ⟨rfl, rfl⟩
  | submitBack req opId u result =>
    refine .inl ⟨?_, rfl⟩
    simp only [Task.turn]
    split <;> rfl
  | drive opId =>
    left
    simp only [Task.turn]
    split
    · exact ⟨rfl, rfl⟩
    · split <;> exact ⟨rfl, rfl⟩
  | rollback opId u value generation spec =>
    left
    simp only [Task.turn]
    split
    · exact ⟨rfl, rfl⟩
    · cases spec <;> exact ⟨rfl, rfl⟩
  | rollbackRead opId u value generation spec =>
    left
    simp only [Task.turn]
    split <;> exact ⟨rfl, rfl⟩
  | sleep opId generation spec =>
    refine .inl ⟨?_, rfl⟩
    simp only [Task.turn]
    split <;> rfl
  | read opId generation spec =>
    left
    simp only [Task.turn]
    split
    · split
      · exact ⟨rfl, rfl⟩
      · split <;> exact ⟨rfl, rfl⟩
    · exact ⟨rfl, rfl⟩
  | feed opId generation reading =>
    left
    simp only [Task.turn]
    split <;> exact ⟨rfl, rfl⟩
  | drain =>
    left
    simp only [Task.turn]
    split <;> exact ⟨rfl, rfl⟩
  | drainRun r =>
    left
    simp only [Task.turn]
    split <;> exact ⟨rfl, rfl⟩
  | drainMore =>
    refine .inl ⟨?_, rfl⟩
    simp only [Task.turn]
    split <;> rfl
  | timer id =>
    refine .inl ⟨?_, rfl⟩
    simp only [Task.turn, Option.any_some]
    split
    · split <;> rfl
    · rfl
  | submitWrite | submitWait | rollbackWrite | rollbackWait | rollbackSkip | probe | drainBack =>
    exact .inl ⟨rfl, rfl⟩

theorem Call.turn_flag (st : St) (draining : Bool) (c : Call) :
    (c.turn st draining).task.any Task.drains = false ∧
      (c.turn st draining).draining = draining := by
  cases c with
  | keep opId =>
    refine ⟨?_, rfl⟩
    simp only [Call.turn]
    split <;> rfl
  | otherWrite source =>
    refine ⟨?_, rfl⟩
    simp only [Call.turn]
    split <;> rfl
  | interrupt source what =>
    refine ⟨?_, rfl⟩
    simp only [Call.turn]
    split <;> rfl
  | sessionOpen source id now =>
    refine ⟨?_, rfl⟩
    simp only [Call.turn]
    split <;> rfl
  | sessionClose id result now =>
    refine ⟨?_, rfl⟩
    simp only [Call.turn]
    split <;> rfl
  | _ => exact ⟨rfl, rfl⟩

/-! ### The system -/

namespace World

def handOf (T : Option Task) : Option LegacyReq := T.bind Task.hand

def drainsOf (T : Option Task) : Bool := T.any Task.drains

theorem drainsOf_of_hand {T : Option Task} {r : LegacyReq} (h : handOf T = some r) :
    drainsOf T = true := by
  rcases T with _ | T
  · cases h
  · cases T with
    | drainRun r' => rfl
    | drainBack r' => rfl
    | _ => cases h

/-- The queue as the system has it: what waits, what the drain task holds, and the flag
    that keeps a second drain task away. -/
structure Serving (w : World) (q : Queue LegacyReq) : Prop where
  waiting : w.st.legacy = q.waiting
  hand : ∀ k, drainsOf (w.tasks k) = true → handOf (w.tasks k) = q.hand
  idle : (∀ k, drainsOf (w.tasks k) = false) → q.hand = none
  one : ∀ k k', drainsOf (w.tasks k) = true → drainsOf (w.tasks k') = true → k = k'
  flag : w.draining = true ↔ ∃ k, drainsOf (w.tasks k) = true

theorem Serving.empty : Serving {} ⟨[], none⟩ := by
  refine ⟨rfl, fun k h => (nomatch h), fun _ => rfl, fun k _ h => (nomatch h), ?_⟩
  exact ⟨fun h => (nomatch h), fun ⟨_, h⟩ => (nomatch h)⟩

/-- What the drain task holds, the system holds for it. -/
theorem Serving.hand_iff {w : World} {q : Queue LegacyReq} (h : w.Serving q) (r : LegacyReq) :
    q.hand = some r ↔ ∃ k, handOf (w.tasks k) = some r := by
  constructor
  · intro hr
    by_cases hno : ∀ k, drainsOf (w.tasks k) = false
    · rw [h.idle hno] at hr; cases hr
    · obtain ⟨k, hk⟩ := Classical.not_forall.mp hno
      rw [Bool.not_eq_false] at hk
      exact ⟨k, (h.hand k hk).trans hr⟩
  · rintro ⟨k, hk⟩
    rw [← h.hand k (drainsOf_of_hand hk)]
    exact hk

section Steps

variable {cfg : Config} {w w' : World} {q : Queue LegacyReq} {a : Act} {mark : Nat}

/-- A turn that does not make or end a drain task leaves the hand as it is. -/
theorem Serving.beside (h : w.Serving q) {key : Nat} {turn : Turn} {l : List LegacyReq}
    (hk : drainsOf (w.tasks key) = false) (hk' : drainsOf turn.task = false)
    (hf : turn.draining = w.draining) (hl : turn.st.legacy = l) :
    (w.take key turn).Serving ⟨l, q.hand⟩ := by
  have hsame : ∀ k, drainsOf ((w.take key turn).tasks k) = drainsOf (w.tasks k) := by
    intro k
    by_cases hkey : k = key
    · rw [hkey, hk, Goes.at_key]
      exact hk'
    · rw [Goes.at_other hkey]
  refine ⟨hl, ?_, ?_, ?_, ?_⟩
  · intro k hd
    rw [hsame] at hd
    have hkey : k ≠ key := fun heq => by rw [heq, hk] at hd; cases hd
    rw [Goes.at_other hkey]
    exact h.hand k hd
  · intro hno
    exact h.idle fun k => (hsame k).symm.trans (hno k)
  · intro k k' hd hd'
    rw [hsame] at hd hd'
    exact h.one k k' hd hd'
  · show turn.draining = true ↔ _
    rw [hf, h.flag]
    simp only [hsame]

/-- A turn of the drain task, which may end with it. -/
theorem Serving.worker (h : w.Serving q) {key : Nat} {turn : Turn}
    (hk : drainsOf (w.tasks key) = true) (hf : turn.draining = drainsOf turn.task) :
    (w.take key turn).Serving ⟨turn.st.legacy, handOf turn.task⟩ := by
  have honly : ∀ k, drainsOf ((w.take key turn).tasks k) = true →
      k = key ∧ drainsOf turn.task = true := by
    intro k hd
    by_cases hkey : k = key
    · rw [hkey, Goes.at_key] at hd
      exact ⟨hkey, hd⟩
    · rw [Goes.at_other hkey] at hd
      exact absurd (h.one k key hd hk) hkey
  refine ⟨rfl, ?_, ?_, ?_, ?_⟩
  · intro k hd
    rw [(honly k hd).1, Goes.at_key]
  · intro hno
    have hkey := hno key
    rw [Goes.at_key] at hkey
    rcases hh : handOf turn.task with _ | r
    · rfl
    · rw [drainsOf_of_hand hh] at hkey
      cases hkey
  · intro k k' hd hd'
    rw [(honly k hd).1, (honly k' hd').1]
  · show turn.draining = true ↔ _
    rw [hf]
    constructor
    · intro hd
      exact ⟨key, by rw [Goes.at_key]; exact hd⟩
    · rintro ⟨k, hd⟩
      exact (honly k hd).2

/-- A waker finds the flag down and becomes the drain task. -/
theorem Serving.raise (h : w.Serving q) {key : Nat} {turn : Turn}
    (hdown : w.draining = false) (hk' : drainsOf turn.task = true)
    (hhand : handOf turn.task = none) (hf : turn.draining = true)
    (hl : turn.st.legacy = w.st.legacy) :
    (w.take key turn).Serving q := by
  have hno : ∀ k, drainsOf (w.tasks k) = false := by
    intro k
    rcases hd : drainsOf (w.tasks k) with _ | _
    · rfl
    · rw [h.flag.mpr ⟨k, hd⟩] at hdown
      cases hdown
  have honly : ∀ k, drainsOf ((w.take key turn).tasks k) = true → k = key := by
    intro k hd
    by_contra hkey
    rw [Goes.at_other hkey, hno] at hd
    cases hd
  refine ⟨hl.trans h.waiting, ?_, ?_, ?_, ?_⟩
  · intro k hd
    rw [honly k hd, Goes.at_key, hhand, h.idle hno]
  · intro hno'
    exact h.idle hno
  · intro k k' hd hd'
    rw [honly k hd, honly k' hd']
  · exact ⟨fun _ => ⟨key, by rw [Goes.at_key]; exact hk'⟩, fun _ => hf⟩

/-- Nothing is left of the queue when the process dies. -/
theorem Serving.gone (hl : w.st.legacy = []) (hf : w.draining = false)
    (hk : ∀ k, drainsOf (w.tasks k) = false) : w.Serving ⟨[], none⟩ := by
  refine ⟨hl, ?_, fun _ => rfl, ?_, ?_⟩
  · intro k hd; rw [hk] at hd; cases hd
  · intro k k' hd; rw [hk] at hd; cases hd
  · rw [hf]
    refine ⟨fun h => (nomatch h), ?_⟩
    rintro ⟨k, hd⟩
    rw [hk] at hd
    cases hd

/-- What a step does to the queue and to the notes since the process started. -/
inductive Served (w : World) (a : Act) (w' : World) (mark : Nat) (q : Queue LegacyReq) :
    Queue LegacyReq → Prop where
  | step {q' : Queue LegacyReq} {new : List (Note LegacyReq)}
      (hs : KeyedQueue.Step LegacyReq.item q new q')
      (hn : notes (w'.log.drop (marks w a w' mark)) = notes (w.log.drop mark) ++ new)
      (hput : ∀ r, q.hand = some r → new = [] → q'.hand = none →
        ∃ key i, a = .task key i ∧ w.tasks key = some (.drainBack r)) :
      Served w a w' mark q q'
  | fresh (hn : notes (w'.log.drop (marks w a w' mark)) = []) :
      Served w a w' mark q ⟨[], none⟩

theorem Served.taken {key : Nat} {turn : Turn} {q' : Queue LegacyReq}
    (hmark : mark ≤ w.log.length) (hm : marks w a (w.take key turn) mark = mark)
    (hs : KeyedQueue.Step LegacyReq.item q (notes (turn.fx.map .fx ++ turn.events)) q')
    (hput : ∀ r, q.hand = some r → notes (turn.fx.map .fx ++ turn.events) = [] →
      q'.hand = none → ∃ key i, a = .task key i ∧ w.tasks key = some (.drainBack r)) :
    Served w a (w.take key turn) mark q q' := by
  refine .step hs ?_ hput
  rw [hm]
  show notes ((w.log ++ _).drop mark) = _
  rw [List.drop_append_of_le_length hmark, notes_append]

/-- A process that dies takes the queue with it, and the notes begin anew. -/
theorem Serving.died {fx : List Effect} {n : Nat}
    (hm : marks w a (w.die fx n) mark = (w.die fx n).log.length) :
    marks w a (w.die fx n) mark ≤ (w.die fx n).log.length ∧
      ∃ q', (w.die fx n).Serving q' ∧ Served w a (w.die fx n) mark q q' := by
  refine ⟨Nat.le_of_eq hm, ⟨[], none⟩, .gone rfl rfl fun _ => rfl, .fresh ?_⟩
  rw [hm, List.drop_length]
  rfl

/-- **Every step is a step of the queue, or a new life of the process.** -/
theorem Serving.step (h : w.Serving q) (hmark : mark ≤ w.log.length) (hs : Step cfg w a w') :
    marks w a w' mark ≤ w'.log.length ∧ ∃ q', w'.Serving q' ∧ Served w a w' mark q q' := by
  obtain ⟨l, hand⟩ := q
  have hl : w.st.legacy = l := h.waiting
  subst hl
  cases hs with
  | @submit key req fresh hu hk =>
    rw [← take_idle]
    refine ⟨Nat.le_trans hmark (by simp [World.take]), _,
      h.beside (l := w.st.legacy) (by rw [hk]; rfl) rfl rfl rfl, ?_⟩
    exact .taken hmark rfl (.idle _) fun r hr _ hn => absurd (hr.symm.trans hn) (by simp)
  | @task key i T ht =>
    refine ⟨Nat.le_trans hmark (by simp [World.take]), ?_⟩
    have hdrains : drainsOf (w.tasks key) = T.drains := by rw [ht]; rfl
    have hflag := T.turn_flag cfg w.bootId w.nextUid w.st w.draining i
    rcases hT : T.drains with _ | _
    · -- any other task: the hand is where it was
      rw [hT] at hdrains hflag
      obtain ⟨⟨hlegacy, hfx⟩, hev⟩ :=
        Task.turn_aside cfg w.bootId w.nextUid w.st w.draining i hT
      have hnil : notes ((w.turnOf cfg T i).fx.map .fx ++ (w.turnOf cfg T i).events) = [] := by
        rw [notes_append]
        exact (congrArg₂ _ hfx hev)
      refine ⟨⟨w.st.legacy, hand⟩, ?_, .taken hmark rfl ?_ ?_⟩
      · rcases hflag with ⟨htask, hdr⟩ | ⟨hd, -⟩ | ⟨-, hdown, htask, hdr⟩
        · exact h.beside hdrains htask hdr hlegacy
        · cases hd
        · refine h.raise hdown ?_ ?_ hdr hlegacy
          · show drainsOf (T.turn cfg w.bootId w.nextUid w.st w.draining i).task = true
            rw [htask]
            rfl
          · show handOf (T.turn cfg w.bootId w.nextUid w.st w.draining i).task = none
            rw [htask]
            rfl
      · rw [hnil]
        exact .idle _
      · exact fun r hr _ hn => absurd (hr.symm.trans hn) (by simp)
    · rw [hT] at hdrains hflag
      have hhand : T.hand = hand := by
        have := h.hand key hdrains
        rw [ht] at this
        exact this
      subst hhand
      refine ⟨_, h.worker hdrains ?_,
        .taken hmark rfl (Task.turn_serves cfg w.bootId w.nextUid w.st w.draining i hT) ?_⟩
      · rcases hflag with ⟨htask, hdr⟩ | ⟨-, htask, hdr⟩ | ⟨hd, -⟩
        · exact hdr.trans ((h.flag.mpr ⟨key, hdrains⟩).trans htask.symm)
        · exact hdr.trans htask.symm
        · cases hd
      · intro r hr hn hh
        have hback := Task.turn_putBack cfg w.bootId w.nextUid w.st w.draining i hr hn hh
        exact ⟨key, i, rfl, ht.trans (congrArg some hback)⟩
  | @call key c hu hk =>
    refine ⟨Nat.le_trans hmark (by simp [World.take]), _, ?_, .taken hmark rfl
      (c.turn_serves w.st w.draining hand)
      fun r hr _ hn => absurd (hr.symm.trans hn) (by simp)⟩
    obtain ⟨htask, hdr⟩ := c.turn_flag w.st w.draining
    exact h.beside (by rw [hk]; rfl) htask hdr rfl
  | @drop key T ht hd =>
    rw [← take_idle]
    have hdrains : drainsOf (w.tasks key) = false := by
      rw [ht]
      cases T with
      | submitRead req opId => rfl
      | submitWait req opId u => rfl
      | _ => cases hd
    refine ⟨Nat.le_trans hmark (by simp [World.take]), _, h.beside hdrains rfl rfl rfl, ?_⟩
    exact .taken hmark rfl (.idle _) fun r hr _ hn => absurd (hr.symm.trans hn) (by simp)
  | @start key bootId now hu =>
    obtain ⟨hlegacy, hfx⟩ := w.disk.start_aside bootId now
    refine ⟨by simp [marks], _, .gone hlegacy rfl ?_, .fresh ?_⟩
    · intro k
      show drainsOf (startTasks (w.disk.start bootId now).1 key k) = false
      rw [startTasks, setTask]
      split
      · rcases (w.disk.start bootId now).1.active with _ | t <;> rfl
      · rfl
    · show notes ((w.log ++ _).drop w.log.length) = []
      rw [List.drop_left]
      exact hfx
  | takeover =>
    refine ⟨hmark, ⟨w.st.legacy, hand⟩, ⟨rfl, h.hand, h.idle, h.one, h.flag⟩, .step (.idle _) ?_ ?_⟩
    · exact (List.append_nil _).symm
    · exact fun r hr _ hn => absurd (hr.symm.trans hn) (by simp)
  | crash hu => exact Serving.died rfl
  | crashTask ht => exact Serving.died rfl
  | crashCall hu => exact Serving.died rfl
  | crashStart hu => exact Serving.died rfl

end Steps

end World

end Datad
