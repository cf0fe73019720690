/-
  Datad/Ubus/Listen.lean
  ======================
  **Events of the vendor are answered once, soon and not too often** (`debounce` of
  `ubus/listen.rs`).

  A task takes an event from its channel, sleeps for a window, and longer if it has fired not
  long ago, drops what has come meanwhile, and fires.  Events arrive at any time.  In every
  run, however late a sleep ends, firings keep their distance and none is without an event
  (`debounce_spaced`), and no event is left behind (`debounce_idle`).  Where sleeps end in
  time, each is answered within the longer of the two (`debounce_prompt`).
-/
import Datad.Lib.Transition
import Mathlib.Data.List.Basic
import Mathlib.Order.Lattice

namespace Datad.Ubus

open Transition

namespace Debounce

/-- Where the task is; a sleep has its end. -/
inductive At where
  | recv
  | window (wake : Nat)
  | gap (wake : Nat)
  | drain
  | fire
  /-- Fired; `last` is not set yet. -/
  | stamp
deriving DecidableEq

inductive Event where
  | event (time : Nat)
  | fire (time : Nat)
deriving DecidableEq

structure State where
  /-- Milliseconds. -/
  now : Nat := 0
  /-- How many events are in the channel. -/
  queue : Nat := 0
  task : At := .recv
  last : Option Nat := none
  /-- The last event first. -/
  log : List Event := []
deriving DecidableEq

inductive Act where
  | tick (d : Nat)
  | arrive
  | step

/-- The capacity of the channel; the sender waits for room. -/
def CAPACITY : Nat := 64

section

variable (window minInterval : Nat)

def next (s : State) : Act → Option State
  | .tick d => some { s with now := s.now + d }
  | .arrive =>
      if s.queue < CAPACITY then
        some { s with queue := s.queue + 1, log := .event s.now :: s.log }
      else none
  | .step =>
      match s.task with
      | .recv =>
          if s.queue = 0 then none
          else some { s with queue := s.queue - 1, task := .window (s.now + window) }
      | .window wake =>
          if s.now < wake then none
          else
            match s.last with
            | some t => some { s with task := .gap (t + minInterval) }
            | none => some { s with task := .drain }
      | .gap wake => if s.now < wake then none else some { s with task := .drain }
      | .drain =>
          if s.queue = 0 then some { s with task := .fire }
          else some { s with queue := s.queue - 1 }
      | .fire => some { s with task := .stamp, log := .fire s.now :: s.log }
      | .stamp => some { s with task := .recv, last := some s.now }

end

def fires (log : List Event) : List Nat :=
  log.filterMap fun
    | .fire t => some t
    | .event _ => none

def events (log : List Event) : List Nat :=
  log.filterMap fun
    | .event t => some t
    | .fire _ => none

/-- The events after the last firing. -/
def pending : List Event → List Nat
  | [] => []
  | .fire _ :: _ => []
  | .event t :: log => t :: pending log

/-- An event has been taken, and will be answered. -/
def At.answering : At → Bool
  | .window _ | .gap _ | .drain | .fire => true
  | .recv | .stamp => false

variable {window minInterval : Nat} {s s' : State}

/-! ### Distance -/

/-- What is left of the distance to the last firing. -/
def Apart (minInterval : Nat) (s : State) (t : Nat) : Prop :=
  match s.task with
  | .recv | .window _ => ∃ x, s.last = some x ∧ t ≤ x
  | .gap wake => t + minInterval ≤ wake
  | .drain | .fire => t + minInterval ≤ s.now
  | .stamp => t ≤ s.now

/-- There is an event to answer, and how long it has been there. -/
def Caused (window : Nat) (s : State) : Prop :=
  match s.task with
  | .recv | .stamp => True
  | .window wake => ∃ u ∈ events s.log, u + window ≤ wake
  | .gap _ | .drain | .fire => ∃ u ∈ events s.log, u + window ≤ s.now

structure Spaced (window minInterval : Nat) (s : State) : Prop where
  apart : ∀ t ∈ fires s.log, Apart minInterval s t
  pairs : (fires s.log).Pairwise fun later earlier => earlier + minInterval ≤ later
  caused : Caused window s
  causes : ∀ t past, .fire t :: past <:+ s.log → ∃ u ∈ events past, u + window ≤ t
  past : ∀ u ∈ events s.log, u ≤ s.now
  count : (fires s.log).length + s.queue + s.task.answering.toNat ≤ (events s.log).length

theorem suffix_cases {α : Type} {e x : α} {past log : List α} (h : x :: past <:+ e :: log) :
    (x = e ∧ past = log) ∨ x :: past <:+ log := by
  rcases List.suffix_cons_iff.mp h with h | h
  · exact Or.inl (List.cons.inj h)
  · exact Or.inr h

theorem Spaced.next (h : Spaced window minInterval s) {a : Act}
    (hs : Debounce.next window minInterval s a = some s') : Spaced window minInterval s' := by
  cases a with
  | tick d =>
    cases hs
    have hlater : ∀ t, Apart minInterval s t → Apart minInterval { s with now := s.now + d } t := by
      intro t ht
      unfold Apart at ht ⊢
      cases htask : s.task <;> rw [htask] at ht <;> dsimp only at ht ⊢
      case recv | window | gap => exact ht
      case drain | fire | stamp => omega
    have hcaused : Caused window { s with now := s.now + d } := by
      have hc := h.caused
      unfold Caused at hc ⊢
      cases htask : s.task <;> rw [htask] at hc <;> dsimp only at hc ⊢
      case window => exact hc
      case gap | drain | fire =>
        obtain ⟨u, hu, hle⟩ := hc
        exact ⟨u, hu, by omega⟩
    exact
      { apart := fun t ht => hlater t (h.apart t ht)
        pairs := h.pairs
        caused := hcaused
        causes := h.causes
        past := fun u hu => Nat.le_add_right_of_le (h.past u hu)
        count := h.count }
  | arrive =>
    simp only [Debounce.next] at hs
    split at hs
    · cases hs
      have hevents : ∀ u, u ∈ events (.event s.now :: s.log) ↔ u = s.now ∨ u ∈ events s.log :=
        fun u => List.mem_cons
      have hcaused : Caused window
          { s with queue := s.queue + 1, log := .event s.now :: s.log } := by
        have hc := h.caused
        unfold Caused at hc ⊢
        cases htask : s.task <;> rw [htask] at hc <;> dsimp only at hc ⊢
        case window | gap | drain | fire =>
          obtain ⟨u, hu, hle⟩ := hc
          exact ⟨u, (hevents u).mpr (Or.inr hu), hle⟩
      refine
        { apart := h.apart
          pairs := h.pairs
          caused := hcaused
          causes := fun t past hp => ?_
          past := fun u hu => ?_
          count := ?_ }
      · rcases suffix_cases hp with ⟨heq, -⟩ | hp
        · cases heq
        · exact h.causes t past hp
      · rcases (hevents u).mp hu with rfl | hu
        · exact Nat.le_refl _
        · exact h.past u hu
      · have hcount := h.count
        have hlength : (events (.event s.now :: s.log)).length = (events s.log).length + 1 := rfl
        have hfires : fires (.event s.now :: s.log) = fires s.log := rfl
        dsimp only
        rw [hfires, hlength]
        omega
    · cases hs
  | step =>
    obtain ⟨hapart, hpairs, hcaused, hcauses, hpast, hcount⟩ := h
    simp only [Debounce.next] at hs
    unfold Apart at hapart
    unfold Caused at hcaused
    split at hs
    all_goals
      rename_i htask
      simp only [htask] at hapart hcaused
      rw [htask] at hcount
    · -- an event is taken from the channel
      split at hs
      · cases hs
      · cases hs
        rename_i hqueue
        have hsome : (events s.log) ≠ [] := by
          intro hnil
          rw [hnil] at hcount
          simp only [List.length_nil] at hcount
          omega
        obtain ⟨u, hu⟩ := List.exists_mem_of_ne_nil _ hsome
        refine ⟨hapart, hpairs, ⟨u, hu, Nat.add_le_add_right (hpast u hu) _⟩, hcauses, hpast, ?_⟩
        simp only [At.answering, Bool.toNat_true, Bool.toNat_false] at hcount ⊢
        omega
    · -- the window is over
      split at hs
      · cases hs
      · rename_i hwake
        obtain ⟨u, hu, hle⟩ := hcaused
        split at hs
        · rename_i t hlast
          cases hs
          refine ⟨fun t' ht' => ?_, hpairs, ⟨u, hu, by dsimp only; omega⟩, hcauses, hpast, hcount⟩
          obtain ⟨x, hx, hle'⟩ := hapart t' ht'
          rw [hlast] at hx
          cases hx
          exact Nat.add_le_add_right hle' _
        · rename_i hlast
          cases hs
          refine ⟨fun t' ht' => ?_, hpairs, ⟨u, hu, by dsimp only; omega⟩, hcauses, hpast, hcount⟩
          obtain ⟨x, hx, -⟩ := hapart t' ht'
          rw [hlast] at hx
          cases hx
    · -- the distance is kept
      split at hs
      · cases hs
      · rename_i hwake
        cases hs
        refine ⟨fun t ht => ?_, hpairs, hcaused, hcauses, hpast, hcount⟩
        exact Nat.le_trans (hapart t ht) (Nat.le_of_not_lt hwake)
    · split at hs
      · cases hs
        exact ⟨hapart, hpairs, hcaused, hcauses, hpast, hcount⟩
      · cases hs
        refine ⟨?_, hpairs, ?_, hcauses, hpast, ?_⟩
        · simpa [Apart, htask] using hapart
        · simpa [Caused, htask] using hcaused
        · simp only [htask]
          omega
    · -- it fires
      cases hs
      have hfires : fires (.fire s.now :: s.log) = s.now :: fires s.log := rfl
      have hevents : events (.fire s.now :: s.log) = events s.log := rfl
      refine ⟨fun t ht => ?_, ?_, trivial, fun t past hp => ?_, hpast, ?_⟩
      · rw [hfires] at ht
        rcases List.mem_cons.mp ht with rfl | ht
        · exact Nat.le_refl _
        · exact Nat.le_trans (Nat.le_add_right _ _) (hapart t ht)
      · rw [hfires]
        exact List.pairwise_cons.mpr ⟨hapart, hpairs⟩
      · rcases suffix_cases hp with ⟨heq, rfl⟩ | hp
        · cases heq
          exact hcaused
        · exact hcauses t past hp
      · rw [hfires, hevents]
        simp only [At.answering, Bool.toNat_true, Bool.toNat_false, List.length_cons] at hcount ⊢
        omega
    · cases hs
      exact ⟨fun t ht => ⟨s.now, rfl, hapart t ht⟩, hpairs, trivial, hcauses, hpast, hcount⟩

/-- A burst of two events, answered once. -/
def burstRun : List Act :=
  [.arrive, .step, .tick 100, .arrive, .tick 200, .step, .step, .step, .step, .step]

theorem burstRun_fires : ∃ s, Exec (next 300 2000) (fun _ _ => True) {} s ∧
    s.log = [.fire 300, .event 100, .event 0] ∧ s.task = .recv ∧ s.queue = 0 := by
  have hrun : (run (next 300 2000) (fun _ _ => true) {} burstRun).any (fun s =>
      decide (s.log = [.fire 300, .event 100, .event 0]) && decide (s.task = .recv) &&
        decide (s.queue = 0)) = true := by
    decide
  obtain ⟨s, hs, hp⟩ := Exec.exists_of_run (fun _ _ _ => trivial) (.refl _) hrun
  simp only [Bool.and_eq_true, decide_eq_true_iff] at hp
  exact ⟨s, hs, hp.1.1, hp.1.2, hp.2⟩

/-- Where nothing is being answered, what has not been answered is in the channel. -/
def Kept (s : State) : Prop := s.task.answering = false → pending s.log ≠ [] → 0 < s.queue

theorem Kept.next (h : Kept s) {a : Act}
    (hs : Debounce.next window minInterval s a = some s') : Kept s' := by
  cases a with
  | tick d =>
    cases hs
    exact h
  | arrive =>
    simp only [Debounce.next] at hs
    split at hs
    · cases hs
      exact fun _ _ => Nat.succ_pos _
    · cases hs
  | step =>
    simp only [Debounce.next] at hs
    split at hs
    · split at hs
      · cases hs
      · cases hs
        exact nofun
    · split at hs
      · cases hs
      · split at hs <;> cases hs <;> exact nofun
    · split at hs
      · cases hs
      · cases hs
        exact nofun
    · rename_i htask
      split at hs
      · cases hs
        exact nofun
      · cases hs
        intro hanswering
        rw [htask] at hanswering
        cases hanswering
    · cases hs
      exact fun _ hpending => absurd rfl hpending
    · rename_i htask
      cases hs
      exact fun _ => h (by rw [htask]; rfl)

/-- **No event is left behind**: where the task sleeps on an empty channel, there has been a
    firing since the last event. -/
theorem debounce_idle (window minInterval : Nat) (s : State)
    (hrun : Exec (next window minInterval) (fun _ _ => True) {} s) (htask : s.task = .recv)
    (hqueue : s.queue = 0) : pending s.log = [] := by
  have hkept := hrun.invariant Kept (fun h _ hs => h.next hs) fun _ h => absurd rfl h
  by_contra hpending
  have hpos := hkept (by rw [htask]; rfl) hpending
  omega

theorem debounce_idle_burst : ∃ s : State, s.log = [.fire 300, .event 100, .event 0] ∧
    pending s.log = [] := by
  obtain ⟨s, hs, hlog, htask, hqueue⟩ := burstRun_fires
  exact ⟨s, hlog, debounce_idle 300 2000 s hs htask hqueue⟩

/-! ### In time -/

/-- Time passes only where the task sleeps, and not beyond the end of its sleep. -/
def inTime (s : State) : Act → Bool
  | .tick d =>
      match s.task with
      | .recv => decide (s.queue = 0)
      | .window wake | .gap wake => decide (s.now + d ≤ wake)
      | .drain | .fire | .stamp => false
  | .arrive | .step => true

/-- How long an event may still wait. -/
def Waits (window minInterval : Nat) (s : State) (u : Nat) : Prop :=
  match s.task with
  | .recv | .stamp => u = s.now
  | .window wake => wake ≤ u + window
  | .gap wake => wake ≤ u + minInterval
  | .drain | .fire => True

/-- How long a sleep may still be. -/
def Sleeps (window minInterval : Nat) (s : State) : Prop :=
  match s.task with
  | .window wake => wake ≤ s.now + window
  | .gap wake => wake ≤ s.now + minInterval
  | .recv | .drain | .fire | .stamp => True

structure Prompt (window minInterval : Nat) (s : State) : Prop where
  kept : Kept s
  /-- What is not answered has come after the last firing. -/
  newer : ∀ x, s.last = some x → x ≤ s.now ∧ ∀ u ∈ pending s.log, x ≤ u
  sleeps : Sleeps window minInterval s
  waits : ∀ u ∈ pending s.log, Waits window minInterval s u ∧ s.now ≤ u + max window minInterval
  answered : ∀ u past later, s.log = later ++ .event u :: past → (∀ t, .fire t ∉ later) ∨
    ∃ t, .fire t ∈ later ∧ t ≤ u + max window minInterval

theorem mem_pending {u : Nat} {past later log : List Event} (hlog : log = later ++ .event u :: past)
    (hno : ∀ t, .fire t ∉ later) : u ∈ pending log := by
  subst hlog
  induction later with
  | nil => exact List.mem_cons_self
  | cons e later ih =>
    cases e with
    | event t =>
      exact List.mem_cons_of_mem _ (ih fun t ht => hno t (List.mem_cons_of_mem _ ht))
    | fire t => exact absurd List.mem_cons_self (hno t)

theorem Prompt.tick (h : Prompt window minInterval s) {d : Nat} (hok : inTime s (.tick d) = true) :
    Prompt window minInterval { s with now := s.now + d } := by
  have hwaits : ∀ u ∈ pending s.log, Waits window minInterval { s with now := s.now + d } u ∧
      s.now + d ≤ u + max window minInterval := by
    intro u hu
    obtain ⟨hw, hnow⟩ := h.waits u hu
    have hpos := h.kept
    unfold inTime at hok
    unfold Waits at hw ⊢
    unfold Kept at hpos
    cases htask : s.task <;>
      simp only [htask, decide_eq_true_iff, Bool.false_eq_true] at hok hw hpos ⊢
    case recv =>
      have := hpos rfl (List.ne_nil_of_mem hu)
      omega
    case window => exact ⟨hw, by omega⟩
    case gap => exact ⟨hw, by omega⟩
  have hsleeps : Sleeps window minInterval { s with now := s.now + d } := by
    have hs := h.sleeps
    unfold Sleeps at hs ⊢
    cases htask : s.task <;> simp only [htask] at hs ⊢
    case window | gap => omega
  exact
    { kept := h.kept
      newer := fun x hx => (h.newer x hx).imp_left Nat.le_add_right_of_le
      sleeps := hsleeps
      waits := hwaits
      answered := h.answered }

theorem Prompt.arrive (h : Prompt window minInterval s) :
    Prompt window minInterval
      { s with queue := s.queue + 1, log := .event s.now :: s.log } where
  kept _ _ := Nat.succ_pos _
  newer x hx := by
    refine ⟨(h.newer x hx).1, fun u hu => ?_⟩
    rcases List.mem_cons.mp hu with rfl | hu
    · exact (h.newer x hx).1
    · exact (h.newer x hx).2 u hu
  sleeps := h.sleeps
  waits u hu := by
    rcases List.mem_cons.mp hu with rfl | hu
    · refine ⟨?_, Nat.le_add_right _ _⟩
      have hs := h.sleeps
      unfold Sleeps at hs
      unfold Waits
      cases htask : s.task <;> simp only [htask] at hs ⊢
      case window | gap => exact hs
    · exact h.waits u hu
  answered u past later hlog := by
    cases later with
    | nil => exact Or.inl fun t ht => absurd ht List.not_mem_nil
    | cons e later =>
      obtain ⟨he, hrest⟩ := List.cons.inj hlog
      subst he
      rcases h.answered u past later hrest with hno | ⟨t, ht, hle⟩
      · refine Or.inl fun t ht => ?_
        rcases List.mem_cons.mp ht with ht | ht
        · cases ht
        · exact hno t ht
      · exact Or.inr ⟨t, List.mem_cons_of_mem _ ht, hle⟩

theorem Prompt.fired (h : Prompt window minInterval s) :
    Prompt window minInterval { s with task := .stamp, log := .fire s.now :: s.log } where
  kept _ hpending := absurd rfl hpending
  newer x hx := ⟨(h.newer x hx).1, fun u hu => absurd hu List.not_mem_nil⟩
  sleeps := trivial
  waits u hu := absurd hu List.not_mem_nil
  answered u past later hlog := by
    cases later with
    | nil => cases hlog
    | cons e later =>
      obtain ⟨he, hrest⟩ := List.cons.inj hlog
      subst he
      rcases h.answered u past later hrest with hno | ⟨t, ht, hle⟩
      · exact Or.inr ⟨s.now, List.mem_cons_self, (h.waits u (mem_pending hrest hno)).2⟩
      · exact Or.inr ⟨t, List.mem_cons_of_mem _ ht, hle⟩

theorem Prompt.next (h : Prompt window minInterval s) {a : Act} (hok : inTime s a = true)
    (hs : Debounce.next window minInterval s a = some s') : Prompt window minInterval s' := by
  have hkept := h.kept.next hs
  cases a with
  | tick d =>
    cases hs
    exact h.tick hok
  | arrive =>
    simp only [Debounce.next] at hs
    split at hs
    · cases hs
      exact h.arrive
    · cases hs
  | step =>
    have hwaits := h.waits
    have hsleeps := h.sleeps
    unfold Waits at hwaits
    unfold Sleeps at hsleeps
    simp only [Debounce.next] at hs
    split at hs
    all_goals
      rename_i htask
      simp only [htask] at hwaits hsleeps
    · split at hs
      · cases hs
      · cases hs
        refine ⟨hkept, h.newer, Nat.le_refl _, fun u hu => ⟨?_, (hwaits u hu).2⟩, h.answered⟩
        exact Nat.add_le_add_right (Nat.le_of_eq (hwaits u hu).1.symm) _
    · split at hs
      · cases hs
      · split at hs
        · rename_i t hlast
          cases hs
          obtain ⟨hle, hnewer⟩ := h.newer t hlast
          exact ⟨hkept, h.newer, Nat.add_le_add_right hle _, fun u hu =>
            ⟨Nat.add_le_add_right (hnewer u hu) _, (hwaits u hu).2⟩, h.answered⟩
        · cases hs
          exact ⟨hkept, h.newer, trivial, fun u hu => ⟨trivial, (hwaits u hu).2⟩, h.answered⟩
    · split at hs
      · cases hs
      · cases hs
        exact ⟨hkept, h.newer, trivial, fun u hu => ⟨trivial, (hwaits u hu).2⟩, h.answered⟩
    · split at hs
      · cases hs
        exact ⟨hkept, h.newer, trivial, fun u hu => ⟨trivial, (hwaits u hu).2⟩, h.answered⟩
      · cases hs
        refine ⟨hkept, h.newer, ?_, fun u hu => ⟨?_, (hwaits u hu).2⟩, h.answered⟩
        · simp [Sleeps, htask]
        · simp [Waits, htask]
    · cases hs
      exact h.fired
    · cases hs
      refine ⟨hkept, fun x hx => ?_, trivial, hwaits, h.answered⟩
      cases hx
      exact ⟨Nat.le_refl _, fun u hu => Nat.le_of_eq (hwaits u hu).1.symm⟩

/-- **Each event is answered in time**: if sleeps end when they should, within the longer of the
    window and the distance there is a firing, or it is not yet so long ago. -/
theorem debounce_prompt (window minInterval : Nat) (s : State)
    (hrun : Exec (next window minInterval) (fun s a => inTime s a = true) {} s) (u : Nat)
    (past later : List Event) (hlog : s.log = later ++ .event u :: past) :
    (∃ t, .fire t ∈ later ∧ t ≤ u + max window minInterval) ∨
      s.now ≤ u + max window minInterval := by
  have hstart : Prompt window minInterval {} :=
    { kept := fun _ h => absurd rfl h
      newer := nofun
      sleeps := trivial
      waits := nofun
      answered := fun u past later h => by
        cases later <;> cases h }
  have h := hrun.invariant (Prompt window minInterval) (fun h hok hs => h.next hok hs) hstart
  rcases h.answered u past later hlog with hno | hfired
  · exact Or.inr (h.waits u (mem_pending hlog hno)).2
  · exact Or.inl hfired

theorem debounce_prompt_burst : ∃ s : State, s.log = [.fire 300, .event 100, .event 0] ∧
    ((∃ t, Event.fire t ∈ [Event.fire 300, .event 100] ∧ t ≤ 2000) ∨ s.now ≤ 2000) := by
  have hrun : (run (next 300 2000) inTime {} burstRun).any (fun s =>
      decide (s.log = [.fire 300, .event 100, .event 0])) = true := by
    decide
  obtain ⟨s, hs, hp⟩ := Exec.exists_of_run (fun _ _ h => h) (.refl _) hrun
  rw [decide_eq_true_iff] at hp
  exact ⟨s, hp, debounce_prompt 300 2000 s hs 0 [] _ hp⟩

end Debounce

end Datad.Ubus
