/-
  Datad/Executor/AtThreads.lean
  =============================
  **AT commands run on threads of their own: `send_within` of `at.rs`.**

  A caller that has waited long enough leaves its thread behind and puts its key into
  `STUCK`; the thread takes the key out when it is through.  Both look at the thread's
  flag under the mutex of the list, so each critical section is one step here, and what
  lies between them happens in any order.  Calls come one after another.

  The key is the text of the lock path and the port; one machine has all keys.
-/
import Datad.Lib.Slots
import Datad.Lib.Transition

namespace Datad.At

open Transition

inductive Cmd where
  | copsAuto
  | cfunOnline
deriving DecidableEq

def Cmd.text : Cmd → String
  | .copsAuto => "AT+COPS=0"
  | .cfunOnline => "AT+CFUN=1"

/-- The limit of a whole command, in seconds, that `send_with` gives. -/
def TOTAL_WAIT : Nat := 25

abbrev Answer := Except String String

/-- The key, which is the text of lock and port, of a call, and its limit in seconds. -/
structure Command where
  cmd : Cmd
  key : String
  total : Nat

/-- How far a thread is. -/
inductive Phase where
  /-- In `send_blocking`. -/
  | running
  /-- The command is over, with this answer; the mutex is not taken yet. -/
  | over (r : Answer)
  /-- Out of the critical section. -/
  | released (r : Answer)
  /-- The answer is in the channel. -/
  | sent (r : Answer)

/-- A thread, with its flag `done`; `left` notes that its caller has gone. -/
structure Thread where
  key : String
  phase : Phase := .running
  done : Bool := false
  left : Bool := false

/-- How far the call is. -/
inductive Caller where
  | idle
  /-- The key was not in the list. -/
  | admitted (c : Command)
  /-- In `timeout(total, rx)`. -/
  | waiting (c : Command) (i : Nat)
  /-- The time is up; the mutex is not taken yet. -/
  | expired (c : Command) (i : Nat)

structure State where
  stuck : List String := []
  threads : List Thread := []
  caller : Caller := .idle
  /-- What the last call returned. -/
  returned : Option Answer := none

inductive Act where
  | call (c : Command)
  | spawn
  | spawnFails (e : String)
  | commandEnds (i : Nat) (r : Answer)
  | finish (i : Nat)
  | send (i : Nat)
  | answered
  | expire
  | leave

/-- `stuck().contains(&key)` -/
def State.admitCall (s : State) (c : Command) : State :=
  if c.key ∈ s.stuck then
    { s with returned := some (.error
      (c.cmd.text ++ ": the AT port is still stuck on an earlier command")) }
  else { s with caller := .admitted c }

def State.spawn (s : State) (c : Command) : State :=
  { s with threads := s.threads ++ [{ key := c.key }], caller := .waiting c s.threads.length }

def State.set (s : State) (i : Nat) (t : Thread) : State :=
  { s with threads := s.threads.set i t }

/-- The critical section of the thread. -/
def State.release (s : State) (i : Nat) (t : Thread) (r : Answer) : State :=
  { s.set i { t with phase := .released r, done := true } with
    stuck := s.stuck.filter (· ≠ t.key) }

/-- The call returns. -/
def State.return (s : State) (r : Answer) : State := { s with caller := .idle, returned := some r }

def timeoutText (c : Command) : String :=
  c.cmd.text ++ ": no answer within " ++ toString c.total ++ " s (the AT port is stuck)"

/-- The critical section of a caller whose time is up. -/
def State.leave (s : State) (c : Command) (i : Nat) (t : Thread) : State :=
  { s.set i { t with left := true } with
    stuck := if t.done then s.stuck else s.stuck ++ [c.key] }.return (.error (timeoutText c))

def next (s : State) : Act → Option State
  | .call c =>
      match s.caller with
      | .idle => some (s.admitCall c)
      | _ => none
  | .spawn =>
      match s.caller with
      | .admitted c => some (s.spawn c)
      | _ => none
  | .spawnFails e =>
      match s.caller with
      | .admitted _ => some (s.return (.error ("AT thread: " ++ e)))
      | _ => none
  | .commandEnds i r =>
      match s.threads[i]? with
      | some t =>
          match t.phase with
          | .running => some (s.set i { t with phase := .over r })
          | _ => none
      | none => none
  | .finish i =>
      match s.threads[i]? with
      | some t =>
          match t.phase with
          | .over r => some (s.release i t r)
          | _ => none
      | none => none
  | .send i =>
      match s.threads[i]? with
      | some t =>
          match t.phase with
          | .released r => some (s.set i { t with phase := .sent r })
          | _ => none
      | none => none
  | .answered =>
      match s.caller with
      | .waiting _ i =>
          match s.threads[i]? with
          | some t =>
              match t.phase with
              | .sent r => some (s.return r)
              | _ => none
          | none => none
      | _ => none
  | .expire =>
      match s.caller with
      | .waiting c i => some { s with caller := .expired c i }
      | _ => none
  | .leave =>
      match s.caller with
      | .expired c i =>
          match s.threads[i]? with
          | some t => some (s.leave c i t)
          | none => none
      | _ => none

/-- A state that calls, one after another, and their threads can come to. -/
def Reachable (s : State) : Prop := Exec next (fun _ _ => True) {} s

/-! ### What a step does -/

variable {s s' : State} {a : Act}

/-- The steps, with what each finds. -/
inductive Step (s : State) : Act → State → Prop where
  | call {c : Command} (hc : s.caller = .idle) : Step s (.call c) (s.admitCall c)
  | spawn {c : Command} (hc : s.caller = .admitted c) : Step s .spawn (s.spawn c)
  | spawnFails {c : Command} {e : String} (hc : s.caller = .admitted c) :
      Step s (.spawnFails e) (s.return (.error ("AT thread: " ++ e)))
  | commandEnds {i : Nat} {t : Thread} {r : Answer} (ht : s.threads[i]? = some t)
      (hp : t.phase = .running) : Step s (.commandEnds i r) (s.set i { t with phase := .over r })
  | finish {i : Nat} {t : Thread} {r : Answer} (ht : s.threads[i]? = some t)
      (hp : t.phase = .over r) : Step s (.finish i) (s.release i t r)
  | send {i : Nat} {t : Thread} {r : Answer} (ht : s.threads[i]? = some t)
      (hp : t.phase = .released r) : Step s (.send i) (s.set i { t with phase := .sent r })
  | answered {c : Command} {i : Nat} {t : Thread} {r : Answer} (hc : s.caller = .waiting c i)
      (ht : s.threads[i]? = some t) (hp : t.phase = .sent r) : Step s .answered (s.return r)
  | expire {c : Command} {i : Nat} (hc : s.caller = .waiting c i) :
      Step s .expire { s with caller := .expired c i }
  | leave {c : Command} {i : Nat} {t : Thread} (hc : s.caller = .expired c i)
      (ht : s.threads[i]? = some t) : Step s .leave (s.leave c i t)

theorem next_step (h : next s a = some s') : Step s a s' := by
  cases a with
  | call c =>
      simp only [next] at h
      split at h <;> cases h
      exact .call ‹_›
  | spawn =>
      simp only [next] at h
      split at h <;> cases h
      exact .spawn ‹_›
  | spawnFails e =>
      simp only [next] at h
      split at h <;> cases h
      exact .spawnFails ‹_›
  | commandEnds i r =>
      simp only [next] at h
      split at h <;> try cases h
      split at h <;> cases h
      exact .commandEnds ‹_› ‹_›
  | finish i =>
      simp only [next] at h
      split at h <;> try cases h
      split at h <;> cases h
      exact .finish ‹_› ‹_›
  | send i =>
      simp only [next] at h
      split at h <;> try cases h
      split at h <;> cases h
      exact .send ‹_› ‹_›
  | answered =>
      simp only [next] at h
      split at h <;> try cases h
      split at h <;> try cases h
      split at h <;> cases h
      exact .answered ‹_› ‹_› ‹_›
  | expire =>
      simp only [next] at h
      split at h <;> cases h
      exact .expire ‹_›
  | leave =>
      simp only [next] at h
      split at h <;> try cases h
      split at h <;> cases h
      exact .leave ‹_› ‹_›

/-! ### The invariant -/

/-- The thread whose answer the call waits for. -/
def Caller.watching : Caller → Option (Command × Nat)
  | .waiting c i => some (c, i)
  | .expired c i => some (c, i)
  | _ => none

def Phase.through : Phase → Bool
  | .released _ => true
  | .sent _ => true
  | _ => false

/-- A thread of the key was left behind and is not through. -/
def State.Abandoned (s : State) (key : String) : Prop :=
  ∃ (i : Nat) (t : Thread), s.threads[i]? = some t ∧ t.key = key ∧ t.left = true ∧ t.done = false

structure Inv (s : State) : Prop where
  stuck : ∀ key, key ∈ s.stuck ↔ s.Abandoned key
  flag : ∀ (i : Nat) (t : Thread), s.threads[i]? = some t → t.done = t.phase.through
  /-- Who is not through is either left behind or waited for. -/
  watched : ∀ (i : Nat) (t : Thread), s.threads[i]? = some t → t.done = false →
    t.left = true ∨ ∃ c, s.caller.watching = some (c, i)
  /-- No two threads of a key are at work at a time. -/
  apart : ∀ (i j : Nat) (t u : Thread), s.threads[i]? = some t → s.threads[j]? = some u →
    t.key = u.key → t.done = false → u.done = false → i = j
  admitted : ∀ c, s.caller = .admitted c → c.key ∉ s.stuck
  own : ∀ c i, s.caller.watching = some (c, i) →
    ∃ t : Thread, s.threads[i]? = some t ∧ t.key = c.key ∧ t.left = false

theorem Inv.init : Inv {} where
  stuck key := by simp [State.Abandoned]
  flag i t ht := by simp at ht
  watched i t ht := by simp at ht
  apart i j t u ht := by simp at ht
  admitted c hc := by cases hc
  own c i hc := by cases hc

/-- The call moves on, and no thread does. -/
theorem Inv.setCaller (h : Inv s) {caller : Caller} {returned : Option Answer}
    (hadmitted : ∀ c, caller = .admitted c → c.key ∉ s.stuck)
    (hwatch : ∀ c i, caller.watching = some (c, i) → s.caller.watching = some (c, i))
    (hdone : ∀ c i, s.caller.watching = some (c, i) → caller.watching = some (c, i) ∨
      ∃ t : Thread, s.threads[i]? = some t ∧ t.done = true) :
    Inv { s with caller := caller, returned := returned } where
  stuck := h.stuck
  flag := h.flag
  watched i t ht hd := by
    rcases h.watched i t ht hd with hleft | ⟨c, hc⟩
    · exact .inl hleft
    · rcases hdone c i hc with hc | ⟨u, hu, hdu⟩
      · exact .inr ⟨c, hc⟩
      · rw [ht] at hu
        cases hu
        rw [hd] at hdu
        cases hdu
  apart := h.apart
  admitted := hadmitted
  own c i hc := h.own c i (hwatch c i hc)

/-- A thread changes its phase only. -/
theorem Inv.setPhase (h : Inv s) {i : Nat} {t : Thread} (ht : s.threads[i]? = some t)
    {phase : Phase} (hphase : t.done = phase.through) :
    Inv (s.set i { t with phase := phase }) := by
  have hback : ∀ (j : Nat) (u : Thread), (s.set i { t with phase := phase }).threads[j]? = some u →
      ∃ v : Thread, s.threads[j]? = some v ∧ v.key = u.key ∧ v.done = u.done ∧
        v.left = u.left := by
    intro j u hu
    rcases (Slots.set_iff ht).1 hu with ⟨rfl, rfl⟩ | ⟨-, hu⟩
    · exact ⟨t, ht, rfl, rfl, rfl⟩
    · exact ⟨u, hu, rfl, rfl, rfl⟩
  have hforth : ∀ (j : Nat) (v : Thread), s.threads[j]? = some v →
      ∃ u : Thread, (s.set i { t with phase := phase }).threads[j]? = some u ∧ u.key = v.key ∧
        u.done = v.done ∧ u.left = v.left := by
    intro j v hv
    by_cases hj : j = i
    · subst hj
      rw [ht] at hv
      cases hv
      exact ⟨_, (Slots.set_iff ht).2 (.inl ⟨rfl, rfl⟩), rfl, rfl, rfl⟩
    · refine ⟨v, ?_, rfl, rfl, rfl⟩
      rw [← hv]
      exact List.getElem?_set_ne fun heq => hj heq.symm
  constructor
  · intro key
    change key ∈ s.stuck ↔ _
    rw [h.stuck]
    constructor
    · rintro ⟨j, v, hv, hkey, hleft, hdone⟩
      obtain ⟨u, hu, hk, hd, hl⟩ := hforth j v hv
      exact ⟨j, u, hu, hk.trans hkey, hl.trans hleft, hd.trans hdone⟩
    · rintro ⟨j, u, hu, hkey, hleft, hdone⟩
      obtain ⟨v, hv, hk, hd, hl⟩ := hback j u hu
      exact ⟨j, v, hv, hk.trans hkey, hl.trans hleft, hd.trans hdone⟩
  · intro j u hu
    rcases (Slots.set_iff ht).1 hu with ⟨rfl, rfl⟩ | ⟨-, hu⟩
    · exact hphase
    · exact h.flag j u hu
  · intro j u hu hdone
    obtain ⟨v, hv, -, hd, hl⟩ := hback j u hu
    rw [← hl]
    exact h.watched j v hv (hd.trans hdone)
  · intro j k u u' hu hu' hkey hdone hdone'
    obtain ⟨v, hv, hk, hd, -⟩ := hback j u hu
    obtain ⟨v', hv', hk', hd', -⟩ := hback k u' hu'
    exact h.apart j k v v' hv hv' (hk.trans (hkey.trans hk'.symm)) (hd.trans hdone)
      (hd'.trans hdone')
  · exact h.admitted
  · intro c j hc
    obtain ⟨v, hv, hkey, hleft⟩ := h.own c j hc
    obtain ⟨u, hu, hk, -, hl⟩ := hforth j v hv
    exact ⟨u, hu, hk.trans hkey, hl.trans hleft⟩

theorem Inv.admitCall (h : Inv s) (hc : s.caller = .idle) (c : Command) : Inv (s.admitCall c) := by
  have hnone : ∀ c i, s.caller.watching ≠ some (c, i) := by
    intro c i hw
    rw [hc] at hw
    cases hw
  rw [State.admitCall]
  split
  · exact h.setCaller h.admitted (fun _ _ hw => hw) fun _ _ hw => .inl hw
  · rename_i hfree
    refine h.setCaller ?_ (fun _ _ hw => by cases hw) fun c i hw => absurd hw (hnone c i)
    intro c' hc'
    cases hc'
    exact hfree

/-- When a call is admitted every thread of its key is through. -/
theorem Inv.alone (h : Inv s) {c : Command} (hc : s.caller = .admitted c) {i : Nat} {t : Thread}
    (ht : s.threads[i]? = some t) (hkey : t.key = c.key) : t.done = true := by
  by_contra hdone
  rw [Bool.not_eq_true] at hdone
  rcases h.watched i t ht hdone with hleft | ⟨c', hw⟩
  · exact h.admitted c hc ((h.stuck c.key).2 ⟨i, t, ht, hkey, hleft, hdone⟩)
  · rw [hc] at hw
    cases hw

theorem Inv.spawn (h : Inv s) {c : Command} (hc : s.caller = .admitted c) : Inv (s.spawn c) := by
  constructor
  · intro key
    refine (h.stuck key).trans ?_
    constructor
    · rintro ⟨j, u, hu, hu'⟩
      exact ⟨j, u, Slots.concat_iff.2 (.inl hu), hu'⟩
    · rintro ⟨j, u, hu, hkey, hleft, hdone⟩
      rcases Slots.concat_iff.1 hu with hu | ⟨-, rfl⟩
      · exact ⟨j, u, hu, hkey, hleft, hdone⟩
      · cases hleft
  · intro j u hu
    rcases Slots.concat_iff.1 hu with hu | ⟨-, rfl⟩
    · exact h.flag j u hu
    · rfl
  · intro j u hu hdone
    rcases Slots.concat_iff.1 hu with hu | ⟨rfl, rfl⟩
    · rcases h.watched j u hu hdone with hleft | ⟨c', hw⟩
      · exact .inl hleft
      · rw [hc] at hw
        cases hw
    · exact .inr ⟨c, rfl⟩
  · intro j k t u ht hu hkey hdone hdone'
    -- the new thread is alone with its key
    rcases Slots.concat_iff.1 ht with ht | ⟨rfl, rfl⟩
    · rcases Slots.concat_iff.1 hu with hu | ⟨rfl, rfl⟩
      · exact h.apart j k t u ht hu hkey hdone hdone'
      · rw [h.alone hc ht hkey] at hdone
        cases hdone
    · rcases Slots.concat_iff.1 hu with hu | ⟨rfl, -⟩
      · rw [h.alone hc hu hkey.symm] at hdone'
        cases hdone'
      · rfl
  · intro c' hc'
    cases hc'
  · intro c' j hw
    cases hw
    exact ⟨_, List.getElem?_concat_length, rfl, rfl⟩

/-- **The thread's critical section.**  The key goes, and no other thread that is left
    behind needs it. -/
theorem Inv.release (h : Inv s) {i : Nat} {t : Thread} {r : Answer} (ht : s.threads[i]? = some t)
    (hp : t.phase = .over r) : Inv (s.release i t r) := by
  have hdone : t.done = false := by
    rw [h.flag i t ht, hp]
    rfl
  have hkeep : ∀ (j : Nat) (u : Thread), j ≠ i → s.threads[j]? = some u →
      (s.release i t r).threads[j]? = some u := by
    intro j u hj hu
    rw [← hu]
    exact List.getElem?_set_ne fun heq => hj heq.symm
  constructor
  · intro key
    change key ∈ s.stuck.filter (· ≠ t.key) ↔ _
    rw [List.mem_filter, h.stuck, decide_eq_true_eq]
    constructor
    · rintro ⟨⟨j, u, hu, hkey, hleft, hdone'⟩, hne⟩
      refine ⟨j, u, hkeep j u ?_ hu, hkey, hleft, hdone'⟩
      rintro rfl
      rw [ht] at hu
      cases hu
      exact hne hkey.symm
    · rintro ⟨j, u, hu, hkey, hleft, hdone'⟩
      rcases (Slots.set_iff ht).1 hu with ⟨rfl, rfl⟩ | ⟨hj, hu⟩
      · cases hdone'
      · refine ⟨⟨j, u, hu, hkey, hleft, hdone'⟩, ?_⟩
        intro heq
        exact hj (h.apart j i u t hu ht (hkey.trans heq) hdone' hdone)
  · intro j u hu
    rcases (Slots.set_iff ht).1 hu with ⟨rfl, rfl⟩ | ⟨-, hu⟩
    · rfl
    · exact h.flag j u hu
  · intro j u hu hdone'
    rcases (Slots.set_iff ht).1 hu with ⟨rfl, rfl⟩ | ⟨-, hu⟩
    · cases hdone'
    · exact h.watched j u hu hdone'
  · intro j k u u' hu hu' hkey hd hd'
    rcases (Slots.set_iff ht).1 hu with ⟨rfl, rfl⟩ | ⟨-, hu⟩
    · cases hd
    · rcases (Slots.set_iff ht).1 hu' with ⟨rfl, rfl⟩ | ⟨-, hu'⟩
      · cases hd'
      · exact h.apart j k u u' hu hu' hkey hd hd'
  · intro c hc hmem
    exact h.admitted c hc (List.mem_of_mem_filter hmem)
  · intro c j hw
    obtain ⟨u, hu, hkey, hleft⟩ := h.own c j hw
    by_cases hj : j = i
    · subst hj
      rw [ht] at hu
      cases hu
      exact ⟨_, (Slots.set_iff ht).2 (.inl ⟨rfl, rfl⟩), hkey, hleft⟩
    · exact ⟨u, hkeep j u hj hu, hkey, hleft⟩

/-- **The caller's critical section.**  The key comes in if the thread is not through. -/
theorem Inv.leave (h : Inv s) {c : Command} {i : Nat} {t : Thread} (hc : s.caller = .expired c i)
    (ht : s.threads[i]? = some t) : Inv (s.leave c i t) := by
  have hwatch : s.caller.watching = some (c, i) := by
    rw [hc]
    rfl
  have hkey : t.key = c.key := by
    obtain ⟨u, hu, hkey, -⟩ := h.own c i hwatch
    rw [ht] at hu
    cases hu
    exact hkey
  have hkeep : ∀ (j : Nat) (u : Thread), j ≠ i → s.threads[j]? = some u →
      (s.leave c i t).threads[j]? = some u := by
    intro j u hj hu
    rw [← hu]
    exact List.getElem?_set_ne fun heq => hj heq.symm
  have hself : (s.leave c i t).threads[i]? = some { t with left := true } :=
    (Slots.set_iff ht).2 (.inl ⟨rfl, rfl⟩)
  have hback : ∀ (j : Nat) (u : Thread), (s.leave c i t).threads[j]? = some u →
      ∃ v : Thread, s.threads[j]? = some v ∧ v.key = u.key ∧ v.done = u.done ∧
        v.phase = u.phase := by
    intro j u hu
    rcases (Slots.set_iff ht).1 hu with ⟨rfl, rfl⟩ | ⟨-, hu⟩
    · exact ⟨t, ht, rfl, rfl, rfl⟩
    · exact ⟨u, hu, rfl, rfl, rfl⟩
  constructor
  · intro key
    have hmem : key ∈ (s.leave c i t).stuck ↔ s.Abandoned key ∨ (t.done = false ∧ key = c.key) := by
      change key ∈ (if t.done then s.stuck else s.stuck ++ [c.key]) ↔ _
      rw [← h.stuck]
      cases t.done <;> simp
    rw [hmem]
    constructor
    · rintro (⟨j, u, hu, hk, hleft, hdone⟩ | ⟨hdone, rfl⟩)
      · by_cases hj : j = i
        · subst hj
          rw [ht] at hu
          cases hu
          exact ⟨j, _, hself, hk, rfl, hdone⟩
        · exact ⟨j, u, hkeep j u hj hu, hk, hleft, hdone⟩
      · exact ⟨i, _, hself, hkey, rfl, hdone⟩
    · rintro ⟨j, u, hu, hk, hleft, hdone⟩
      rcases (Slots.set_iff ht).1 hu with ⟨rfl, rfl⟩ | ⟨-, hu⟩
      · exact .inr ⟨hdone, hk.symm.trans hkey⟩
      · exact .inl ⟨j, u, hu, hk, hleft, hdone⟩
  · intro j u hu
    obtain ⟨v, hv, -, hd, hph⟩ := hback j u hu
    rw [← hd, ← hph]
    exact h.flag j v hv
  · intro j u hu hdone
    rcases (Slots.set_iff ht).1 hu with ⟨rfl, rfl⟩ | ⟨hj, hu⟩
    · exact .inl rfl
    · rcases h.watched j u hu hdone with hleft | ⟨c', hw⟩
      · exact .inl hleft
      · rw [hwatch] at hw
        cases hw
        exact absurd rfl hj
  · intro j k u u' hu hu' hk hd hd'
    obtain ⟨v, hv, hkv, hdv, -⟩ := hback j u hu
    obtain ⟨v', hv', hkv', hdv', -⟩ := hback k u' hu'
    exact h.apart j k v v' hv hv' (hkv.trans (hk.trans hkv'.symm)) (hdv.trans hd)
      (hdv'.trans hd')
  · intro c' hc'
    cases hc'
  · intro c' j hw
    cases hw

theorem Inv.step (h : Inv s) (hs : next s a = some s') : Inv s' := by
  cases next_step hs with
  | call hc => exact h.admitCall hc _
  | spawn hc => exact h.spawn hc
  | spawnFails hc =>
      refine h.setCaller (fun _ hc' => by cases hc') (fun _ _ hw => by cases hw) ?_
      intro c i hw
      rw [hc] at hw
      cases hw
  | commandEnds ht hp => exact h.setPhase ht ((h.flag _ _ ht).trans (by rw [hp]; rfl))
  | finish ht hp => exact h.release ht hp
  | send ht hp => exact h.setPhase ht ((h.flag _ _ ht).trans (by rw [hp]; rfl))
  | @answered c i t r hc ht hp =>
      refine h.setCaller (fun _ hc' => by cases hc') (fun _ _ hw => by cases hw) ?_
      intro c' i' hw
      rw [hc] at hw
      cases hw
      refine .inr ⟨t, ht, ?_⟩
      rw [h.flag i t ht, hp]
      rfl
  | expire hc =>
      refine h.setCaller (fun _ hc' => by cases hc') ?_ ?_
      · intro c i hw
        rw [hc]
        exact hw
      · intro c i hw
        rw [hc] at hw
        exact .inl hw
  | leave hc ht => exact h.leave hc ht

theorem Reachable.inv (h : Reachable s) : Inv s :=
  Exec.invariant Inv (fun hi _ hs => hi.step hs) h .init

/-! ### No pile of threads -/

/-- A thread that has not left `send_blocking`. -/
def Thread.Running (t : Thread) : Prop := t.phase = .running

theorem Inv.not_running (h : Inv s) {i : Nat} {t : Thread} (ht : s.threads[i]? = some t)
    (hdone : t.done = true) : ¬t.Running := by
  intro hrun
  rw [h.flag i t ht, hrun] at hdone
  cases hdone

/-- **AT threads never pile up.**  Whatever the order of the steps, a thread is spawned only
    when no thread of its key runs a command, a key is in the list if and only if a thread
    left behind with it is not through, and when all threads are through every call is
    admitted. -/
theorem threads_never_pile_up (h : Reachable s) :
    (∀ s', next s .spawn = some s' →
      ∃ c, s' = s.spawn c ∧ ∀ t ∈ s.threads, t.key = c.key → ¬t.Running) ∧
    (∀ key, key ∈ s.stuck ↔ ∃ t ∈ s.threads, t.key = key ∧ t.left = true ∧ t.done = false) ∧
    ((∀ t ∈ s.threads, t.done = true) → ∀ key, key ∉ s.stuck) ∧
    ((∀ t ∈ s.threads, t.done = true) → s.caller = .idle →
      ∀ c, next s (.call c) = some { s with caller := .admitted c }) := by
  have hinv := h.inv
  have hstuck : ∀ key, key ∈ s.stuck ↔
      ∃ t ∈ s.threads, t.key = key ∧ t.left = true ∧ t.done = false := by
    intro key
    rw [hinv.stuck]
    constructor
    · rintro ⟨i, t, ht, hrest⟩
      exact ⟨t, List.mem_of_getElem? ht, hrest⟩
    · rintro ⟨t, ht, hrest⟩
      obtain ⟨i, hi⟩ := List.mem_iff_getElem?.1 ht
      exact ⟨i, t, hi, hrest⟩
  have hfree : (∀ t ∈ s.threads, t.done = true) → ∀ key, key ∉ s.stuck := by
    intro hall key hmem
    obtain ⟨t, ht, -, -, hdone⟩ := (hstuck key).1 hmem
    rw [hall t ht] at hdone
    cases hdone
  refine ⟨?_, hstuck, hfree, ?_⟩
  · intro s' hs
    cases next_step hs with
    | @spawn c hc =>
        refine ⟨c, rfl, ?_⟩
        intro t ht hkey
        obtain ⟨i, hi⟩ := List.mem_iff_getElem?.1 ht
        exact hinv.not_running hi (hinv.alone hc hi hkey)
  · intro hall hc c
    simp only [next, hc, State.admitCall, if_neg (hfree hall c.key)]

/-- A thread left behind, and then through. -/
theorem threads_never_pile_up_left :
    ∃ s, Reachable s ∧ s.stuck = ["k"] ∧
      (∃ t ∈ s.threads, t.key = "k" ∧ t.left = true ∧ t.done = false) ∧
      ∃ s', Reachable s' ∧ s'.threads.length = 1 ∧ "k" ∉ s'.stuck := by
  let c : Command := ⟨.cfunOnline, "k", TOTAL_WAIT⟩
  have hspawned : Reachable ((State.admitCall {} c).spawn c) :=
    .tail (.tail (.refl _) (.call c) trivial rfl) .spawn trivial rfl
  have hleft : Reachable ((State.leave { (State.admitCall {} c).spawn c with
      caller := .expired c 0 } c 0 { key := "k" })) :=
    .tail (.tail hspawned .expire trivial rfl) .leave trivial rfl
  have hthrough := Exec.tail (.tail hleft (.commandEnds 0 (.ok "OK")) trivial rfl) (.finish 0)
    trivial rfl
  refine ⟨_, hleft, rfl, ?_, _, hthrough, rfl, ?_⟩
  · exact ((threads_never_pile_up hleft).2.1 "k").1 (List.mem_singleton_self _)
  · refine (threads_never_pile_up hthrough).2.2.1 ?_ "k"
    intro t ht
    rw [List.mem_singleton.1 ht]

end Datad.At
