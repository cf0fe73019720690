/-
  Datad/Collect/Invalidation.lean
  ===============================
  **Dropping the SMS entries of the cache** (`invalidate_sms_cache` of `state.rs`).

  An SMS event drops the entries and asks for a round, which is to read everything
  anew.  A request that is in flight at that moment stores its answer afterwards, with a
  full time to live, and the round finds it.  Without such a request every SMS entry is
  younger than the last event.
-/
import Datad.Collect.Health

namespace Datad.Collect

open Hub Transition Ubus

/-! ### Served replies -/

/-- When the reply that the cache served for a read was asked for. -/
def Got.served (g : Got) : Option Nat :=
  match g.origin with
  | .hit issued => some issued
  | .skipped issued => issued
  | .answered => none

/-- The reply was asked for before an invalidation after which the read began. -/
def Got.stale (g : Got) : Bool := g.served.any fun issued => decide (issued < g.begun)

/-- All that the rounds have read. -/
def State.reads (s : State) : List (Read × Got) :=
  s.rounds.flatMap Round.done ++ s.finished.flatten

/-- No read of SMS data that began after an invalidation was served from the cache what
    was asked for before it. -/
def State.Dropped (s : State) : Prop :=
  ∀ p ∈ s.reads, isSmsKey p.1.key = true → p.2.stale = false

/-! ### Requests in flight -/

/-- From the request until the answer is stored. -/
def Stage.inFlight : Stage → Bool
  | .waiting .. => true
  | .storing .. => true
  | _ => false

def Round.smsInFlight (r : Round) : Bool :=
  r.todo.head?.any (fun read => isSmsKey read.key) && r.stage.inFlight

def State.smsInFlight (s : State) : Bool := s.rounds.any Round.smsInFlight

/-- The SMS entries are dropped at a moment when no SMS request is in flight. -/
def Quiet (s : State) (a : Act) : Prop := a = .invalidateSms → s.smsInFlight = false

/-! ### The invariant -/

/-- The read began by now, and a request that is in flight for SMS data went out since the
    last invalidation. -/
def Stage.Current (n : Nat) (sms : Bool) : Stage → Prop
  | .idle => True
  | .begun b => b ≤ n
  | .missed b => b ≤ n
  | .waiting b i => b ≤ n ∧ (sms = true → i = n)
  | .storing b i _ => b ≤ n ∧ (sms = true → i = n)

def Round.Current (n : Nat) (r : Round) : Prop :=
  ∀ read ∈ r.todo.head?, r.stage.Current n (isSmsKey read.key)

structure State.Current (s : State) : Prop where
  cache : ∀ key e, isSmsKey key = true → s.cache key = some e → e.issued = s.invalidations
  rounds : ∀ r ∈ s.rounds, r.Current s.invalidations
  reads : s.Dropped

theorem mem_reads {s : State} {p : Read × Got} :
    p ∈ s.reads ↔ (∃ r ∈ s.rounds, p ∈ r.done) ∨ ∃ d ∈ s.finished, p ∈ d := by
  rw [State.reads, List.mem_append, List.mem_flatMap, List.mem_flatten]

theorem issued_of_cacheGet {c : Cache} {key : Invocation} {now : Instant} {e : Cached}
    (h : cacheGet c key now = some e) : c key = some e := by
  rw [cacheGet, Option.bind_eq_some_iff] at h
  obtain ⟨e', he, h⟩ := h
  split_ifs at h with hlt
  cases h
  exact he

theorem issued_of_cacheLastOk {c : Cache} {key : Invocation} {p : Value × Nat}
    (h : cacheLastOk c key = some p) : ∃ e, c key = some e ∧ e.issued = p.2 := by
  rw [cacheLastOk, Option.bind_eq_some_iff] at h
  obtain ⟨e, he, h⟩ := h
  split at h
  · cases h
    exact ⟨e, he, rfl⟩
  · cases h

/-- What a read returns was asked for since the last invalidation. -/
theorem gives_not_stale {enabled : Bool} {s : State} {read : Read} {st : Stage} {a : Act}
    {g : Got} {c : Cache} (hs : s.Current) (hsms : isSmsKey read.key = true)
    (hst : st.Current s.invalidations (isSmsKey read.key))
    (h : Gives enabled s read st a g c) : g.stale = false := by
  cases h with
  | hit b e he =>
    have hissued := hs.cache read.key e hsms (issued_of_cacheGet he)
    have hb : b ≤ s.invalidations := hst
    simp [Got.stale, Got.served, hissued, hb]
  | skip b i object previous hp =>
    have hb : b ≤ s.invalidations := hst.1
    rcases previous with _ | p
    · rfl
    · obtain ⟨e, he, hi⟩ := issued_of_cacheLastOk (hp p rfl)
      have hissued := hs.cache read.key e hsms he
      simp [Got.stale, Got.served, ← hi, hissued, hb]
  | answer b i answer v => rfl
  | put b i v ttl => rfl

theorem gives_cache {enabled : Bool} {s : State} {read : Read} {st : Stage} {a : Act}
    {g : Got} {c : Cache} (hs : s.Current)
    (hst : st.Current s.invalidations (isSmsKey read.key))
    (h : Gives enabled s read st a g c) (key : Invocation) (e : Cached)
    (hsms : isSmsKey key = true) (he : c key = some e) : e.issued = s.invalidations := by
  cases h with
  | hit b e' he' => exact hs.cache key e hsms he
  | skip b i object previous hp => exact hs.cache key e hsms he
  | answer b i answer v => exact hs.cache key e hsms he
  | put b i v ttl =>
    rw [cachePut] at he
    split_ifs at he with hk
    · cases he
      exact hst.2 (hk ▸ hsms)
    · exact hs.cache key e hsms he

theorem goes_current {enabled : Bool} {s : State} {read : Read} {st st' : Stage} {a : Act}
    (hst : st.Current s.invalidations (isSmsKey read.key))
    (h : Goes enabled s read st a st') :
    st'.Current s.invalidations (isSmsKey read.key) := by
  cases h with
  | begin => exact Nat.le_refl _
  | miss b => exact hst
  | request b => exact ⟨hst, fun _ => rfl⟩
  | reply b i answer => exact hst

/-- Another invalidation does not concern a round that has no SMS request in flight. -/
theorem Round.Current.succ {n : Nat} {r : Round} (h : r.Current n)
    (hq : r.smsInFlight = false) : r.Current (n + 1) := by
  intro read hread
  have hcur := h read hread
  rw [Option.mem_def] at hread
  rw [Round.smsInFlight, hread, Option.any_some, Bool.and_eq_false_iff] at hq
  cases hst : r.stage with
  | idle => exact trivial
  | begun b =>
    rw [hst] at hcur
    exact Nat.le_succ_of_le hcur
  | missed b =>
    rw [hst] at hcur
    exact Nat.le_succ_of_le hcur
  | waiting b i =>
    rw [hst] at hcur hq
    refine ⟨Nat.le_succ_of_le hcur.1, fun hsms => ?_⟩
    rcases hq with hq | hq
    · rw [hsms] at hq
      cases hq
    · cases hq
  | storing b i v =>
    rw [hst] at hcur hq
    refine ⟨Nat.le_succ_of_le hcur.1, fun hsms => ?_⟩
    rcases hq with hq | hq
    · rw [hsms] at hq
      cases hq
    · cases hq

theorem Quiet.rounds {s : State} (h : Quiet s .invalidateSms) :
    ∀ r ∈ s.rounds, r.smsInFlight = false := by
  have hq := h rfl
  rw [State.smsInFlight, List.any_eq_false] at hq
  intro r hr
  simpa using hq r hr

theorem current_step {enabled : Bool} {s s' : State} {a : Act} (hs : s.Current)
    (hq : Quiet s a) (h : Step enabled s a s') : s'.Current := by
  cases h with
  | wait d => exact ⟨hs.cache, hs.rounds, hs.reads⟩
  | invalidate => exact ⟨fun key e _ he => (by cases he), hs.rounds, hs.reads⟩
  | invalidateSms =>
    refine ⟨?_, fun r hr => (hs.rounds r hr).succ (hq.rounds r hr), hs.reads⟩
    intro key e hsms he
    simp only [hsms, if_true] at he
    cases he
  | start =>
    refine ⟨hs.cache, ?_, hs.reads⟩
    intro r hr
    rcases List.mem_cons.mp hr with rfl | hr
    · exact fun _ _ => trivial
    · exact hs.rounds r hr
  | goes read rest st st' done rounds hr h =>
    have hrounds := hs.rounds
    rw [hr, List.forall_mem_cons] at hrounds
    have hst := goes_current (hrounds.1 read rfl) h
    refine ⟨hs.cache, List.forall_mem_cons.mpr ⟨?_, hrounds.2⟩, ?_⟩
    · intro read' hread'
      cases hread'
      exact hst
    · intro p hp
      apply hs.reads p
      rw [mem_reads] at hp ⊢
      rw [hr]
      simpa using hp
  | gives read rest st done rounds g c hr h =>
    have hrounds := hs.rounds
    rw [hr, List.forall_mem_cons] at hrounds
    have hst := hrounds.1 read rfl
    have hcache := gives_cache hs hst h
    refine ⟨hcache, List.forall_mem_cons.mpr ⟨?_, hrounds.2⟩, ?_⟩
    · exact fun _ _ => trivial
    · intro p hp hsms
      have hcases : p ∈ s.reads ∨ p = (read, g) := by
        rw [mem_reads] at hp ⊢
        rw [hr]
        simp only [List.mem_cons, exists_eq_or_imp, List.mem_append, List.not_mem_nil,
          or_false] at hp ⊢
        rcases hp with ((hp | hp) | hp) | hp
        · exact .inl (.inl (.inl hp))
        · exact .inr hp
        · exact .inl (.inl (.inr hp))
        · exact .inl (.inr hp)
      rcases hcases with hp | rfl
      · exact hs.reads p hp hsms
      · exact gives_not_stale hs hsms hst h
  | finish st done rounds hr =>
    have hrounds := hs.rounds
    rw [hr, List.forall_mem_cons] at hrounds
    refine ⟨hs.cache, hrounds.2, ?_⟩
    intro p hp
    apply hs.reads p
    rw [mem_reads] at hp ⊢
    rw [hr]
    simp only [List.mem_cons, List.mem_append, List.not_mem_nil, or_false, or_and_right,
      exists_or, exists_eq_left] at hp ⊢
    rcases hp with hp | hp | hp
    · exact .inl (.inr hp)
    · exact .inr hp
    · exact .inl (.inl hp)

/-- **Invalidation is not undone.**  In every run that drops the SMS entries only while no
    SMS request is in flight, no reply from before is served after. -/
theorem sms_dropped {enabled : Bool} {s : State}
    (h : Exec (State.next enabled) Quiet {} s) : s.Dropped := by
  refine (h.invariant State.Current (fun hs hq hn => current_step hs hq (next_step hn)) ?_).reads
  constructor
  · intro key e _ he
    cases he
  · exact fun r hr => absurd hr List.not_mem_nil
  · exact fun p hp => absurd hp List.not_mem_nil

/-! ### A reply that outlives the event -/

def empties (_ : Read) : CallAnswer := .ok (.obj [])

/-- The reads of a round before the first page of messages, and those after it. -/
def readsBefore : List Read := READS.takeWhile fun r => decide (r ≠ .smsNv)

def readsAfter : List Read := (READS.dropWhile fun r => decide (r ≠ .smsNv)).drop 1

/-- The entries that are there after a round and an SMS event. -/
def notSms (r : Read) : Bool := decide (r.ttl ≠ 0) && !isSmsKey r.key

/-- A round, in which an event comes while the first page is being read, and the start of
    the next one. -/
def eventInFlight : List Act :=
  .start :: readsOf (fun _ => false) empties readsBefore ++
    [.begin, .lookup, .request, .invalidateSms, .reply (.ok (.obj [])), .put] ++
    readsOf (fun _ => false) empties readsAfter ++ [.finish] ++
    (.start :: readsOf notSms empties readsBefore) ++ [.begin, .lookup]

/-- An event between two rounds, and a third round. -/
def eventBetween : List Act :=
  roundOf (fun _ => false) empties ++ [.invalidateSms] ++ roundOf notSms empties ++
    roundOf (fun r => decide (r.ttl ≠ 0)) empties

def anyStale (s : State) : Bool := s.reads.any fun p => isSmsKey p.1.key && p.2.stale

/-- A read that began after an event was served from the cache. -/
def anyServed (s : State) : Bool :=
  s.reads.any fun p => isSmsKey p.1.key && p.2.served.isSome && decide (0 < p.2.begun)

def quietTest (s : State) : Act → Bool
  | .invalidateSms => !s.smsInFlight
  | _ => true

theorem quiet_of_quietTest (s : State) (a : Act) (h : quietTest s a = true) : Quiet s a := by
  rintro rfl
  simpa [quietTest] using h

/-- The event comes between two rounds: the second asks anew, and the third is served what
    the second has stored. -/
theorem sms_dropped_between :
    ∃ s, Exec (State.next true) Quiet {} s ∧ anyServed s = true ∧ s.Dropped := by
  have hrun : (run (State.next true) quietTest {} eventBetween).any anyServed = true := by
    decide +kernel
  obtain ⟨s, hs, hp⟩ := Exec.exists_of_run quiet_of_quietTest (.refl _) hrun
  exact ⟨s, hs, hp, sms_dropped hs⟩

/-- The event comes while the first page is being read: the next round, which the event
    asks for, is served the reply from before. -/
theorem sms_undone :
    ∃ s, Exec (State.next true) (fun _ _ => True) {} s ∧ ¬ s.Dropped := by
  have hrun : (run (State.next true) (fun _ _ => true) {} eventInFlight).any anyStale = true := by
    decide +kernel
  obtain ⟨s, hs, hp⟩ := Exec.exists_of_run (fun _ _ _ => trivial) (.refl _) hrun
  refine ⟨s, hs, fun hdropped => ?_⟩
  obtain ⟨p, hmem, hstale⟩ := List.any_eq_true.mp hp
  rw [Bool.and_eq_true] at hstale
  rw [hdropped p hmem hstale.1] at hstale
  cases hstale.2

end Datad.Collect
