/-
  Datad/Server/LegacyHits.lean
  ============================
  **The counters of the old interface: `hit`, `flush` and `write_atomic`.**

  The book is changed under its lock.  A flush serialises it under the lock and writes the
  file outside, on a blocking thread of its own, so several flushes can be on their way at
  once; all write one temporary file before they rename it.  A critical section is one
  step here, and so is each of the two file operations, which do not fail: a flush whose
  temporary file another has renamed away goes no further.

  The file is the `Saved` that its text stands for.
-/
import Datad.Lib.Slots
import Datad.Lib.Transition

namespace Datad.LegacyHits

open Transition

def MAX_KEYS : Nat := 256
def MAX_CALLERS : Nat := 4
/-- Milliseconds. -/
def RESOLVE_EVERY : Nat := 5000
def SAVE_EVERY : Nat := 60000

/-! ### The book -/

structure Hit where
  count : Nat := 0
  first : Int := 0
  last : Int := 0
  callers : List String := []
deriving DecidableEq

/-- What the file holds; the map is a list in which a key occurs once. -/
structure Saved where
  since : Int
  hits : List (String × Hit) := []
deriving DecidableEq

/-- The counts of a key: all but who called. -/
def Hit.counts (h : Hit) : Nat × Int × Int := (h.count, h.first, h.last)

def Saved.counts (s : Saved) : List (String × Nat × Int × Int) :=
  s.hits.map fun p => (p.1, p.2.counts)

structure Book where
  saved : Saved
  dirty : Bool
  lastSave : Option Nat := none
  lastResolve : List (String × Nat) := []

def Saved.get? (s : Saved) (key : String) : Option Hit := (s.hits.find? (·.1 = key)).map Prod.snd

/-- Change the entry of a key that has one. -/
def Saved.modify (s : Saved) (key : String) (f : Hit → Hit) : Saved :=
  { s with hits := s.hits.map fun p => if p.1 = key then (p.1, f p.2) else p }

/-- `entry(key).or_default()`, changed. -/
def Saved.upsert (s : Saved) (key : String) (f : Hit → Hit) : Saved :=
  if (s.get? key).isSome then s.modify key f else { s with hits := s.hits ++ [(key, f {})] }

/-- One hit more, at the time `t`. -/
def Hit.touch (t : Int) (h : Hit) : Hit :=
  { h with count := h.count + 1, first := if h.count = 0 then t else h.first, last := t }

def Hit.addCaller (caller : String) (h : Hit) : Hit :=
  { h with callers := (caller :: h.callers.filter (· ≠ caller)).take MAX_CALLERS }

/-- Too many keys are counted as one. -/
def Book.key (b : Book) (key : String) : String :=
  if (b.saved.get? key).isSome ∨ b.saved.hits.length < MAX_KEYS then key else "control:(other)"

/-- Is the caller to be looked up? -/
def Book.due (b : Book) (key : String) (peer : Bool) (at' : Nat) : Bool :=
  peer && match (b.lastResolve.find? (·.1 = key)).map Prod.snd with
    | none => true
    | some before => RESOLVE_EVERY ≤ at' - before

def Book.touch (b : Book) (key : String) (t : Int) (due : Bool) (at' : Nat) : Book :=
  { b with
    saved := b.saved.upsert key (Hit.touch t)
    dirty := true
    lastResolve := if due then (key, at') :: b.lastResolve.filter (·.1 ≠ key) else b.lastResolve }

/-- Does a flush that has the lock serialise the book? -/
def Book.saves (b : Book) (force : Bool) (at' : Nat) : Bool :=
  b.dirty && (force || match b.lastSave with
    | none => true
    | some before => SAVE_EVERY ≤ at' - before)

/-! ### The threads -/

/-- A serialised book; `nth` counts how many have been serialised. -/
structure Snapshot where
  nth : Nat
  saved : Saved
deriving DecidableEq

/-- A blocking thread. -/
inductive Task where
  /-- Looking up who called. -/
  | describing (key : String) (newKey : Bool)
  /-- In front of the lock of `flush`. -/
  | flushing (force : Bool)
  | serialised (snap : Snapshot)
  /-- The temporary file is written. -/
  | written (snap : Snapshot)
  | over
deriving DecidableEq

/-- A flush between its critical section and the end of its file operations. -/
def Task.inFlight? : Task → Option Snapshot
  | .serialised snap => some snap
  | .written snap => some snap
  | _ => none

structure State where
  book : Book
  taken : Nat := 0
  tmp : Option Snapshot := none
  file : Option Snapshot := none
  tasks : List Task := []

inductive Act where
  /-- A request, at the time `t` and the instant `at'`, with or without a peer. -/
  | hit (key : String) (peer : Bool) (t : Int) (at' : Nat)
  | described (i : Nat) (caller : String)
  | flush (force : Bool)
  | serialise (i : Nat) (at' : Nat)
  | write (i : Nat)
  | rename (i : Nat)

def State.setTask (s : State) (i : Nat) (task : Task) : State :=
  { s with tasks := s.tasks.set i task }

/-- `hit`: what is left to do after the critical section is a thread's, if anything. -/
def State.hit (s : State) (key : String) (peer : Bool) (t : Int) (at' : Nat) : State :=
  let key := s.book.key key
  let newKey := (s.book.saved.get? key).isNone
  let due := s.book.due key peer at'
  { s with
    book := s.book.touch key t due at'
    tasks := s.tasks ++
      if due then [.describing key newKey] else if newKey then [.flushing newKey] else [] }

def State.describe (s : State) (i : Nat) (key : String) (newKey : Bool) (caller : String) : State :=
  { s.setTask i (.flushing newKey) with
    book := { s.book with saved := s.book.saved.modify key (Hit.addCaller caller) } }

/-- The critical section of `flush`. -/
def State.serialise (s : State) (i : Nat) (force : Bool) (at' : Nat) : State :=
  if s.book.saves force at' then
    { s.setTask i (.serialised ⟨s.taken + 1, s.book.saved⟩) with
      book := { s.book with dirty := false, lastSave := some at' }
      taken := s.taken + 1 }
  else s.setTask i .over

def next (s : State) : Act → Option State
  | .hit key peer t at' => some (s.hit key peer t at')
  | .described i caller =>
      match s.tasks[i]? with
      | some (.describing key newKey) => some (s.describe i key newKey caller)
      | _ => none
  | .flush force => some { s with tasks := s.tasks ++ [.flushing force] }
  | .serialise i at' =>
      match s.tasks[i]? with
      | some (.flushing force) => some (s.serialise i force at')
      | _ => none
  | .write i =>
      match s.tasks[i]? with
      | some (.serialised snap) => some { s.setTask i (.written snap) with tmp := some snap }
      | _ => none
  | .rename i =>
      match s.tasks[i]?, s.tmp with
      | some (.written _), some snap =>
          some { s.setTask i .over with tmp := none, file := some snap }
      | _, _ => none

/-- As `init` leaves it: the book is what the file holds, or dirty. -/
structure State.Starts (s : State) : Prop where
  taken : s.taken = 0
  tasks : s.tasks = []
  file : s.book.dirty = false → ∃ snap, s.file = some snap ∧ snap.saved = s.book.saved
  nth : ∀ snap, s.file = some snap → snap.nth = 0

/-- No flush is in progress. -/
def State.Quiet (s : State) : Prop := ∀ task ∈ s.tasks, task.inFlight? = none

/-- The file holds the counts. -/
def State.Saved (s : State) : Prop :=
  ∃ snap, s.file = some snap ∧ snap.saved.counts = s.book.saved.counts

/-- The thread `i` is in a flush that has serialised `snap`. -/
def State.InFlight (s : State) (i : Nat) (snap : Snapshot) : Prop :=
  ∃ task, s.tasks[i]? = some task ∧ task.inFlight? = some snap

/-- A flush writes its file only when those that serialised before it are through. -/
def Orderly (s : State) : Act → Prop
  | .write i => ∀ snap, s.tasks[i]? = some (.serialised snap) →
      ∀ j other, s.InFlight j other → snap.nth ≤ other.nth
  | _ => True

/-! ### What a step does -/

variable {s s' : State} {a : Act}

inductive Step (s : State) : Act → State → Prop where
  | hit {key : String} {peer : Bool} {t : Int} {at' : Nat} :
      Step s (.hit key peer t at') (s.hit key peer t at')
  | described {i : Nat} {caller key : String} {newKey : Bool}
      (ht : s.tasks[i]? = some (.describing key newKey)) :
      Step s (.described i caller) (s.describe i key newKey caller)
  | flush {force : Bool} : Step s (.flush force) { s with tasks := s.tasks ++ [.flushing force] }
  | serialise {i at' : Nat} {force : Bool} (ht : s.tasks[i]? = some (.flushing force)) :
      Step s (.serialise i at') (s.serialise i force at')
  | write {i : Nat} {snap : Snapshot} (ht : s.tasks[i]? = some (.serialised snap)) :
      Step s (.write i) { s.setTask i (.written snap) with tmp := some snap }
  | rename {i : Nat} {snap own : Snapshot} (ht : s.tasks[i]? = some (.written own))
      (htmp : s.tmp = some snap) :
      Step s (.rename i) { s.setTask i .over with tmp := none, file := some snap }

theorem next_step (h : next s a = some s') : Step s a s' := by
  cases a with
  | hit key peer t at' =>
      cases h
      exact .hit
  | described i caller =>
      simp only [next] at h
      split at h <;> cases h
      exact .described ‹_›
  | flush force =>
      cases h
      exact .flush
  | serialise i at' =>
      simp only [next] at h
      split at h <;> cases h
      exact .serialise ‹_›
  | write i =>
      simp only [next] at h
      split at h <;> cases h
      exact .write ‹_›
  | rename i =>
      simp only [next] at h
      split at h <;> cases h
      exact .rename ‹_› ‹_›

/-! ### Counts and flushes in progress -/

theorem counts_addCaller (saved : Saved) (key caller : String) :
    (saved.modify key (Hit.addCaller caller)).counts = saved.counts := by
  simp only [Saved.counts, Saved.modify, List.map_map]
  refine List.map_congr_left fun p _ => ?_
  by_cases hp : p.1 = key
  · simp [hp, Hit.addCaller, Hit.counts]
  · simp [hp]

variable {i j : Nat} {snap : Snapshot}

/-- No flush starts or ends when one that is in none of them is put for another. -/
theorem inFlight_set {tasks : List Task} {t t₀ : Task} (h₀ : tasks[i]? = some t₀)
    (hsame : t.inFlight? = t₀.inFlight?) :
    (∃ task, (tasks.set i t)[j]? = some task ∧ task.inFlight? = some snap) ↔
      ∃ task, tasks[j]? = some task ∧ task.inFlight? = some snap := by
  constructor
  · rintro ⟨task, htask, hsnap⟩
    rcases (Slots.set_iff h₀).1 htask with ⟨rfl, rfl⟩ | ⟨-, htask⟩
    · exact ⟨t₀, h₀, hsame ▸ hsnap⟩
    · exact ⟨task, htask, hsnap⟩
  · rintro ⟨task, htask, hsnap⟩
    by_cases hj : j = i
    · subst hj
      rw [h₀] at htask
      cases htask
      exact ⟨t, (Slots.set_iff h₀).2 (.inl ⟨rfl, rfl⟩), hsame ▸ hsnap⟩
    · exact ⟨task, (Slots.set_iff h₀).2 (.inr ⟨hj, htask⟩), hsnap⟩

theorem inFlight_append {tasks more : List Task} (hmore : ∀ t ∈ more, t.inFlight? = none) :
    (∃ task, (tasks ++ more)[j]? = some task ∧ task.inFlight? = some snap) ↔
      ∃ task, tasks[j]? = some task ∧ task.inFlight? = some snap := by
  constructor
  · rintro ⟨task, htask, hsnap⟩
    rw [List.getElem?_append] at htask
    split at htask
    · exact ⟨task, htask, hsnap⟩
    · rw [hmore task (List.mem_of_getElem? htask)] at hsnap
      cases hsnap
  · rintro ⟨task, htask, hsnap⟩
    refine ⟨task, ?_, hsnap⟩
    rw [List.getElem?_append_left (List.getElem?_eq_some_iff.1 htask).1, htask]

theorem written_append {tasks more : List Task} (hmore : ∀ t ∈ more, t.inFlight? = none)
    (h : (tasks ++ more)[j]? = some (.written snap)) : tasks[j]? = some (.written snap) := by
  rw [List.getElem?_append] at h
  split at h
  · exact h
  · cases hmore _ (List.mem_of_getElem? h)

/-! ### The invariant -/

structure Inv (s : State) : Prop where
  nth_le : ∀ i snap, s.InFlight i snap → snap.nth ≤ s.taken
  apart : ∀ i j snap snap', s.InFlight i snap → s.InFlight j snap' → snap.nth = snap'.nth → i = j
  file_le : ∀ file, s.file = some file → file.nth ≤ s.taken
  /-- What is on its way is newer than the file. -/
  file_lt : ∀ file i snap, s.file = some file → s.InFlight i snap → file.nth < snap.nth
  /-- Who has written the temporary file is the first on the way, and finds it as it was
      written. -/
  tmp : ∀ (i : Nat) (snap : Snapshot), s.tasks[i]? = some (.written snap) →
    s.tmp = some snap ∧ ∀ j other, s.InFlight j other → snap.nth ≤ other.nth
  /-- Unless the book has changed, the newest snapshot has its counts. -/
  newest : s.book.dirty = false →
    (∃ i snap, s.InFlight i snap ∧ snap.nth = s.taken ∧ snap.saved.counts = s.book.saved.counts) ∨
    ∃ file, s.file = some file ∧ file.nth = s.taken ∧ file.saved.counts = s.book.saved.counts

theorem Inv.init (h : s.Starts) : Inv s := by
  have hnone : ∀ i snap, ¬s.InFlight i snap := by
    rintro i snap ⟨task, htask, -⟩
    rw [h.tasks] at htask
    cases htask
  constructor
  · intro i snap hfl
    exact absurd hfl (hnone i snap)
  · intro i j snap snap' hfl
    exact absurd hfl (hnone i snap)
  · intro file hfile
    rw [h.nth file hfile]
    exact Nat.zero_le _
  · intro file i snap _ hfl
    exact absurd hfl (hnone i snap)
  · intro i snap htask
    rw [h.tasks] at htask
    cases htask
  · intro hclean
    obtain ⟨file, hfile, hsaved⟩ := h.file hclean
    exact .inr ⟨file, hfile, (h.nth file hfile).trans h.taken.symm, by rw [hsaved]⟩

/-- A step that leaves flushes, files and counts alone. -/
theorem Inv.frame (h : Inv s) (htaken : s'.taken = s.taken) (htmp : s'.tmp = s.tmp)
    (hfile : s'.file = s.file) (hfl : ∀ i snap, s'.InFlight i snap ↔ s.InFlight i snap)
    (hwritten : ∀ (i : Nat) (snap : Snapshot), s'.tasks[i]? = some (.written snap) →
      s.tasks[i]? = some (.written snap))
    (hbook : s'.book.dirty = false →
      s.book.dirty = false ∧ s'.book.saved.counts = s.book.saved.counts) : Inv s' := by
  constructor
  · intro i snap hi
    rw [htaken]
    exact h.nth_le i snap ((hfl i snap).1 hi)
  · intro i j snap snap' hi hj
    exact h.apart i j snap snap' ((hfl i snap).1 hi) ((hfl j snap').1 hj)
  · intro file hf
    rw [htaken]
    exact h.file_le file (hfile ▸ hf)
  · intro file i snap hf hi
    exact h.file_lt file i snap (hfile ▸ hf) ((hfl i snap).1 hi)
  · intro i snap hi
    obtain ⟨ht, hfirst⟩ := h.tmp i snap (hwritten i snap hi)
    refine ⟨htmp.trans ht, ?_⟩
    intro j other hj
    exact hfirst j other ((hfl j other).1 hj)
  · intro hclean
    obtain ⟨hclean, hcounts⟩ := hbook hclean
    rw [htaken, hfile, hcounts]
    rcases h.newest hclean with ⟨i, snap, hi, hrest⟩ | hf
    · exact .inl ⟨i, snap, (hfl i snap).2 hi, hrest⟩
    · exact .inr hf

theorem Inv.append (h : Inv s) {more : List Task} (hmore : ∀ t ∈ more, t.inFlight? = none)
    {book : Book} (hbook : book.dirty = false →
      s.book.dirty = false ∧ book.saved.counts = s.book.saved.counts) :
    Inv { s with book := book, tasks := s.tasks ++ more } :=
  h.frame rfl rfl rfl (fun _ _ => inFlight_append hmore) (fun _ _ => written_append hmore) hbook

/-- A thread that is in no flush goes on, and is in none. -/
theorem Inv.setTask (h : Inv s) {t t₀ : Task} (h₀ : s.tasks[i]? = some t₀)
    (hbefore : t₀.inFlight? = none) (hafter : t.inFlight? = none) {book : Book}
    (hbook : book.dirty = false →
      s.book.dirty = false ∧ book.saved.counts = s.book.saved.counts) :
    Inv { s.setTask i t with book := book } := by
  refine h.frame rfl rfl rfl (fun _ _ => inFlight_set h₀ (hafter.trans hbefore.symm)) ?_ hbook
  intro j snap hj
  rcases (Slots.set_iff h₀).1 hj with ⟨-, heq⟩ | ⟨-, hj⟩
  · rw [← heq] at hafter
    cases hafter
  · exact hj

theorem Inv.serialise (h : Inv s) {at' : Nat} {force : Bool}
    (ht : s.tasks[i]? = some (.flushing force)) : Inv (s.serialise i force at') := by
  rw [State.serialise]
  split
  · -- the new snapshot is newer than all others, and has the counts of the book
    have hnew : ∀ j snap, State.InFlight
        { s.setTask i (.serialised ⟨s.taken + 1, s.book.saved⟩) with
          book := { s.book with dirty := false, lastSave := some at' }
          taken := s.taken + 1 } j snap →
        (j = i ∧ snap = ⟨s.taken + 1, s.book.saved⟩) ∨ (j ≠ i ∧ s.InFlight j snap) := by
      rintro j snap ⟨task, htask, hsnap⟩
      rcases (Slots.set_iff ht).1 htask with ⟨rfl, rfl⟩ | ⟨hj, htask⟩
      · exact .inl ⟨rfl, (Option.some.inj hsnap).symm⟩
      · exact .inr ⟨hj, task, htask, hsnap⟩
    constructor
    · intro j snap hj
      rcases hnew j snap hj with ⟨rfl, rfl⟩ | ⟨-, hj⟩
      · exact Nat.le_refl _
      · exact Nat.le_succ_of_le (h.nth_le j snap hj)
    · intro j k snap snap' hj hk heq
      rcases hnew j snap hj with ⟨rfl, rfl⟩ | ⟨-, hold⟩
      · rcases hnew k snap' hk with ⟨rfl, -⟩ | ⟨-, hk⟩
        · rfl
        · have hle := h.nth_le k snap' hk
          change s.taken + 1 = _ at heq
          omega
      · rcases hnew k snap' hk with ⟨rfl, rfl⟩ | ⟨-, hk⟩
        · have hle := h.nth_le j snap hold
          change _ = s.taken + 1 at heq
          omega
        · exact h.apart j k snap snap' hold hk heq
    · intro file hf
      exact Nat.le_succ_of_le (h.file_le file hf)
    · intro file j snap hf hj
      rcases hnew j snap hj with ⟨rfl, rfl⟩ | ⟨-, hj⟩
      · exact Nat.lt_succ_of_le (h.file_le file hf)
      · exact h.file_lt file j snap hf hj
    · intro j snap hj
      rcases (Slots.set_iff ht).1 hj with ⟨-, heq⟩ | ⟨-, hold⟩
      · cases heq
      obtain ⟨htmp, hfirst⟩ := h.tmp j snap hold
      refine ⟨htmp, ?_⟩
      intro k other hk
      rcases hnew k other hk with ⟨rfl, rfl⟩ | ⟨-, hk⟩
      · exact Nat.le_succ_of_le (h.nth_le j snap ⟨_, hold, rfl⟩)
      · exact hfirst k other hk
    · intro _
      exact .inl ⟨i, _, ⟨_, (Slots.set_iff ht).2 (.inl ⟨rfl, rfl⟩), rfl⟩, rfl, rfl⟩
  · exact h.setTask ht rfl rfl fun hclean => ⟨hclean, rfl⟩

/-- Of two flushes that may write, the first only does. -/
theorem Inv.write (h : Inv s) (ht : s.tasks[i]? = some (.serialised snap))
    (hok : Orderly s (.write i)) :
    Inv { s.setTask i (.written snap) with tmp := some snap } := by
  have hfl : ∀ j other,
      State.InFlight { s.setTask i (.written snap) with tmp := some snap } j other ↔
      s.InFlight j other := fun j other => inFlight_set ht rfl
  have hfirst := hok snap ht
  constructor
  · intro j other hj
    exact h.nth_le j other ((hfl j other).1 hj)
  · intro j k other other' hj hk
    exact h.apart j k other other' ((hfl j other).1 hj) ((hfl k other').1 hk)
  · exact h.file_le
  · intro file j other hf hj
    exact h.file_lt file j other hf ((hfl j other).1 hj)
  · intro j other hj
    rcases (Slots.set_iff ht).1 hj with ⟨rfl, heq⟩ | ⟨hne, hj⟩
    · cases heq
      exact ⟨rfl, fun k other' hk => hfirst k other' ((hfl k other').1 hk)⟩
    · -- another that has written would be the first as well
      have hle := (h.tmp j other hj).2 i snap ⟨_, ht, rfl⟩
      have hge := hfirst j other ⟨_, hj, rfl⟩
      exact absurd (h.apart j i other snap ⟨_, hj, rfl⟩ ⟨_, ht, rfl⟩ (Nat.le_antisymm hle hge)) hne
  · intro hclean
    rcases h.newest hclean with ⟨j, other, hj, hrest⟩ | hf
    · exact .inl ⟨j, other, (hfl j other).2 hj, hrest⟩
    · exact .inr hf

theorem Inv.rename (h : Inv s) {own : Snapshot} (ht : s.tasks[i]? = some (.written own))
    (htmp : s.tmp = some snap) :
    Inv { s.setTask i .over with tmp := none, file := some snap } := by
  obtain ⟨htmp', hfirst⟩ := h.tmp i own ht
  obtain rfl : own = snap := Option.some.inj (htmp'.symm.trans htmp)
  have hown : s.InFlight i own := ⟨_, ht, rfl⟩
  have hfl : ∀ j other,
      State.InFlight { s.setTask i .over with tmp := none, file := some own } j other →
      j ≠ i ∧ s.InFlight j other := by
    rintro j other ⟨task, htask, hother⟩
    rcases (Slots.set_iff ht).1 htask with ⟨rfl, rfl⟩ | ⟨hj, htask⟩
    · cases hother
    · exact ⟨hj, task, htask, hother⟩
  constructor
  · intro j other hj
    exact h.nth_le j other (hfl j other hj).2
  · intro j k other other' hj hk
    exact h.apart j k other other' (hfl j other hj).2 (hfl k other' hk).2
  · intro file hf
    cases hf
    exact h.nth_le i own hown
  · intro file j other hf hj
    cases hf
    obtain ⟨hne, hj⟩ := hfl j other hj
    refine Nat.lt_of_le_of_ne (hfirst j other hj) ?_
    intro heq
    exact hne (h.apart j i other own hj hown heq.symm)
  · intro j other hj
    rcases (Slots.set_iff ht).1 hj with ⟨-, heq⟩ | ⟨hne, hj⟩
    · cases heq
    · have hle := (h.tmp j other hj).2 i own hown
      have hge := hfirst j other ⟨_, hj, rfl⟩
      exact absurd (h.apart j i other own ⟨_, hj, rfl⟩ hown (Nat.le_antisymm hle hge)) hne
  · intro hclean
    rcases h.newest hclean with ⟨j, other, hj, hnth, hcounts⟩ | ⟨file, hf, hnth, -⟩
    · by_cases hji : j = i
      · subst hji
        obtain ⟨task, htask, hother⟩ := hj
        rw [ht] at htask
        cases htask
        cases hother
        exact .inr ⟨_, rfl, hnth, hcounts⟩
      · obtain ⟨task, htask, hother⟩ := hj
        exact .inl ⟨j, other, ⟨task, (Slots.set_iff ht).2 (.inr ⟨hji, htask⟩), hother⟩, hnth,
          hcounts⟩
    · -- the file was the newest, so nothing could be on its way
      have hlt := h.file_lt file i own hf hown
      have hle := h.nth_le i own hown
      omega

theorem Inv.step (h : Inv s) (hok : Orderly s a) (hs : next s a = some s') : Inv s' := by
  cases next_step hs with
  | hit =>
      refine h.append ?_ fun hclean => by cases hclean
      intro task htask
      split at htask
      · rw [List.mem_singleton.1 htask]
        rfl
      · split at htask
        · rw [List.mem_singleton.1 htask]
          rfl
        · cases htask
  | described ht =>
      exact h.setTask ht rfl rfl fun hclean => ⟨hclean, counts_addCaller _ _ _⟩
  | flush =>
      refine h.append ?_ fun hclean => ⟨hclean, rfl⟩
      intro task htask
      rw [List.mem_singleton.1 htask]
      rfl
  | serialise ht => exact h.serialise ht
  | write ht => exact h.write ht hok
  | rename ht htmp => exact h.rename ht htmp

/-! ### What is on disk -/

/-- **The file is never rolled back while flushes keep their order.**  If a flush writes
    its file only when those that serialised before it are through, then whenever no flush
    is in progress and the book is not dirty the file has the counts of the book, and no
    file is put over a newer one. -/
theorem file_has_counts {s₀ s : State} (h₀ : s₀.Starts) (h : Exec next Orderly s₀ s) :
    (s.Quiet → s.book.dirty = false → s.Saved) ∧
    (∀ i s' old new, next s (.rename i) = some s' → s.file = some old → s'.file = some new →
      old.nth ≤ new.nth) := by
  have hinv : Inv s := Exec.invariant Inv (fun hi hok hs => hi.step hok hs) h (.init h₀)
  constructor
  · intro hquiet hclean
    rcases hinv.newest hclean with ⟨i, snap, ⟨task, htask, hsnap⟩, -⟩ | ⟨file, hf, -, hcounts⟩
    · rw [hquiet task (List.mem_of_getElem? htask)] at hsnap
      cases hsnap
    · exact ⟨file, hf, hcounts⟩
  · intro i s' old new hs hold hnew
    cases next_step hs with
    | @rename _ snap own ht htmp =>
      have hsnap : snap = new := Option.some.inj hnew
      have hown : own = snap := Option.some.inj ((hinv.tmp i own ht).1.symm.trans htmp)
      rw [← hsnap, ← hown]
      exact Nat.le_of_lt (hinv.file_lt old i own hold ⟨_, ht, rfl⟩)

/-- As `init` finds it, with a file that has no hits. -/
def fresh : State where
  book := { saved := { since := 1 }, dirty := false }
  file := some ⟨0, { since := 1 }⟩

theorem fresh_starts : fresh.Starts where
  taken := rfl
  tasks := rfl
  file _ := ⟨_, rfl, rfl⟩
  nth snap h := by
    cases h
    rfl

theorem file_has_counts_one :
    ∃ s, Exec next Orderly fresh s ∧ s.Saved ∧ s.book.saved.counts = [("/state", 1, 7, 7)] := by
  have hread : Exec next Orderly fresh ((fresh.hit "/state" false 7 0).serialise 0 true 0) :=
    .tail (.tail (.refl _) (.hit "/state" false 7 0) trivial rfl) (.serialise 0 0) trivial rfl
  have horder : Orderly ((fresh.hit "/state" false 7 0).serialise 0 true 0) (.write 0) := by
    intro snap hsnap j other ⟨task, htask, hother⟩
    cases j with
    | zero =>
        rw [hsnap] at htask
        cases htask
        cases hother
        exact Nat.le_refl _
    | succ j => cases htask
  have hrun := Exec.tail (.tail hread (.write 0) horder rfl) (.rename 0) trivial rfl
  refine ⟨_, hrun, (file_has_counts fresh_starts hrun).1 ?_ rfl, rfl⟩
  intro task htask
  rw [List.mem_singleton.1 htask]
  rfl

/-- Two hits; the flush of the first writes after that of the second. -/
def overtaken : List Act :=
  [.hit "/state" false 7 0, .serialise 0 0, .hit "/events" false 8 0, .serialise 1 0,
    .write 1, .rename 1, .write 0, .rename 0]

/-- No flush is in progress, the book is not dirty, and the file has other counts. -/
def State.lost (s : State) : Bool :=
  s.tasks.all (fun task => task.inFlight?.isNone) && !s.book.dirty &&
    decide (s.file.map (fun snap => snap.saved.counts) ≠ some s.book.saved.counts)

/-- The flush that serialised first writes last: the file has lost the second hit, and
    nothing will write it again. -/
theorem file_rolled_back :
    ∃ s₀ s, State.Starts s₀ ∧ Exec next (fun _ _ => True) s₀ s ∧ s.Quiet ∧
      s.book.dirty = false ∧ ¬s.Saved := by
  have hrun : (run next (fun _ _ => true) fresh overtaken).any State.lost = true := by
    decide +kernel
  have hstart : Exec next (fun _ _ => True) fresh fresh := .refl fresh
  obtain ⟨s, hexec, hs⟩ := hstart.exists_of_run (fun _ _ _ => trivial) hrun
  rw [State.lost, Bool.and_eq_true, Bool.and_eq_true, List.all_eq_true, Bool.not_eq_true',
    decide_eq_true_eq] at hs
  obtain ⟨⟨hquiet, hclean⟩, hlost⟩ := hs
  refine ⟨fresh, s, fresh_starts, hexec, ?_, hclean, ?_⟩
  · intro task htask
    exact Option.isNone_iff_eq_none.1 (hquiet task htask)
  · rintro ⟨snap, hfile, hcounts⟩
    rw [hfile] at hlost
    exact hlost (congrArg some hcounts)

end Datad.LegacyHits
