/-
  Datad/Ops/Skips.lean
  ====================
  **Runs of skips** (`Record::append` and `Record::skip` of `record.rs`, and the skip lines
  of `decorate` in `journal_view.rs`).

  Of the skips of one source for one item only the first and the last are recorded: a start
  when the run begins, an end with the count when anything else happens to the item.  A table
  in memory holds the open runs; a restart loses it.  Every line of a key (`Emitted.key`)
  follows the one before it as `Follows` says, for any calls (`coalesced`).  From that, and
  from the order of the lines in the journal, the viewer hides a start exactly where it shows
  the end that belongs to it (`skip_runs`).  It takes the next skip line of the key for that
  end, so no line in between may be missing (`Gapless`); of the journal it always gets the
  newest lines, all of them.
-/
import Datad.Lib.Pairs
import Datad.Ops.JournalView
import Mathlib.Data.List.Chain

namespace Datad

namespace Record

/-! ### The recorder -/

abbrev Key := String × String

/-- The source, and the item or the action. -/
def key (line : Value) : Option Key :=
  match (line.get "source").bind Value.asStr with
  | none => none
  | some source =>
      (((line.get "item").bind Value.asStr).or ((line.get "action").bind Value.asStr)).map
        fun item => (source, item)

def skipLine (k : Key) (reason which : String) (count : Nat) : Value :=
  .ofMembers
    [("source", .str k.1), ("item", .str k.2), ("result", .str "skipped"), ("reason", .str reason),
      ("skip", .str which), ("count", .ofNat count)]

/-- A line before it is stamped. -/
inductive Emitted where
  | start (k : Key) (reason : String)
  | finish (k : Key) (reason : String) (count : Nat)
  | line (v : Value)

def Emitted.value : Emitted → Value
  | .start k reason => skipLine k reason "start" 1
  | .finish k reason count => skipLine k reason "end" count
  | .line v => v

def Emitted.key : Emitted → Option Key
  | .start k _ => some k
  | .finish k _ _ => some k
  | .line v => Record.key v

/-- `RecSt::skips`: the reason and the count of each run that is open. -/
abbrev Skips := Key → Option (String × Nat)

inductive Call where
  | append (line : Value)
  | skip (source item reason : String)

/-- `Record::append`: a line of a key ends the run of the key first. -/
def append (skips : Skips) (line : Value) : Skips × List Emitted :=
  match key line with
  | none => (skips, [.line line])
  | some k =>
      match skips k with
      | some (reason, count) =>
          (Function.update skips k none, [.finish k reason count, .line line])
      | none => (skips, [.line line])

/-- `Record::skip`: one more of the run, or the start of the next. -/
def skip (skips : Skips) (k : Key) (reason : String) : Skips × List Emitted :=
  match skips k with
  | some (r, n) =>
      if r = reason then (Function.update skips k (some (r, n + 1)), [])
      else (Function.update skips k (some (reason, 1)), [.finish k r n, .start k reason])
  | none => (Function.update skips k (some (reason, 1)), [.start k reason])

def call (skips : Skips) : Call → Skips × List Emitted
  | .append line => append skips line
  | .skip source item reason => skip skips (source, item) reason

/-- The recorder of one process: its table, how often it was called, and its lines with the
    number of the call that emitted them. -/
structure Recorder where
  skips : Skips := fun _ => none
  calls : Nat := 0
  log : List (Nat × Emitted) := []

def Recorder.call (r : Recorder) (c : Call) : Recorder where
  skips := (Record.call r.skips c).1
  calls := r.calls + 1
  log := r.log ++ (Record.call r.skips c).2.map (r.calls, ·)

def recorder (cs : List Call) : Recorder := cs.foldl Recorder.call {}

def log (cs : List Call) : List (Nat × Emitted) := (recorder cs).log

theorem recorder_snoc (cs : List Call) (c : Call) :
    recorder (cs ++ [c]) = (recorder cs).call c := List.foldl_append

theorem recorder_calls (cs : List Call) : (recorder cs).calls = cs.length := by
  induction cs using List.reverseRecOn with
  | nil => rfl
  | append_singleton cs c ih => rw [recorder_snoc, Recorder.call, ih, List.length_append]; rfl

theorem log_snoc (cs : List Call) (c : Call) :
    log (cs ++ [c]) = log cs ++ (call (recorder cs).skips c).2.map (cs.length, ·) := by
  rw [log, recorder_snoc, Recorder.call, recorder_calls]
  rfl

theorem skips_snoc (cs : List Call) (c : Call) :
    (recorder (cs ++ [c])).skips = (call (recorder cs).skips c).1 := by
  rw [recorder_snoc]
  rfl

/-! ### Runs -/

/-- The lines of a key. -/
def ofKey (k : Key) (l : List (Nat × Emitted)) : List (Nat × Emitted) :=
  l.filter fun e => decide (e.2.key = some k)

def Call.skips (k : Key) : Call → Bool
  | .skip source item _ => decide ((source, item) = k)
  | .append _ => false

/-- How many of the calls from `a` until before `b` skip the key. -/
def skipsIn (cs : List Call) (k : Key) (a b : Nat) : Nat :=
  ((cs.drop a).take (b - a)).countP (Call.skips k)

def Emitted.isStart : Emitted → Bool
  | .start .. => true
  | _ => false

def Emitted.isFinish : Emitted → Bool
  | .finish .. => true
  | _ => false

/-- Which lines of a key follow each other: after a start its end, with the reason of the
    start and the number of the skips from it on; and an end after nothing else. -/
def Follows (cs : List Call) (k : Key) (x y : Nat × Emitted) : Prop :=
  match x.2, y.2 with
  | .start _ reason, .finish _ r n => r = reason ∧ n = skipsIn cs k x.1 y.1
  | .start .., _ => False
  | _, e => e.isFinish = false

/-- The lines of a key are coalesced. -/
structure Coalesced (cs : List Call) (k : Key) : Prop where
  chain : (ofKey k (log cs)).IsChain (Follows cs k)
  head : ∀ e ∈ (ofKey k (log cs)).head?, e.2.isFinish = false

/-- What the table says of a key: the reason of its last line, if that is a start, and the
    number of the skips from it on. -/
def Open (cs : List Call) (k : Key) : Prop :=
  match (recorder cs).skips k with
  | some (reason, n) => ∃ a, (ofKey k (log cs)).getLast? = some (a, .start k reason) ∧
      a < cs.length ∧ n = skipsIn cs k a cs.length
  | none => ∀ e ∈ (ofKey k (log cs)).getLast?, e.2.isStart = false

/-! ### One call -/

theorem log_lt {cs : List Call} {e : Nat × Emitted} (h : e ∈ log cs) : e.1 < cs.length := by
  induction cs using List.reverseRecOn with
  | nil => cases h
  | append_singleton cs c ih =>
      rw [log_snoc] at h
      rw [List.length_append, List.length_singleton]
      rcases List.mem_append.mp h with h | h
      · have := ih h
        omega
      · obtain ⟨x, -, rfl⟩ := List.mem_map.mp h
        exact Nat.lt_succ_self _

theorem skipsIn_snoc_of_le {cs : List Call} {c : Call} {k : Key} {a b : Nat} (hb : b ≤ cs.length) :
    skipsIn (cs ++ [c]) k a b = skipsIn cs k a b := by
  unfold skipsIn
  congr 1
  by_cases ha : a ≤ b
  · rw [List.drop_append_of_le_length (by omega), List.take_append_of_le_length (by simp; omega)]
  · rw [show b - a = 0 by omega, List.take_zero, List.take_zero]

theorem skipsIn_snoc {cs : List Call} {c : Call} {k : Key} {a : Nat} (ha : a ≤ cs.length) :
    skipsIn (cs ++ [c]) k a (cs.length + 1) =
      skipsIn cs k a cs.length + if c.skips k then 1 else 0 := by
  unfold skipsIn
  have hall : ∀ l : List Call, l.length = cs.length - a → l.take (cs.length - a) = l := by
    intro l hl
    rw [← hl, List.take_length]
  rw [List.drop_append_of_le_length ha, List.take_of_length_le (by simp; omega),
    hall _ (by simp), List.countP_append]
  simp [List.countP_cons]

theorem follows_snoc {cs : List Call} {c : Call} {k : Key} {x y : Nat × Emitted}
    (hy : y.1 ≤ cs.length) : Follows (cs ++ [c]) k x y ↔ Follows cs k x y := by
  unfold Follows
  rw [skipsIn_snoc_of_le hy]

def Call.key : Call → Option Key
  | .append line => Record.key line
  | .skip source item _ => some (source, item)

/-- A call emits lines of its own key. -/
theorem call_key {skips : Skips} {c : Call} : ∀ e ∈ (call skips c).2, e.key = c.key := by
  intro e he
  cases c with
  | append line =>
      rw [call, append] at he
      rw [Call.key]
      cases hk : key line with
      | none =>
          rw [hk] at he
          rw [List.mem_singleton.mp he]
          exact hk
      | some k =>
          rw [hk] at he
          dsimp only at he
          cases hs : skips k with
          | none =>
              rw [hs] at he
              rw [List.mem_singleton.mp he]
              exact hk
          | some r =>
              rw [hs] at he
              rcases List.mem_cons.mp he with rfl | he
              · rfl
              · rw [List.mem_singleton.mp he]
                exact hk
  | skip source item reason =>
      rw [call, skip] at he
      split at he
      · split_ifs at he
        · cases he
        · rcases List.mem_cons.mp he with rfl | he
          · rfl
          · rw [List.mem_singleton.mp he]
            rfl
      · rw [List.mem_singleton.mp he]
        rfl

/-- A call leaves the runs of the other keys. -/
theorem call_other {skips : Skips} {c : Call} {k : Key} (h : c.key ≠ some k) :
    (call skips c).1 k = skips k := by
  cases c with
  | append line =>
      rw [Call.key] at h
      rw [call, append]
      cases hk : key line with
      | none => rfl
      | some l =>
          dsimp only
          have hne : k ≠ l := by
            rintro rfl
            exact h hk
          split
          · exact Function.update_of_ne hne _ _
          · rfl
  | skip source item reason =>
      have hne : k ≠ (source, item) := by
        rintro rfl
        exact h rfl
      rw [call, skip]
      split
      · split_ifs
        · exact Function.update_of_ne hne _ _
        · exact Function.update_of_ne hne _ _
      · exact Function.update_of_ne hne _ _

theorem ofKey_snoc {cs : List Call} {c : Call} {k : Key} :
    ofKey k (log (cs ++ [c])) = ofKey k (log cs) ++
      if c.key = some k then (call (recorder cs).skips c).2.map (cs.length, ·) else [] := by
  rw [log_snoc, ofKey, List.filter_append]
  congr 1
  split_ifs with h
  · refine List.filter_eq_self.mpr ?_
    intro x hx
    obtain ⟨e, he, rfl⟩ := List.mem_map.mp hx
    simpa using (call_key e he).trans h
  · refine List.filter_eq_nil_iff.mpr ?_
    intro x hx
    obtain ⟨e, he, rfl⟩ := List.mem_map.mp hx
    simpa [call_key e he] using h

theorem mem_ofKey_lt {cs : List Call} {k : Key} {e : Nat × Emitted} (h : e ∈ ofKey k (log cs)) :
    e.1 < cs.length := log_lt (List.mem_filter.mp h).1

/-- The lines that a call adds continue the lines of the key. -/
theorem Coalesced.snoc {cs : List Call} {c : Call} {k : Key} (h : Coalesced cs k)
    {new : List (Nat × Emitted)}
    (hlog : ofKey k (log (cs ++ [c])) = ofKey k (log cs) ++ new)
    (hnew : new.IsChain (Follows (cs ++ [c]) k))
    (hjoin : ∀ x ∈ (ofKey k (log cs)).getLast?, ∀ y ∈ new.head?, Follows (cs ++ [c]) k x y)
    (hhead : ofKey k (log cs) = [] → ∀ e ∈ new.head?, e.2.isFinish = false) :
    Coalesced (cs ++ [c]) k := by
  constructor
  · rw [hlog, List.isChain_append]
    refine ⟨h.chain.imp_of_mem_imp ?_, hnew, hjoin⟩
    intro x y _ hy hxy
    exact (follows_snoc (mem_ofKey_lt hy).le).mpr hxy
  · rw [hlog]
    intro e he
    cases hl : ofKey k (log cs) with
    | nil =>
        rw [hl, List.nil_append] at he
        exact hhead hl e he
    | cons x l =>
        rw [hl] at he
        exact h.head e (by rw [hl]; exact he)

/-- After a line that is no start, and at the beginning, no end may follow. -/
theorem follows_of_not_start {cs : List Call} {k : Key} {x y : Nat × Emitted}
    (hx : x.2.isStart = false) (hy : y.2.isFinish = false) : Follows cs k x y := by
  unfold Follows
  cases hx2 : x.2 with
  | start k reason =>
      rw [hx2] at hx
      cases hx
  | finish k reason n => exact hy
  | line v => exact hy

/-- The run that is open ends. -/
theorem follows_finish {cs : List Call} {c : Call} {k : Key} {reason : String} {n : Nat}
    {a : Nat} (hn : n = skipsIn cs k a cs.length) :
    Follows (cs ++ [c]) k (a, .start k reason) (cs.length, .finish k reason n) :=
  ⟨rfl, by rw [skipsIn_snoc_of_le le_rfl, hn]⟩

/-- Where no run is open, what follows is anything but an end. -/
theorem Open.follows {cs : List Call} {c : Call} {k : Key} (h : Open cs k)
    (hnone : (recorder cs).skips k = none) {y : Nat × Emitted} (hy : y.2.isFinish = false) :
    ∀ x ∈ (ofKey k (log cs)).getLast?, Follows (cs ++ [c]) k x y := by
  intro x hx
  rw [Open, hnone] at h
  exact follows_of_not_start (h x hx) hy

/-- Where a run is open, its end follows. -/
theorem Open.finishes {cs : List Call} {c : Call} {k : Key} (h : Open cs k) {reason : String}
    {n : Nat} (hsome : (recorder cs).skips k = some (reason, n)) :
    ofKey k (log cs) ≠ [] ∧ ∀ x ∈ (ofKey k (log cs)).getLast?,
      Follows (cs ++ [c]) k x (cs.length, .finish k reason n) := by
  rw [Open, hsome] at h
  obtain ⟨a, hlast, -, hn⟩ := h
  constructor
  · intro hnil
    rw [hnil] at hlast
    cases hlast
  · intro x hx
    rw [hlast] at hx
    cases hx
    exact follows_finish hn

theorem keeps_other {cs : List Call} {c : Call} {k : Key} (hc : c.key ≠ some k)
    (h : Coalesced cs k ∧ Open cs k) : Coalesced (cs ++ [c]) k ∧ Open (cs ++ [c]) k := by
  have hlog : ofKey k (log (cs ++ [c])) = ofKey k (log cs) ++ [] := by
    rw [ofKey_snoc, if_neg hc]
  have hskips : c.skips k = false := by
    cases c with
    | append line => rfl
    | skip source item reason => simpa [Call.skips, Call.key] using hc
  refine ⟨h.1.snoc hlog .nil nofun nofun, ?_⟩
  have hopen := h.2
  unfold Open at hopen ⊢
  rw [skips_snoc, call_other hc, hlog, List.append_nil]
  split
  · rename_i reason n hsome
    rw [hsome] at hopen
    obtain ⟨a, hlast, ha, hn⟩ := hopen
    refine ⟨a, hlast, ?_, ?_⟩
    · rw [List.length_append]
      omega
    · rw [List.length_append, List.length_singleton, skipsIn_snoc ha.le, hskips, hn]
      rfl
  · rename_i hnone
    rw [hnone] at hopen
    exact hopen

theorem keeps_append {cs : List Call} {line : Value} {k : Key} (hk : key line = some k)
    (h : Coalesced cs k ∧ Open cs k) :
    Coalesced (cs ++ [.append line]) k ∧ Open (cs ++ [.append line]) k := by
  have hlog := @ofKey_snoc cs (.append line) k
  rw [if_pos (by exact hk)] at hlog
  have hskips : (recorder (cs ++ [.append line])).skips k = none ∧
      ((call (recorder cs).skips (.append line)).2 = [.line line] ∧
          (recorder cs).skips k = none ∨
        ∃ reason n, (recorder cs).skips k = some (reason, n) ∧
          (call (recorder cs).skips (.append line)).2 = [.finish k reason n, .line line]) := by
    rw [skips_snoc, call, append, hk]
    dsimp only
    cases hs : (recorder cs).skips k with
    | none => exact ⟨hs, .inl ⟨rfl, rfl⟩⟩
    | some r => exact ⟨Function.update_self .., .inr ⟨r.1, r.2, rfl, rfl⟩⟩
  obtain ⟨hnone, hout⟩ := hskips
  rcases hout with ⟨hout, hclosed⟩ | ⟨reason, n, hopen, hout⟩
  · rw [hout] at hlog
    refine ⟨h.1.snoc hlog (List.isChain_singleton _) ?_ ?_, ?_⟩
    · rintro x hx y hy
      cases hy
      exact h.2.follows hclosed rfl x hx
    · rintro - e he
      cases he
      rfl
    · rw [Open, hnone, hlog]
      intro e he
      simp only [List.map_cons, List.map_nil, List.getLast?_concat, Option.mem_some_iff] at he
      rw [← he]
      rfl
  · rw [hout] at hlog
    obtain ⟨hne, hfollows⟩ := h.2.finishes (c := .append line) hopen
    refine ⟨h.1.snoc hlog (List.isChain_pair.mpr rfl) ?_ (fun hnil => absurd hnil hne), ?_⟩
    · rintro x hx y hy
      cases hy
      exact hfollows x hx
    · rw [Open, hnone, hlog]
      intro e he
      simp only [List.map_cons, List.map_nil, List.getLast?_append, List.getLast?_cons_cons,
        List.getLast?_singleton, Option.some_or, Option.mem_some_iff] at he
      rw [← he]
      rfl

/-- A run that has just been started. -/
theorem open_started {cs : List Call} {source item reason : String} {l : List (Nat × Emitted)}
    (hlog : ofKey (source, item) (log (cs ++ [.skip source item reason])) =
      l ++ [(cs.length, .start (source, item) reason)])
    (hskips : (recorder (cs ++ [.skip source item reason])).skips (source, item) =
      some (reason, 1)) : Open (cs ++ [.skip source item reason]) (source, item) := by
  rw [Open, hskips, hlog]
  refine ⟨cs.length, List.getLast?_concat, by simp, ?_⟩
  rw [List.length_append, List.length_singleton, skipsIn_snoc le_rfl]
  simp [skipsIn, Call.skips]

theorem keeps_skip {cs : List Call} {source item reason : String}
    (h : Coalesced cs (source, item) ∧ Open cs (source, item)) :
    Coalesced (cs ++ [.skip source item reason]) (source, item) ∧
      Open (cs ++ [.skip source item reason]) (source, item) := by
  have hlog := @ofKey_snoc cs (.skip source item reason) (source, item)
  have hskips := congrFun (skips_snoc cs (.skip source item reason)) (source, item)
  rw [if_pos (by exact rfl), call, skip] at hlog
  rw [call, skip] at hskips
  cases hs : (recorder cs).skips (source, item) with
  | none =>
      rw [hs] at hlog hskips
      dsimp only at hlog hskips
      rw [Function.update_self] at hskips
      refine ⟨h.1.snoc hlog (List.isChain_singleton _) ?_ ?_, open_started hlog hskips⟩
      · rintro x hx y hy
        cases hy
        exact h.2.follows hs rfl x hx
      · rintro - e he
        cases he
        rfl
  | some r =>
      obtain ⟨old, n⟩ := r
      rw [hs] at hlog hskips
      dsimp only at hlog hskips
      by_cases heq : old = reason
      · -- the run goes on: no line, and one more skip
        rw [if_pos heq] at hlog hskips
        dsimp only at hlog hskips
        rw [Function.update_self] at hskips
        have hopen := h.2
        rw [Open, hs] at hopen
        obtain ⟨a, hlast, ha, hn⟩ := hopen
        refine ⟨h.1.snoc hlog .nil nofun nofun, ?_⟩
        rw [Open, hskips, hlog]
        refine ⟨a, by rw [List.map_nil, List.append_nil, hlast], by simp; omega, ?_⟩
        rw [List.length_append, List.length_singleton, skipsIn_snoc ha.le, hn]
        simp [Call.skips]
      · rw [if_neg heq] at hlog hskips
        dsimp only at hlog hskips
        rw [Function.update_self] at hskips
        obtain ⟨hne, hfollows⟩ := h.2.finishes (c := .skip source item reason) hs
        refine ⟨h.1.snoc hlog (List.isChain_pair.mpr rfl) ?_ (fun hnil => absurd hnil hne), ?_⟩
        · rintro x hx y hy
          cases hy
          exact hfollows x hx
        · refine open_started (l := ofKey (source, item) (log cs) ++
            [(cs.length, .finish (source, item) old n)]) ?_ hskips
          rw [hlog, List.append_assoc]
          rfl

theorem coalesced_open (cs : List Call) (k : Key) : Coalesced cs k ∧ Open cs k := by
  induction cs using List.reverseRecOn with
  | nil => exact ⟨⟨.nil, nofun⟩, nofun⟩
  | append_singleton cs c ih =>
      by_cases hc : c.key = some k
      · cases c with
        | append line => exact keeps_append hc ih
        | skip source item reason =>
            obtain rfl : (source, item) = k := Option.some.inj hc
            exact keeps_skip ih
      · exact keeps_other hc ih

/-- **The lines of every key are coalesced**, whatever was called. -/
theorem coalesced (cs : List Call) (k : Key) : Coalesced cs k := (coalesced_open cs k).1

/-! ### The journal -/

/-- A line as it stands in the journal: which process wrote it, and as which of its lines. -/
structure Written where
  process : Nat
  index : Nat
  emitted : Emitted

def written (cs : List Call) (n process : Nat) : List Written :=
  ((log cs).take n).zipIdx.map fun e => { process, index := e.2, emitted := e.1.2 }

/-- One process after the other: the calls to its recorder, and how many of the lines
    reached the file before the process ended. -/
def journal (runs : List (List Call × Nat)) : List Written :=
  runs.zipIdx.flatMap fun r => written r.1.1 r.1.2 r.2

/-- Written before. -/
def Written.Before (v w : Written) : Prop :=
  v.process < w.process ∨ v.process = w.process ∧ v.index < w.index

theorem Written.Before.asymm {v w : Written} (h : v.Before w) : ¬w.Before v := by
  unfold Before at h ⊢
  omega

theorem mem_written {cs : List Call} {n process : Nat} {w : Written} :
    w ∈ written cs n process ↔ w.process = process ∧ w.index < n ∧
      ∃ a, (log cs)[w.index]? = some (a, w.emitted) := by
  rw [written, List.mem_map]
  constructor
  · rintro ⟨⟨⟨a, e⟩, i⟩, he, rfl⟩
    have hget := List.mem_zipIdx_iff_getElem?.mp he
    rw [List.getElem?_take] at hget
    split_ifs at hget with hi
    · exact ⟨rfl, hi, a, hget⟩
  · rintro ⟨rfl, hi, a, ha⟩
    refine ⟨((a, w.emitted), w.index), List.mem_zipIdx_iff_getElem?.mpr ?_, rfl⟩
    rw [List.getElem?_take, if_pos hi, ha]

theorem mem_journal {runs : List (List Call × Nat)} {w : Written} :
    w ∈ journal runs ↔ ∃ r, runs[w.process]? = some r ∧ w.index < r.2 ∧
      ∃ a, (log r.1)[w.index]? = some (a, w.emitted) := by
  rw [journal, List.mem_flatMap]
  constructor
  · rintro ⟨⟨r, i⟩, hr, hw⟩
    obtain ⟨rfl, hi, ha⟩ := mem_written.mp hw
    exact ⟨r, List.mem_zipIdx_iff_getElem?.mp hr, hi, ha⟩
  · rintro ⟨r, hr, hi, ha⟩
    exact ⟨(r, w.process), List.mem_zipIdx_iff_getElem?.mpr hr, mem_written.mpr ⟨rfl, hi, ha⟩⟩

theorem zipIdx_sorted {α : Type} (l : List α) : l.zipIdx.Pairwise fun a b => a.2 < b.2 := by
  have h : (l.zipIdx.map Prod.snd).Pairwise (· < ·) := by
    rw [List.zipIdx_map_snd]
    exact List.pairwise_lt_range'
  exact List.pairwise_map.mp h

theorem journal_sorted (runs : List (List Call × Nat)) :
    (journal runs).Pairwise Written.Before := by
  rw [journal, List.pairwise_flatMap]
  constructor
  · intro r _
    rw [written, List.pairwise_map]
    exact (zipIdx_sorted _).imp fun h => .inr ⟨rfl, h⟩
  · refine (zipIdx_sorted runs).imp ?_
    intro r r' h v hv w hw
    rw [Written.Before, (mem_written.mp hv).1, (mem_written.mp hw).1]
    exact .inl h

/-- What a process wrote before a line is in the journal too. -/
theorem mem_journal_of_le {runs : List (List Call × Nat)} {w : Written} (h : w ∈ journal runs)
    {r : List Call × Nat} (hr : runs[w.process]? = some r) {i : Nat} (hi : i ≤ w.index)
    {a : Nat} {e : Emitted} (he : (log r.1)[i]? = some (a, e)) :
    { process := w.process, index := i, emitted := e } ∈ journal runs := by
  obtain ⟨r', hr', hn, -⟩ := mem_journal.mp h
  rw [hr] at hr'
  cases hr'
  exact mem_journal.mpr ⟨r, hr, by dsimp only; omega, a, he⟩

/-! ### Own ends -/

open Pairs

/-- What a line means to the viewer. -/
def Emitted.mark : Emitted → Option (Mark Key)
  | .start k _ => some (.start k)
  | .finish k _ _ => some (.finish k)
  | .line _ => none

/-- The end of a run: the next skip line of the key that the process wrote. -/
structure OwnEnd (runs : List (List Call × Nat)) (k : Key) (w v : Written) : Prop where
  process : v.process = w.process
  later : w.index < v.index
  mark : v.emitted.mark = some (.finish k)
  next : ∀ u ∈ journal runs, u.process = w.process → w.index < u.index → u.index < v.index →
    Foreign k u.emitted.mark

/-- Of a process the first skip line of a key is no end. -/
theorem start_before {cs : List Call} {k : Key} {i a : Nat} {e : Emitted}
    (h : (log cs)[i]? = some (a, e)) (he : e.mark = some (.finish k)) :
    ∃ j < i, ∃ b reason, (log cs)[j]? = some (b, .start k reason) := by
  obtain ⟨k', reason', n, rfl⟩ : ∃ k' reason' n, e = .finish k' reason' n := by
    cases e with
    | start => cases he
    | finish k' reason' n => exact ⟨k', reason', n, rfl⟩
    | line => cases he
  obtain rfl : k' = k := by simpa [Emitted.mark] using he
  have hsplit : log cs = (log cs).take i ++ (a, .finish k' reason' n) :: (log cs).drop (i + 1) := by
    obtain ⟨hi, hget⟩ := List.getElem?_eq_some_iff.mp h
    rw [← hget, ← List.drop_eq_getElem_cons hi, List.take_append_drop]
  have hkeys : ofKey k' (log cs) = ofKey k' ((log cs).take i) ++
      (a, .finish k' reason' n) :: ofKey k' ((log cs).drop (i + 1)) := by
    rw [ofKey, ofKey, ofKey]
    conv_lhs => rw [hsplit]
    rw [List.filter_append, List.filter_cons_of_pos (by simp [Emitted.key])]
  have hco := coalesced cs k'
  have hchain := hco.chain
  have hhead := hco.head
  rw [hkeys] at hchain hhead
  cases hlast : (ofKey k' ((log cs).take i)).getLast? with
  | none =>
      rw [List.getLast?_eq_none_iff.mp hlast] at hhead
      cases hhead _ rfl
  | some x =>
      have hf := (List.isChain_append.mp hchain).2.2 x hlast _ rfl
      obtain ⟨hx, hkey⟩ := List.mem_filter.mp (List.mem_of_getLast? hlast)
      obtain ⟨j, hj, hjx⟩ := List.getElem_of_mem hx
      have hlog : (log cs)[j]? = some x := by
        rw [← hjx, List.getElem_take, List.getElem?_eq_getElem]
      have hji : j < i := by
        rw [List.length_take] at hj
        omega
      obtain ⟨b, y⟩ := x
      cases y with
      | start l reason =>
          obtain rfl : l = k' := by simpa [Emitted.key] using hkey
          exact ⟨j, hji, b, reason, hlog⟩
      | finish l reason m => cases hf
      | line v => cases hf

/-- Lines of the journal in their order, without a gap between two skip lines of a key. -/
structure Gapless (runs : List (List Call × Nat)) (W : List Written) : Prop where
  sublist : W.Sublist (journal runs)
  between : ∀ k, ∀ w ∈ W, ∀ v ∈ W, ∀ u ∈ journal runs, w.Before u → u.Before v →
    ¬Foreign k w.emitted.mark → ¬Foreign k u.emitted.mark → ¬Foreign k v.emitted.mark → u ∈ W

theorem Gapless.sorted {runs : List (List Call × Nat)} {W : List Written} (h : Gapless runs W) :
    W.Pairwise Written.Before := (journal_sorted runs).sublist h.sublist

/-- A window of the journal is without gaps. -/
theorem Gapless.of_window {runs : List (List Call × Nat)} {W : List Written}
    (h : W <:+: journal runs) : Gapless runs W := by
  refine ⟨h.sublist, ?_⟩
  intro k w hw v hv u hu hwu huv _ _ _
  obtain ⟨A, B, hW⟩ := h
  have hsorted := journal_sorted runs
  rw [← hW] at hsorted hu
  obtain ⟨hAW, -, hB⟩ := List.pairwise_append.mp hsorted
  obtain ⟨-, -, hA⟩ := List.pairwise_append.mp hAW
  rcases List.mem_append.mp hu with hu | hu
  · rcases List.mem_append.mp hu with hu | hu
    · exact absurd (hA u hu w hw) hwu.asymm
    · exact hu
  · exact absurd (hB v (List.mem_append_right _ hv) u hu) huv.asymm

/-- **Without gaps**, the first skip line of the key behind a start is an end exactly where
    the end of its run is in the list. -/
theorem ownEnd_iff {runs : List (List Call × Nat)} {X Y : List Written} {w : Written}
    (h : Gapless runs (X ++ w :: Y)) {k : Key} (hw : ¬Foreign k w.emitted.mark) :
    (∃ U v V, Y = U ++ v :: V ∧ v.emitted.mark = some (.finish k) ∧
        ∀ u ∈ U, Foreign k u.emitted.mark) ↔ ∃ v ∈ X ++ w :: Y, OwnEnd runs k w v := by
  have hsorted := h.sorted
  constructor
  · rintro ⟨U, v, V, rfl, hv, hU⟩
    have hwv : w.Before v :=
      (List.pairwise_cons.mp (List.pairwise_append.mp hsorted).2.1).1 v (by simp)
    have hvJ := h.sublist.subset (show v ∈ X ++ w :: (U ++ v :: V) by simp)
    have hkey : ¬Foreign k v.emitted.mark := fun hf => hf _ hv rfl
    have hbetween : ∀ u ∈ journal runs, w.Before u → u.Before v → Foreign k u.emitted.mark := by
      intro u hu hwu huv
      by_contra hf
      have hmem := h.between k w (by simp) v (by simp) u hu hwu huv hw hf hkey
      exact hf (hU u (mem_between Written.Before.asymm hsorted hmem hwu huv))
    refine ⟨v, by simp, ?_⟩
    rcases hwv with hlt | ⟨heq, hlt⟩
    · -- the end of another process would have its start between the two
      obtain ⟨r, hr, -, a, ha⟩ := mem_journal.mp hvJ
      obtain ⟨j, hj, b, reason, hstart⟩ := start_before ha hv
      exact absurd rfl (hbetween _ (mem_journal_of_le hvJ hr hj.le hstart) (.inl hlt)
        (.inr ⟨rfl, hj⟩) (.start k) rfl)
    · refine ⟨heq.symm, hlt, hv, ?_⟩
      intro u hu hp hwu huv
      exact hbetween u hu (.inr ⟨hp.symm, hwu⟩) (.inr ⟨hp.trans heq, huv⟩)
  · rintro ⟨v, hv, hown⟩
    obtain ⟨-, hY, hX⟩ := List.pairwise_append.mp hsorted
    obtain ⟨hwY, hY⟩ := List.pairwise_cons.mp hY
    have hwv : w.Before v := .inr ⟨hown.process.symm, hown.later⟩
    have hvY : v ∈ Y := by
      rcases List.mem_append.mp hv with hv | hv
      · exact absurd (hX v hv w List.mem_cons_self) hwv.asymm
      · rcases List.mem_cons.mp hv with rfl | hv
        · exact absurd hwv hwv.asymm
        · exact hv
    obtain ⟨U, V, rfl⟩ := List.append_of_mem hvY
    refine ⟨U, v, V, rfl, hown.mark, ?_⟩
    intro u hu
    have hwu : w.Before u := hwY u (List.mem_append_left _ hu)
    have huv : u.Before v := (List.pairwise_append.mp hY).2.2 u hu v List.mem_cons_self
    have huJ := h.sublist.subset (show u ∈ X ++ w :: (U ++ v :: V) by simp [hu])
    have hp := hown.process
    unfold Written.Before at hwu huv
    exact hown.next u huJ (by omega) (by omega) (by omega)

/-! ### What the viewer makes of a line -/

open JournalView

/-- The line as it was stamped. -/
def render (clock : Written → Nat) (w : Written) : Value := stamp (clock w) w.emitted.value

def markOf (line : Value) : Option (Mark SkipKey) :=
  if isSkip line then
    some (if s line "skip" = "end" then .finish (skipKey line) else .start (skipKey line))
  else none

theorem next_openEnd (seen : Seen) (line : Value) :
    (seen.next line).openEnd = pass seen.openEnd (markOf line) := by
  unfold Seen.next markOf
  dsimp only
  split_ifs
  · rfl
  · rfl
  · rfl

theorem markOf_stamp (secs : Nat) (v : Value) : markOf (stamp secs v) = markOf v := by
  unfold markOf
  rw [isSkip_stamp, skipKey_stamp, s_stamp secs v (by decide) (by decide)]

section SkipLine

variable (k : Key) (reason which : String) (count : Nat)

theorem skipKey_skipLine : skipKey (skipLine k reason which count) = k := by
  obtain ⟨source, item⟩ := k
  have hitem : keyName (skipLine (source, item) reason which count) = item := by
    by_cases hi : item = ""
    · simp [keyName, JournalView.s, skipLine, Value.get_ofMembers, Value.asStr, hi]
    · simp [keyName, JournalView.s, skipLine, Value.get_ofMembers, Value.asStr, hi]
  have hsource : JournalView.s (skipLine (source, item) reason which count) "source" = source := by
    simp [JournalView.s, skipLine, Value.get_ofMembers, Value.asStr]
  rw [skipKey, hitem, hsource]

theorem isTxn_skipLine : isTxn (skipLine k reason which count) = false := by
  simp [isTxn, skipLine, Value.get_ofMembers]

theorem result_skipLine : JournalView.s (skipLine k reason which count) "result" = "skipped" := by
  simp [JournalView.s, skipLine, Value.get_ofMembers, Value.asStr]

theorem skip_skipLine : JournalView.s (skipLine k reason which count) "skip" = which := by
  simp [JournalView.s, skipLine, Value.get_ofMembers, Value.asStr]

theorem markOf_skipLine : markOf (skipLine k reason which count) =
    some (if which = "end" then .finish k else .start k) := by
  have hskip : isSkip (skipLine k reason which count) = true := by
    simp [isSkip, isTxn_skipLine, result_skipLine]
  rw [markOf, if_pos hskip, skip_skipLine, skipKey_skipLine]

end SkipLine

/-- The viewer takes the skip lines for what they are, and no others. -/
theorem markOf_value {e : Emitted}
    (h : ∀ v, e = .line v → JournalView.s v "result" ≠ "skipped") : markOf e.value = e.mark := by
  cases e with
  | start k reason => exact (markOf_skipLine k reason "start" 1).trans rfl
  | finish k reason n => exact (markOf_skipLine k reason "end" n).trans rfl
  | line v =>
      have hno : isSkip v = false := by simp [isSkip, h v rfl]
      rw [Emitted.value, markOf, if_neg (by simp [hno])]
      rfl

theorem foldl_openEnd (lines : List Value) (seen : Seen) :
    (lines.foldl Seen.next seen).openEnd = passAll seen.openEnd (lines.map markOf) := by
  induction lines generalizing seen with
  | nil => rfl
  | cons line lines ih =>
      rw [List.foldl_cons, ih, next_openEnd]
      rfl

theorem hide_start (seen : Seen) (secs : Nat) (k : Key) (reason : String) :
    (JournalView.shown seen (stamp secs (skipLine k reason "start" 1))).hide =
      seen.openEnd.contains k := by
  have htxn : isTxn (stamp secs (skipLine k reason "start" 1)) = false :=
    (isTxn_stamp _ _).trans (isTxn_skipLine ..)
  have hresult : JournalView.s (stamp secs (skipLine k reason "start" 1)) "result" = "skipped" :=
    (s_stamp _ _ (by decide) (by decide)).trans (result_skipLine ..)
  have hskip : JournalView.s (stamp secs (skipLine k reason "start" 1)) "skip" = "start" :=
    (s_stamp _ _ (by decide) (by decide)).trans (skip_skipLine ..)
  have hkey : skipKey (stamp secs (skipLine k reason "start" 1)) = k :=
    (skipKey_stamp _ _).trans (skipKey_skipLine ..)
  rw [JournalView.shown, if_neg (by simp [htxn]), if_pos hresult, skipEntry, hskip,
    if_neg (by decide), hkey]

/-! ### The viewer and the recorder -/

/-- What other parts record: objects, and none of them a skip. -/
def Plain (cs : List Call) : Prop :=
  ∀ v, .append v ∈ cs → v.isObject = true ∧ JournalView.s v "result" ≠ "skipped"

theorem line_mem_log {cs : List Call} {a : Nat} {v : Value} (h : (a, .line v) ∈ log cs) :
    .append v ∈ cs := by
  induction cs using List.reverseRecOn with
  | nil => cases h
  | append_singleton cs c ih =>
      rw [log_snoc] at h
      rcases List.mem_append.mp h with h | h
      · exact List.mem_append_left _ (ih h)
      · refine List.mem_append_right _ (List.mem_singleton.mpr ?_)
        obtain ⟨e, he, heq⟩ := List.mem_map.mp h
        cases heq
        cases c with
        | append line =>
            rw [call, append] at he
            split at he
            · cases List.mem_singleton.mp he
              rfl
            · split at he
              · rcases List.mem_cons.mp he with he | he
                · cases he
                · cases List.mem_singleton.mp he
                  rfl
              · cases List.mem_singleton.mp he
                rfl
        | skip source item reason =>
            rw [call, skip] at he
            split at he
            · split_ifs at he
              · cases he
              · rcases List.mem_cons.mp he with he | he
                · cases he
                · cases List.mem_singleton.mp he
            · cases List.mem_singleton.mp he

theorem plain_of_mem {runs : List (List Call × Nat)} (h : ∀ r ∈ runs, Plain r.1) {w : Written}
    (hw : w ∈ journal runs) : w.emitted.value.isObject = true ∧
      ∀ v, w.emitted = .line v → JournalView.s v "result" ≠ "skipped" := by
  obtain ⟨r, hr, -, a, ha⟩ := mem_journal.mp hw
  have hplain := h r (List.mem_of_getElem? hr)
  constructor
  · cases he : w.emitted with
    | start k reason => rfl
    | finish k reason n => rfl
    | line v =>
        rw [he] at ha
        exact (hplain v (line_mem_log (List.mem_of_getElem? ha))).1
  · intro v he
    rw [he] at ha
    exact (hplain v (line_mem_log (List.mem_of_getElem? ha))).2

/-- What is shown of a start behind the newer lines of its list. -/
theorem hidden_iff {runs : List (List Call × Nat)} (hplain : ∀ r ∈ runs, Plain r.1)
    (clock : Written → Nat) {Y : List Written} (hY : ∀ u ∈ Y, u ∈ journal runs) {w : Written}
    {k : Key} {reason : String} (hw : w.emitted = .start k reason) :
    (JournalView.shown ((Y.map (render clock)).reverse.foldl Seen.next {}) (render clock w)).hide =
        true ↔
      ∃ U v V, Y = U ++ v :: V ∧ v.emitted.mark = some (.finish k) ∧
        ∀ u ∈ U, Foreign k u.emitted.mark := by
  have hmarks : (Y.map (render clock)).reverse.map markOf =
      (Y.map fun u => u.emitted.mark).reverse := by
    rw [List.map_reverse, List.map_map]
    congr 1
    apply List.map_congr_left
    intro u hu
    rw [Function.comp_apply, render, markOf_stamp, markOf_value (plain_of_mem hplain (hY u hu)).2]
  have hhide : (JournalView.shown ((Y.map (render clock)).reverse.foldl Seen.next {})
      (render clock w)).hide = true ↔ k ∈ passAll [] (Y.map fun u => u.emitted.mark).reverse := by
    rw [render, hw, Emitted.value, hide_start, foldl_openEnd, hmarks, List.contains_iff_mem]
  rw [hhide, mem_passAll_iff]
  constructor
  · rintro ⟨u, v, heq, hu⟩
    obtain ⟨U, V, rfl, rfl, hV⟩ := List.map_eq_append_iff.mp heq
    obtain ⟨x, V, rfl, hx, -⟩ := List.map_eq_cons_iff.mp hV
    exact ⟨U, x, V, rfl, hx, fun y hy => hu _ (List.mem_map_of_mem hy)⟩
  · rintro ⟨U, v, V, rfl, hv, hU⟩
    refine ⟨U.map fun u => u.emitted.mark, V.map fun u => u.emitted.mark, by simp [hv], ?_⟩
    intro m hm
    obtain ⟨u, hu, rfl⟩ := List.mem_map.mp hm
    exact hU u hu

/-- The lines, the newest first, with a mark on each start that says whether it is hidden. -/
theorem decorate_starts {runs : List (List Call × Nat)} (clock : Written → Nat)
    (hplain : ∀ r ∈ runs, Plain r.1) {W : List Written} (hW : W.Sublist (journal runs)) :
    ∃ ds, decorate (W.map (render clock)).reverse = some ds ∧ ds.length = W.length ∧
      ∀ X w Y k reason, W = X ++ w :: Y → w.emitted = .start k reason →
        ∃ d hide, ds[Y.length]? = some d ∧ d.get "hide" = some (.bool hide) ∧
          (hide = true ↔ ∃ U v V, Y = U ++ v :: V ∧ v.emitted.mark = some (.finish k) ∧
            ∀ u ∈ U, Foreign k u.emitted.mark) := by
  have hobject : ∀ line ∈ (W.map (render clock)).reverse, line.isObject = true := by
    intro line hl
    obtain ⟨w, hw, rfl⟩ := List.mem_map.mp (List.mem_reverse.mp hl)
    rw [render, isObject_stamp]
    exact (plain_of_mem hplain (hW.subset hw)).1
  obtain ⟨ds, hds, hlen, hat⟩ := decorateFrom_some hobject {}
  refine ⟨ds, hds, by simpa using hlen, ?_⟩
  rintro X w Y k reason rfl hw
  obtain ⟨d, hget, hd⟩ := hat (Y.map (render clock)).reverse (X.map (render clock)).reverse
    (render clock w) (by simp)
  have hY : ∀ u ∈ Y, u ∈ journal runs := fun u hu => hW.subset (by simp [hu])
  exact ⟨d, _, by simpa using hget, get_hide hd, hidden_iff hplain clock hY hw⟩

/-- **Runs of skips.**  Of every key the lines are coalesced, after any calls.  And in any
    list without gaps of the lines of any processes, each of them ended at any of its lines,
    exactly those starts are hidden whose own end is in the list. -/
theorem skip_runs (runs : List (List Call × Nat)) (clock : Written → Nat)
    (hplain : ∀ r ∈ runs, Plain r.1) :
    (∀ cs k, Coalesced cs k) ∧
      ∀ W, Gapless runs W →
        ∃ ds, decorate (W.map (render clock)).reverse = some ds ∧ ds.length = W.length ∧
          ∀ X w Y k reason, W = X ++ w :: Y → w.emitted = .start k reason →
            ∃ d hide, ds[Y.length]? = some d ∧ d.get "hide" = some (.bool hide) ∧
              (hide = true ↔ ∃ v ∈ W, OwnEnd runs k w v) := by
  refine ⟨coalesced, ?_⟩
  intro W hW
  obtain ⟨ds, hds, hlen, hstarts⟩ := decorate_starts clock hplain hW.sublist
  refine ⟨ds, hds, hlen, ?_⟩
  rintro X w Y k reason rfl hw
  obtain ⟨d, hide, hget, hd, hiff⟩ := hstarts X w Y k reason rfl hw
  have hkey : ¬Foreign k w.emitted.mark := by
    rw [hw]
    exact fun hf => hf (.start k) rfl rfl
  exact ⟨d, hide, hget, hd, hiff.trans (ownEnd_iff hW hkey)⟩

/-- A process that ends with its run open, and one that ends its run. -/
def restart : List (List Call × Nat) :=
  let skipped := Call.skip "agent" "apn" "busy"
  let changed := Value.obj [("item", .str "apn"), ("result", .str "ok"), ("source", .str "agent")]
  [([skipped], 1), ([skipped, skipped, .append changed], 3)]

theorem skip_runs_restart : ∃ ds lost ended,
    decorate ((journal restart).map (render fun _ => 0)).reverse = some ds ∧
      ds[3]? = some lost ∧ lost.get "hide" = some (.bool false) ∧
      ds[2]? = some ended ∧ ended.get "hide" = some (.bool true) := by
  have hplain : ∀ r ∈ restart, Plain r.1 := by
    intro r hr v hv
    simp only [restart, List.mem_cons, List.not_mem_nil, or_false] at hr
    rcases hr with rfl | rfl
    · simp at hv
    · obtain rfl : v = _ := by simpa using hv
      exact ⟨rfl, by decide⟩
  obtain ⟨-, hgapless⟩ := skip_runs restart (fun _ => 0) hplain
  obtain ⟨ds, hds, -, hat⟩ := hgapless (journal restart) (.of_window List.infix_rfl)
  have hjournal : journal restart =
      [⟨0, 0, .start ("agent", "apn") "busy"⟩, ⟨1, 0, .start ("agent", "apn") "busy"⟩,
        ⟨1, 1, .finish ("agent", "apn") "busy" 2⟩, ⟨1, 2, .line _⟩] := rfl
  obtain ⟨lost, b, hlost, hb, hiff⟩ := hat [] _ _ ("agent", "apn") "busy" hjournal rfl
  obtain ⟨ended, b', hended, hb', hiff'⟩ := hat [_] _ _ ("agent", "apn") "busy" hjournal rfl
  have hopen : b = false := by
    rw [← Bool.not_eq_true, hiff]
    rintro ⟨v, hv, hown⟩
    have hprocess : v.process = 0 := hown.process
    have hlater : 0 < v.index := hown.later
    rw [hjournal] at hv
    simp only [List.mem_cons, List.not_mem_nil, or_false] at hv
    rcases hv with rfl | rfl | rfl | rfl
    · exact absurd hlater (by decide)
    · exact absurd hprocess (by decide)
    · exact absurd hprocess (by decide)
    · exact absurd hprocess (by decide)
  have hclosed : b' = true := by
    refine hiff'.mpr ⟨⟨1, 1, .finish ("agent", "apn") "busy" 2⟩, by simp [hjournal], ?_⟩
    exact ⟨rfl, Nat.zero_lt_one, rfl, fun u _ _ hlt hgt => by dsimp only at hlt hgt; omega⟩
  rw [hopen] at hb
  rw [hclosed] at hb'
  exact ⟨ds, lost, ended, hds, hlost, hb, hended, hb'⟩

/-- Two runs, one after the other. -/
def twice : List (List Call × Nat) :=
  let skipped := Call.skip "agent" "apn" "busy"
  let changed := Value.obj [("item", .str "apn"), ("result", .str "ok"), ("source", .str "agent")]
  [([skipped, .append changed, skipped, .append changed], 6)]

/-- The start of the first run and the end of the second. -/
def withGap : List Written :=
  [⟨0, 0, .start ("agent", "apn") "busy"⟩, ⟨0, 4, .finish ("agent", "apn") "busy" 1⟩]

/-- Where lines are missing, a start is hidden for the end of another run. -/
theorem gap_hides_start :
    ¬∀ (runs : List (List Call × Nat)) (clock : Written → Nat), (∀ r ∈ runs, Plain r.1) →
      ∀ W, W.Sublist (journal runs) →
        ∃ ds, decorate (W.map (render clock)).reverse = some ds ∧
          ∀ X w Y k reason, W = X ++ w :: Y → w.emitted = .start k reason →
            ∃ d hide, ds[Y.length]? = some d ∧ d.get "hide" = some (.bool hide) ∧
              (hide = true ↔ ∃ v ∈ W, OwnEnd runs k w v) := by
  intro hall
  have hplain : ∀ r ∈ twice, Plain r.1 := by
    intro r hr v hv
    rw [twice, List.mem_singleton] at hr
    subst hr
    obtain rfl : v = _ := by simpa using hv
    exact ⟨rfl, by decide⟩
  have hjournal : journal twice =
      [⟨0, 0, .start ("agent", "apn") "busy"⟩, ⟨0, 1, .finish ("agent", "apn") "busy" 1⟩,
        ⟨0, 2, .line _⟩, ⟨0, 3, .start ("agent", "apn") "busy"⟩,
        ⟨0, 4, .finish ("agent", "apn") "busy" 1⟩, ⟨0, 5, .line _⟩] := rfl
  have hsub : withGap.Sublist (journal twice) := by
    rw [hjournal]
    exact .cons_cons _ (.cons _ (.cons _ (.cons _ (.cons_cons _ (.cons _ .slnil)))))
  obtain ⟨ds, hds, hat⟩ := hall twice (fun _ => 0) hplain withGap hsub
  obtain ⟨ds', hds', -, hat'⟩ := decorate_starts (fun _ => 0) hplain hsub
  obtain rfl : ds = ds' := Option.some.inj (hds.symm.trans hds')
  obtain ⟨d, hide, hd, hhide, hiff⟩ := hat [] _ _ ("agent", "apn") "busy" rfl rfl
  obtain ⟨d', hide', hd', hhide', hiff'⟩ := hat' [] _ _ ("agent", "apn") "busy" rfl rfl
  obtain rfl : d = d' := Option.some.inj (hd.symm.trans hd')
  obtain rfl : hide = hide' := by
    rw [hhide] at hhide'
    cases hhide'
    rfl
  have hhidden : hide = true := hiff'.mpr ⟨[], _, [], rfl, rfl, nofun⟩
  obtain ⟨v, hv, hown⟩ := hiff.mp hhidden
  have hlast : v = ⟨0, 4, .finish ("agent", "apn") "busy" 1⟩ := by
    rcases List.mem_pair.mp hv with rfl | rfl
    · exact absurd hown.later (Nat.lt_irrefl 0)
    · rfl
  subst hlast
  -- the end of the first run comes before it
  have hfirst : (⟨0, 1, .finish ("agent", "apn") "busy" 1⟩ : Written) ∈ journal twice := by
    rw [hjournal]
    simp
  exact hown.next _ hfirst rfl (by decide) (by decide) (.finish ("agent", "apn")) rfl rfl

end Record

end Datad
