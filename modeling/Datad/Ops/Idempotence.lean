/-
  Datad/Ops/Idempotence.lean
  ==========================
  **An `op_id` sent again.**

  A client that heard no answer sends its request again under the same `op_id` and
  relies on getting the state of the change it already made.  `submit` looks the
  `op_id` up twice, before and after its device read, among the active transaction and
  the sixteen that ended last in this process.  The last finished transaction is also
  kept in `last.json`, which is read back after a restart, but not by that lookup.
-/
import Datad.Ops.WriteOnce
import Datad.Ops.Turns
import Datad.Lib.Ghost
import Mathlib.Data.List.Nodup

namespace Datad

open Transition

/-! ### What the process remembers -/

/-- The transactions that ended in a stretch of the log, oldest first. -/
def endsOf (l : List Event) : List Txn :=
  l.filterMap fun
    | .fx (.append (.txn t)) => some t
    | _ => none

/-- The last `n` entries of a list. -/
def newest {α : Type} (n : Nat) (l : List α) : List α := l.drop (l.length - n)

@[simp] theorem endsOf_nil : endsOf [] = [] := rfl

@[simp] theorem endsOf_append (l l' : List Event) : endsOf (l ++ l') = endsOf l ++ endsOf l' :=
  List.filterMap_append

/-- A turn journals an end exactly when it files one. -/
theorem endsOf_books (fx : List Effect) :
    endsOf (fx.map Event.fx) = endsOf ((books fx).map Event.fx) := by
  induction fx with
  | nil => rfl
  | cons e fx ih =>
    have hcons : ∀ fx : List Effect, endsOf ((e :: fx).map Event.fx) =
        endsOf [.fx e] ++ endsOf (fx.map Event.fx) := fun fx => endsOf_append [.fx e] _
    rw [hcons, ih]
    cases hb : e.onBooks with
    | true =>
      have hbooks : books (e :: fx) = e :: books fx := List.filter_cons_of_pos hb
      rw [hbooks, hcons]
    | false =>
      have hnone : endsOf [.fx e] = [] := by
        cases e with
        | append line =>
          cases line with
          | txn t => cases hb
          | _ => rfl
        | _ => rfl
      have hbooks : books (e :: fx) = books fx :=
        List.filter_cons_of_neg (by rw [hb]; exact Bool.false_ne_true)
      rw [hnone, hbooks]
      rfl

theorem endsOf_eq_nil {l : List Event} (h : ∀ e, .fx e ∉ l) : endsOf l = [] := by
  apply List.filterMap_eq_nil_iff.mpr
  intro e he
  split
  · exact absurd he (h _)
  · rfl

/-- The recent transactions are the newest of all that ended. -/
theorem rememberIn_newest (l : List Txn) (t : Txn) :
    rememberIn (newest RECENT l) t = newest RECENT (l ++ [t]) := by
  have hpos : RECENT = 16 := rfl
  rw [rememberIn, newest, newest, List.length_append, List.length_singleton]
  by_cases h : RECENT ≤ l.length
  · have hlen : (l.drop (l.length - RECENT)).length ≥ RECENT := by
      rw [List.length_drop]; omega
    rw [if_pos hlen, List.drop_drop, List.drop_append_of_le_length (by omega)]
    congr 2
    omega
  · have hlen : ¬ (l.drop (l.length - RECENT)).length ≥ RECENT := by
      rw [List.length_drop]; omega
    have hold : l.length - RECENT = 0 := by omega
    have hnew : l.length + 1 - RECENT = 0 := by omega
    rw [if_neg hlen, hold, hnew]
    rfl

namespace World

/-- A transaction the process knows: the active one, or one of the last sixteen that
    ended since it started. -/
def Held (w : World) (mark : Nat) (t : Txn) : Prop :=
  w.st.active = some t ∨ t ∈ newest RECENT (endsOf (w.log.drop mark))

/-- An `op_id` of a transaction the process knows. -/
def Known (w : World) (mark : Nat) (x : String) : Prop := ∃ t, w.Held mark t ∧ t.opId = x

/-- The `op_id` of the transaction in `last.json`. -/
def Kept (w : World) (x : String) : Prop := ∃ l, w.disk.last = some l ∧ l.txn.opId = x

/-- A turn that answers with the one transaction of this `op_id` and does nothing else. -/
def Replays (w : World) (mark : Nat) (x : String) (turn : Turn) : Prop :=
  turn.task = none ∧ turn.fx = [] ∧ turn.st = w.st ∧
    ∃ t, turn.events = [.answer x (.existing t)] ∧ t.opId = x ∧ w.Held mark t ∧
      ∀ t', w.Held mark t' → t'.opId = x → t' = t

/-! ### The recent list -/

structure Filing (w : World) (mark : Nat) : Prop where
  le : mark ≤ w.log.length
  recent : w.st.recent = newest RECENT (endsOf (w.log.drop mark))
  ids : ((w.st.recent ++ w.st.active.toList).map Txn.opId).Nodup

theorem Filing.empty : Filing {} 0 := by
  constructor
  · exact Nat.le_refl 0
  · rfl
  · exact List.nodup_nil

theorem Filing.down {w : World} (hst : w.st = {}) : Filing w w.log.length := by
  constructor
  · exact Nat.le_refl _
  · rw [hst, List.drop_length]; rfl
  · rw [hst]; exact List.nodup_nil

end World

/-- What a section leaves in the recent list, given the ends before it. -/
theorem Files.recent {st st' : St} {fx : List Effect} {ends : List Txn} (hf : Files st st' fx)
    (hr : st.recent = newest RECENT ends) :
    st'.recent = newest RECENT (ends ++ endsOf (fx.map Event.fx)) := by
  rw [endsOf_books]
  rw [Files, hr] at hf
  generalize books fx = b at hf ⊢
  generalize st'.recent = r at hf ⊢
  generalize st'.last = l' at hf
  cases hf with
  | none => exact (congrArg _ (List.append_nil _)).symm
  | retire hfin => exact rememberIn_newest ends _
  | ack hl => exact (congrArg _ (List.append_nil _)).symm

/-- The `op_id`s in the recent list come from that list and the active transaction. -/
theorem Files.ids {st st' : St} {fx : List Effect} (hf : Files st st' fx)
    (hend : ∀ {t}, .append (.txn t) ∈ fx → ∃ t₀, st.active = some t₀ ∧ t.opId = t₀.opId) :
    List.Sublist (st'.recent.map Txn.opId)
      ((st.recent ++ st.active.toList).map Txn.opId) := by
  have hb : ∀ {t}, .append (.txn t) ∈ books fx →
      ∃ t₀, st.active = some t₀ ∧ t.opId = t₀.opId := fun hm => hend (mem_books.mp hm).1
  rw [List.map_append]
  rw [Files] at hf
  generalize books fx = b at hf hb
  generalize st'.recent = r at hf ⊢
  generalize st'.last = l' at hf
  cases hf with
  | none => exact List.sublist_append_left ..
  | @retire t hfin =>
    obtain ⟨t₀, ht₀, hid⟩ := hb List.mem_cons_self
    rw [rememberIn, List.map_append, ht₀]
    refine List.Sublist.append ?_ ?_
    · split
      · exact (List.drop_sublist 1 _).map _
      · exact List.Sublist.refl _
    · show List.Sublist [t.opId] [t₀.opId]
      rw [hid]
  | ack hl => exact List.sublist_append_left ..

/-- `find` answers with a transaction of this `op_id`, if there is one. -/
theorem St.find_spec (st : St) (x : String) :
    (∃ t, st.find x = some t ∧ t.opId = x ∧ (st.active = some t ∨ t ∈ st.recent)) ∨
      st.find x = none ∧ x ∉ (st.recent ++ st.active.toList).map Txn.opId := by
  rw [find]
  rcases hl : st.live x with _ | t
  · dsimp only
    have hactive : ∀ t, st.active = some t → t.opId ≠ x := by
      intro t ht hx
      rw [live_eq_some.mpr ⟨ht, hx⟩] at hl
      cases hl
    rcases hr : st.recent.reverse.find? fun t => decide (t.opId = x) with _ | t
    · refine .inr ⟨hr, ?_⟩
      intro hm
      obtain ⟨t, hm, hx⟩ := List.mem_map.mp hm
      rcases List.mem_append.mp hm with hm | hm
      · have := List.find?_eq_none.mp hr t (List.mem_reverse.mpr hm)
        exact this (decide_eq_true hx)
      · exact hactive t (Option.mem_toList.mp hm) hx
    · have hx := List.find?_some hr
      refine .inl ⟨t, hr, of_decide_eq_true hx, .inr ?_⟩
      exact List.mem_reverse.mp (List.mem_of_find?_eq_some hr)
  · obtain ⟨ht, hx⟩ := live_eq_some.mp hl
    exact .inl ⟨t, rfl, hx, .inl ht⟩

namespace World

theorem Filing.turn {cfg : Config} {w : World} {mark : Nat} (h : w.Filing mark) {key : Nat}
    {T : Task} {turn : Turn} (g : Turned cfg w key T turn) : (w.take key turn).Filing mark := by
  obtain ⟨who, may, hs⟩ := g.shift
  have hle := h.le
  have hsub : List.Sublist (turn.st.recent.map Txn.opId)
      ((w.st.recent ++ w.st.active.toList).map Txn.opId) := by
    apply g.files.ids
    intro t hm
    obtain ⟨t₀, ht₀, hid, -⟩ := hs.sect.ended (mem_trail.mpr ⟨hm, rfl⟩)
    exact ⟨t₀, ht₀, congrArg Txn.Ident.opId hid⟩
  constructor
  · show mark ≤ (w.log ++ (turn.fx.map Event.fx ++ turn.events)).length
    rw [List.length_append]
    omega
  · show turn.st.recent =
      newest RECENT (endsOf ((w.log ++ (turn.fx.map Event.fx ++ turn.events)).drop mark))
    rw [List.drop_append_of_le_length hle, endsOf_append, endsOf_append,
      endsOf_eq_nil g.events, List.append_nil]
    exact g.files.recent h.recent
  · show ((turn.st.recent ++ turn.st.active.toList).map Txn.opId).Nodup
    rcases ht' : turn.st.active with _ | t'
    · rw [Option.toList_none, List.append_nil]
      exact hsub.nodup h.ids
    · by_cases hacc : turn.accepted = 0
      · -- the transaction that stays active was not filed
        have hsame : ∃ t, w.st.active = some t ∧ t'.ident = t.ident := by
          rcases hs.sect.source ht' with hsame | hfresh
          · exact hsame
          · have := (Turn.fresh_eq_some hfresh).2
            omega
        have hkept : turn.st.recent = w.st.recent := by
          have hf := g.files
          have hno : ∀ {t}, .append (.txn t) ∉ books turn.fx := by
            intro t hm
            have hm : .append (.txn t) ∈ trail turn.fx :=
              mem_trail.mpr ⟨(mem_books.mp hm).1, rfl⟩
            obtain ⟨-, -, -, -, hnew⟩ := hs.sect.ended hm
            have := (Turn.fresh_eq_some (hnew t' ht')).2
            omega
          rw [Files] at hf
          generalize books turn.fx = b at hf hno
          generalize turn.st.recent = r at hf ⊢
          generalize turn.st.last = l' at hf
          cases hf with
          | none => rfl
          | retire hfin => exact absurd List.mem_cons_self hno
          | ack hl => rfl
        obtain ⟨t, ht, hid⟩ := hsame
        have hids := h.ids
        have hop : t'.opId = t.opId := congrArg Txn.Ident.opId hid
        rw [ht] at hids
        rw [hkept]
        simp only [Option.toList_some, List.map_append, List.map_cons, List.map_nil] at hids ⊢
        rw [hop]
        exact hids
      · obtain ⟨req, x, c, now, -, href, hst, -⟩ := g.accepts hacc
        have hx : t'.opId = x := by
          rw [hst, St.accept_active] at ht'
          rw [← Option.some.inj ht']
          rfl
        have hnew : x ∉ (w.st.recent ++ w.st.active.toList).map Txn.opId := by
          rcases w.st.find_spec x with ⟨t, ht, -⟩ | ⟨-, hno⟩
          · rw [(St.refuse_none href).1] at ht; cases ht
          · exact hno
        simp only [Option.toList_some, List.map_append, List.map_cons, List.map_nil]
        rw [List.nodup_append]
        refine ⟨hsub.nodup h.ids, List.nodup_singleton _, ?_⟩
        intro y hy z hz hyz
        rw [List.mem_singleton.mp hz, hx] at hyz
        exact hnew (hyz ▸ hsub.mem hy)

theorem Filing.step {cfg : Config} {w w' : World} {a : Act} {mark : Nat}
    (h : w.Filing mark) (hs : Step cfg w a w') (hok : w.Ok) :
    w'.Filing (marks w a w' mark) := by
  have hturn : ∀ {key T turn}, Turned cfg w key T turn → (w.take key turn).Filing mark :=
    fun g => h.turn g
  cases hs with
  | submit hu hk =>
    rw [← take_idle]
    exact hturn (.submit cfg hk _ _)
  | task ht => exact hturn (.task hok ht _)
  | call hu hk => exact hturn (.call cfg w hk _)
  | drop ht hd =>
    rw [← take_idle]
    exact hturn (.drop cfg ht hd)
  | @start key bootId now hu =>
    have hfiles := w.disk.start_files bootId now
    constructor
    · show w.log.length ≤ (w.log ++ (w.disk.start bootId now).2.map Event.fx).length
      rw [List.length_append]
      omega
    · show (w.disk.start bootId now).1.recent = newest RECENT
        (endsOf ((w.log ++ (w.disk.start bootId now).2.map Event.fx).drop w.log.length))
      rw [List.drop_left]
      exact @Files.recent _ _ _ [] hfiles rfl
    · show (((w.disk.start bootId now).1.recent ++
        (w.disk.start bootId now).1.active.toList).map Txn.opId).Nodup
      -- at most one transaction is read from disk: it is active again or filed
      have hres := (hok.resumed bootId now).2
      have hno : (w.disk.start bootId now).1.active ≠ none →
          ∀ t, .append (.txn t) ∉ books (w.disk.start bootId now).2 := by
        intro hact t hm
        exact hact (hres.recorded (mem_trail.mpr ⟨(mem_books.mp hm).1, rfl⟩)).1
      rw [Files] at hfiles
      generalize books (w.disk.start bootId now).2 = b at hfiles hno
      generalize (w.disk.start bootId now).1.recent = r at hfiles ⊢
      generalize (w.disk.start bootId now).1.last = l' at hfiles
      generalize (w.disk.start bootId now).1.active = act at hno ⊢
      have hboot : w.disk.boot.recent = [] := rfl
      rcases act with _ | t
      · cases hfiles with
        | none => rw [hboot]; exact List.nodup_nil
        | retire hfin => rw [hboot]; exact List.nodup_singleton _
        | ack hl => rw [hboot]; exact List.nodup_nil
      · cases hfiles with
        | none => rw [hboot]; exact List.nodup_singleton _
        | retire hfin => exact absurd List.mem_cons_self (hno (by simp) _)
        | ack hl => rw [hboot]; exact List.nodup_singleton _
  | takeover => exact ⟨h.le, h.recent, h.ids⟩
  | crash hu => exact .down rfl
  | crashTask ht => exact .down rfl
  | crashCall hu => exact .down rfl
  | crashStart hu => exact .down rfl

theorem Filing.exec {cfg : Config} {w : World} {mark : Nat}
    (h : Exec (watched (next cfg) marks) (fun _ _ => True) ({}, 0) (w, mark)) :
    w.Ok ∧ w.Filing mark := by
  refine h.invariant (fun s => s.1.Ok ∧ s.1.Filing s.2) ?_ ⟨.empty, .empty⟩
  rintro ⟨v, m⟩ ⟨v', m'⟩ a ⟨hv, hf⟩ - hs
  obtain ⟨hs, hm⟩ := watched_eq_some.mp hs
  refine ⟨hv.step (next_step hs), ?_⟩
  rw [hm]
  exact hf.step (next_step hs) hv

/-- The lookup knows exactly the transactions the process knows. -/
theorem Filing.held {w : World} {mark : Nat} (h : w.Filing mark) {t : Txn} :
    w.Held mark t ↔ t ∈ w.st.recent ++ w.st.active.toList := by
  rw [Held, ← h.recent, List.mem_append, Option.mem_toList, or_comm]

theorem Filing.find {w : World} {mark : Nat} (h : w.Filing mark) (x : String) :
    (∃ t, w.st.find x = some t ∧ t.opId = x ∧ w.Held mark t ∧
        ∀ t', w.Held mark t' → t'.opId = x → t' = t) ∨
      w.st.find x = none ∧ ¬ w.Known mark x := by
  rcases w.st.find_spec x with ⟨t, hfind, hx, hin⟩ | ⟨hfind, hno⟩
  · have ht : w.Held mark t := by
      rcases hin with hact | hrec
      · exact .inl hact
      · rw [h.recent] at hrec
        exact .inr hrec
    refine .inl ⟨t, hfind, hx, ht, ?_⟩
    intro t' ht' hx'
    exact List.inj_on_of_nodup_map h.ids (h.held.mp ht') (h.held.mp ht) (hx'.trans hx.symm)
  · refine .inr ⟨hfind, ?_⟩
    rintro ⟨t, ht, hx⟩
    exact hno (List.mem_map.mpr ⟨t, h.held.mp ht, hx⟩)

end World

/-- Whether the device read of a `submit` failed or brought no value. -/
def Task.unread (i : Input) : Task → Bool
  | .submitRead .. => !(St.capture i.reading).toBool
  | _ => false

/-- The `submit` of this request is reading the device. -/
def Task.isReading (req : Request) (x : String) : Task → Bool
  | .submitRead req' x' => decide (req' = req) && decide (x' = x)
  | _ => false

/-- The `submit` of this request is about to write. -/
def Task.isWriting (req : Request) (x : String) (u : Nat) : Task → Bool
  | .submitWrite req' x' u' => decide (req' = req) && decide (x' = x) && decide (u' = u)
  | _ => false

theorem Task.isReading_iff {req : Request} {x : String} {T : Task} :
    T.isReading req x = true ↔ T = .submitRead req x := by
  cases T with
  | submitRead req' x' => simp [isReading]
  | _ => simp [isReading]

theorem Task.isWriting_iff {req : Request} {x : String} {u : Nat} {T : Task} :
    T.isWriting req x u = true ↔ T = .submitWrite req x u := by
  cases T with
  | submitWrite req' x' u' => simp [isWriting, and_assoc]
  | _ => simp [isWriting]

namespace World

theorem Filing.replays (cfg : Config) {w : World} {mark : Nat} (h : w.Filing mark) {T : Task}
    {req : Request} {x : String} (hT : T = .submit req x ∨ T = .submitRead req x) (i : Input) :
    w.Replays mark x (w.turnOf cfg T i) ↔ w.Known mark x ∧ T.unread i = false := by
  have hknown : w.st.refuse req x = (w.st.find x).map Submit.existing ∨
      w.st.find x = none ∧ ∀ t, w.st.refuse req x ≠ some (.existing t) := by
    rw [St.refuse]
    rcases w.st.find x with _ | t
    · refine .inr ⟨rfl, ?_⟩
      intro t
      dsimp only
      split
      · exact fun h => (by cases h)
      · split
        · split <;> exact fun h => (by cases h)
        · exact fun h => (by cases h)
    · exact .inl rfl
  rcases h.find x with ⟨t, hfind, hx, ht, huniq⟩ | ⟨hfind, hno⟩
  · -- the `op_id` is known: both looks answer at once
    have href : w.st.refuse req x = some (.existing t) := by
      rcases hknown with hk | ⟨hk, -⟩
      · rw [hk, hfind]; rfl
      · rw [hfind] at hk; cases hk
    have hk : w.Known mark x := ⟨t, ht, hx⟩
    rcases hT with rfl | rfl
    · simp only [turnOf, Task.turn, href]
      exact ⟨fun _ => ⟨hk, rfl⟩, fun _ => ⟨rfl, rfl, rfl, t, rfl, hx, ht, huniq⟩⟩
    · simp only [turnOf, Task.turn, Task.unread]
      rcases St.capture i.reading with e | c
      · constructor
        · rintro ⟨-, -, -, t', he, -⟩
          cases he
        · rintro ⟨-, hread⟩
          cases hread
      · simp only [href]
        exact ⟨fun _ => ⟨hk, rfl⟩, fun _ => ⟨rfl, rfl, rfl, t, rfl, hx, ht, huniq⟩⟩
  · constructor
    · rintro ⟨-, -, -, t, -, hx, ht, -⟩
      exact absurd ⟨t, ht, hx⟩ hno
    · rintro ⟨hk, -⟩
      exact absurd hk hno

/-- **An `op_id` sent again.**  In every reachable state and at each of its two looks, a
    `submit` whose `op_id` belongs to the active transaction, to one of the sixteen that
    ended last in this process, or to the one kept in `last.json`, only answers with that
    transaction, exactly if the process itself knows it (it is not merely kept in
    `last.json` from before a restart) and the device read in between, if it is behind,
    brought a value. -/
theorem resubmission_replayed {cfg : Config} {w : World} {mark : Nat}
    (h : Exec (watched (next cfg) marks) (fun _ _ => True) ({}, 0) (w, mark)) {T : Task}
    {req : Request} {x : String} (hT : T = .submit req x ∨ T = .submitRead req x) (i : Input) :
    (w.Known mark x ∨ w.Kept x → w.Replays mark x (w.turnOf cfg T i)) ↔
      (w.Known mark x ∨ w.Kept x → w.Known mark x ∧ T.unread i = false) := by
  have hrep := (Filing.exec h).2.replays cfg hT i
  constructor
  · intro hc hx
    exact hrep.mp (hc hx)
  · intro hc hx
    exact hrep.mpr (hc hx)

/-- A change is kept, the process restarts, and the client sends its request again:
    `last.json` has the change, and the request writes the device a second time. -/
theorem resubmission_after_restart_writes :
    ∃ w mark, Exec (watched (next sampleConfig) marks) (fun _ _ => True) ({}, 0) (w, mark) ∧
      w.tasks 2 = some (.submitRead (sampleRequest "a") "a") ∧ w.Kept "a" ∧
      (w.turnOf sampleConfig (.submitRead (sampleRequest "a") "a") sampleInput).task =
        some (.submitWrite (sampleRequest "a") "a" 1) := by
  have hrun : (run (next sampleConfig) (fun _ _ => true) {}
      (.start 0 "boot" 5 :: submitted 1 "a" ++ applied 1 ++ [.call 4 (.keep "a"), .crash,
        .start 0 "boot" 9, .submit 2 (sampleRequest "a") "a", .task 2 {}])).any
        (fun w => (w.tasks 2).any (Task.isReading (sampleRequest "a") "a") &&
          w.disk.last.any (fun l => decide (l.txn.opId = "a")) &&
          (w.turnOf sampleConfig (.submitRead (sampleRequest "a") "a") sampleInput).task.any
            (Task.isWriting (sampleRequest "a") "a" 1)) = true := by decide +kernel
  obtain ⟨w, hw, hp⟩ := Exec.exists_of_run (fun _ _ _ => trivial) (.refl _) hrun
  obtain ⟨mark, hw⟩ := hw.watch 0
  simp only [Bool.and_eq_true, Option.any_eq_true, Task.isReading_iff, Task.isWriting_iff,
    decide_eq_true_eq] at hp
  obtain ⟨⟨⟨T, hT, rfl⟩, l, hl, hx⟩, T', hT', rfl⟩ := hp
  exact ⟨w, mark, hw, hT, ⟨l, hl, hx⟩, hT'⟩

/-- A request sent again while its change is being confirmed. -/
theorem resubmission_while_active_replayed :
    ∃ mark, Exec (watched (next sampleConfig) marks) (fun _ _ => True) ({}, 0)
        (firstAccepted, mark) ∧
      firstAccepted.Known mark "a" ∧
      firstAccepted.Replays mark "a"
        (firstAccepted.turnOf sampleConfig (.submit (sampleRequest "a") "a") {}) := by
  obtain ⟨mark, hw⟩ := (firstAccepted_exec.mono fun _ _ _ => trivial).watch 0
  have hk : firstAccepted.Known mark "a" := by
    rcases ht : firstAccepted.st.active with _ | t
    · exact absurd ht (by decide +kernel)
    · refine ⟨t, .inl ht, ?_⟩
      have hx : firstAccepted.st.active.map Txn.opId = some "a" := by decide +kernel
      rw [ht] at hx
      exact Option.some.inj hx
  exact ⟨mark, hw, hk, (resubmission_replayed hw (.inl rfl) {}).mpr
    (fun _ => ⟨hk, rfl⟩) (.inl hk)⟩

end World

end Datad
