/-
  Datad/Lib/KeyedQueue.lean
  =========================
  **A queue that keeps the newest entry of each key.**

  A worker takes entries from the front, drops those that have become stale on the
  way, and may put the one it holds back.  Whoever queues an entry replaces the one
  of the same key, and a flush drops everything.  Each of these leaves notes.

  If an entry only goes back while it is still the newest of its key, the notes
  account for every entry: as many were queued as are waiting, are held, were served,
  replaced or dropped.
-/
import Mathlib.Data.List.Nodup
import Mathlib.Data.List.Count

namespace KeyedQueue

variable {α ι : Type} [DecidableEq α] [DecidableEq ι] {key : α → ι}

/-- The entries that wait and the one the worker holds. -/
structure Queue (α : Type) where
  waiting : List α
  hand : Option α

inductive Note (α : Type) where
  | queued (a : α)
  | replaced (a : α)
  | dropped (a : α)
  | served (a : α)
deriving DecidableEq

/-- What can happen to the queue, and the notes it leaves. -/
inductive Step (key : α → ι) : Queue α → List (Note α) → Queue α → Prop where
  | idle (q : Queue α) : Step key q [] q
  | enqueue (l : List α) (h : Option α) (a : α) :
      Step key ⟨l, h⟩
        ((l.filter fun b => decide (key b = key a)).map .replaced ++ [.queued a])
        ⟨(l.filter fun b => decide (key b ≠ key a)) ++ [a], h⟩
  | flush (l : List α) (h : Option α) : Step key ⟨l, h⟩ (l.map .dropped) ⟨[], h⟩
  | take (fresh : α → Bool) {l rest : List α} {a : α} (hl : l.filter fresh = a :: rest) :
      Step key ⟨l, none⟩ ((l.filter fun b => !fresh b).map .dropped) ⟨rest, some a⟩
  | serve (l : List α) (a : α) : Step key ⟨l, some a⟩ [.served a] ⟨l, none⟩
  | putBack (l : List α) (a : α) :
      Step key ⟨l, some a⟩ []
        ⟨if l.any fun b => decide (key b = key a) then l else a :: l, none⟩

/-- The newest entry of a key that was queued. -/
def latest (key : α → ι) (k : ι) (ns : List (Note α)) : Option α :=
  (ns.filterMap fun
    | .queued a => if key a = k then some a else none
    | _ => none).getLast?

/-- The notes account for the queue. -/
structure Accounted (key : α → ι) (q : Queue α) (ns : List (Note α)) : Prop where
  balanced : ∀ a, ns.count (.queued a) =
    q.waiting.count a + q.hand.toList.count a + ns.count (.served a) + ns.count (.replaced a) +
      ns.count (.dropped a)
  distinct : (q.waiting.map key).Nodup
  latest : ∀ a ∈ q.waiting, latest key (key a) ns = some a

theorem Accounted.empty : Accounted key ⟨[], none⟩ ([] : List (Note α)) :=
  ⟨fun _ => rfl, List.nodup_nil, fun _ ha => (nomatch ha)⟩

/-! ### Notes of one kind -/

omit [DecidableEq α] in
theorem latest_append_of_not_queued {k : ι} {ns new : List (Note α)}
    (h : ∀ a, .queued a ∉ new) : latest key k (ns ++ new) = latest key k ns := by
  rw [latest, List.filterMap_append]
  have hnil : new.filterMap (fun
      | .queued a => if key a = k then some a else none
      | _ => none) = [] := by
    rw [List.filterMap_eq_nil_iff]
    intro n hn
    cases n with
    | queued a => exact absurd hn (h a)
    | _ => rfl
  rw [hnil, List.append_nil]
  rfl

omit [DecidableEq α] in
theorem latest_append_queued {k : ι} (ns : List (Note α)) (a : α) :
    latest key k (ns ++ [.queued a]) = if key a = k then some a else latest key k ns := by
  rw [latest, List.filterMap_append]
  split
  · rename_i hk
    simp [hk]
  · rename_i hk
    simp [hk, latest]

theorem count_map_dropped (l : List α) (n : Note α) :
    (l.map Note.dropped).count n =
      match n with
      | .dropped a => l.count a
      | _ => 0 := by
  cases n with
  | dropped a => exact List.count_map_of_injective l _ (fun _ _ h => by cases h; rfl) a
  | _ => rw [List.count_eq_zero]; simp

theorem count_map_replaced (l : List α) (n : Note α) :
    (l.map Note.replaced).count n =
      match n with
      | .replaced a => l.count a
      | _ => 0 := by
  cases n with
  | replaced a => exact List.count_map_of_injective l _ (fun _ _ h => by cases h; rfl) a
  | _ => rw [List.count_eq_zero]; simp

/-! ### Steps -/

variable {q q' : Queue α} {ns new : List (Note α)}

/-- **A step that puts nothing back out of order keeps the account.** -/
theorem Accounted.step (h : Accounted key q ns) (hs : Step key q new q')
    (hput : ∀ a, q.hand = some a → new = [] → q'.hand = none →
      (∀ b ∈ q.waiting, key b ≠ key a) ∧ KeyedQueue.latest key (key a) ns = some a) :
    Accounted key q' (ns ++ new) := by
  obtain ⟨hbal, hnd, hlat⟩ := h
  cases hs with
  | idle => rw [List.append_nil]; exact ⟨hbal, hnd, hlat⟩
  | enqueue l h a =>
    constructor
    · intro b
      have hb := hbal b
      have hsplit := List.countP_eq_countP_filter_add l (· == b) fun c => decide (key c = key a)
      simp only [← List.count_eq_countP] at hsplit
      simp only [List.count_append, count_map_replaced, List.count_singleton, beq_iff_eq,
        Note.queued.injEq, reduceCtorEq, if_false, ne_eq, decide_not] at *
      omega
    · rw [List.map_append, List.map_singleton, List.nodup_append]
      refine ⟨hnd.sublist (List.filter_sublist.map key), List.nodup_singleton _, ?_⟩
      intro k hk k' hk'
      obtain ⟨b, hb, rfl⟩ := List.mem_map.mp hk
      rw [List.mem_singleton.mp hk']
      exact of_decide_eq_true (List.mem_filter.mp hb).2
    · intro b hb
      rw [← List.append_assoc, latest_append_queued]
      rcases List.mem_append.mp hb with hb | hb
      · -- an entry of another key is as new as before
        obtain ⟨hb, hne⟩ := List.mem_filter.mp hb
        rw [if_neg (fun heq => of_decide_eq_true hne heq.symm),
          latest_append_of_not_queued (by simp)]
        exact hlat b hb
      · rw [List.mem_singleton.mp hb, if_pos rfl]
  | flush l h =>
    refine ⟨?_, List.nodup_nil, fun _ ha => (nomatch ha)⟩
    intro b
    have hb := hbal b
    simp only [List.count_append, count_map_dropped]
    simp only [List.count_nil] at *
    omega
  | @take fresh l rest a hl =>
    have hsub : (a :: rest).Sublist l := hl ▸ List.filter_sublist
    constructor
    · intro b
      have hb := hbal b
      have hsplit := List.countP_eq_countP_filter_add l (· == b) fresh
      simp only [← List.count_eq_countP] at hsplit
      rw [hl] at hsplit
      simp only [List.count_append, count_map_dropped, Option.toList, List.count_cons,
        List.count_nil] at *
      omega
    · exact (hnd.sublist (hsub.map key)).of_cons
    · intro b hb
      rw [latest_append_of_not_queued (by simp)]
      exact hlat b (hsub.mem (List.mem_cons_of_mem _ hb))
  | serve l a =>
    refine ⟨?_, hnd, ?_⟩
    · intro b
      have hb := hbal b
      simp only [List.count_append, Option.toList, List.count_singleton, List.count_nil,
        beq_iff_eq, Note.served.injEq, reduceCtorEq, if_false] at *
      omega
    · intro b hb
      rw [latest_append_of_not_queued (by simp)]
      exact hlat b hb
  | putBack l a =>
    obtain ⟨hno, hnew⟩ := hput a rfl rfl rfl
    have hany : (l.any fun b => decide (key b = key a)) = false := by
      rw [List.any_eq_false]
      intro b hb
      simpa using hno b hb
    rw [hany, List.append_nil]
    constructor
    · intro b
      have hb := hbal b
      simp only [Option.toList, List.count_cons, List.count_nil, Bool.false_eq_true,
        if_false] at *
      omega
    · rw [if_neg Bool.false_ne_true, List.map_cons, List.nodup_cons]
      refine ⟨?_, hnd⟩
      intro hm
      obtain ⟨b, hb, hkey⟩ := List.mem_map.mp hm
      exact hno b hb hkey
    · intro b hb
      rw [if_neg Bool.false_ne_true] at hb
      rcases List.mem_cons.mp hb with rfl | hb
      · exact hnew
      · exact hlat b hb

end KeyedQueue
