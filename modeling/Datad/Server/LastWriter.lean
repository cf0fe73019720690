/-
  Datad/Server/LastWriter.lean
  ============================
  **The record names the last writer, if nothing comes between.**

  Until a `submit` has recorded its source, who wrote the item last and who is recorded
  may differ; the invariant says that then all who are about to record are the last
  writer.  What breaks it is a write that is not recorded at all, or one that reaches the
  device between another's write and its record.
-/
import Datad.Server.Owners
import Datad.Server.Effects
import Datad.Ops.Exclusion

namespace Datad

open Transition

/-! ### Who waits for a write -/

/-- A task comes to wait for its write only by handing it in. -/
theorem Task.turn_submitWait {cfg : Config} {bootId : String} {uid : Nat} {st : St}
    {draining : Bool} {i : Input} {T : Task} {req : Request} {opId : String} {n : Nat}
    (h : (T.turn cfg bootId uid st draining i).task = some (.submitWait req opId n)) :
    T = .submitWrite req opId n := by
  cases T with
  | submitWrite req' opId' n' =>
    cases h
    rfl
  | submit => simp only [turn] at h; split at h <;> cases h
  | submitRead =>
    simp only [turn] at h
    split at h
    · cases h
    · split at h <;> cases h
  | submitBack =>
    simp only [turn] at h
    split at h <;> cases h
  | drive =>
    simp only [turn] at h
    split at h
    · cases h
    · split at h <;> cases h
  | rollback _ _ _ _ spec =>
    simp only [turn] at h
    split at h
    · cases h
    · cases spec <;> cases h
  | rollbackRead =>
    simp only [turn] at h
    split at h <;> cases h
  | sleep =>
    simp only [turn] at h
    split at h <;> cases h
  | read =>
    simp only [turn] at h
    split at h
    · split at h
      · cases h
      · split at h <;> cases h
    · cases h
  | feed =>
    simp only [turn] at h
    split at h <;> cases h
  | kick =>
    simp only [turn] at h
    split at h <;> cases h
  | drain =>
    simp only [turn] at h
    split at h <;> cases h
  | drainRun =>
    simp only [turn] at h
    split at h <;> cases h
  | drainMore =>
    simp only [turn] at h
    split at h <;> cases h
  | drainRetry =>
    simp only [turn] at h
    split at h <;> cases h
  | timer =>
    simp only [turn] at h
    split at h
    · split at h <;> cases h
    · split at h <;> cases h
  | _ => cases h

namespace World

/-- A slot that waits neither before nor after, with the others as they were. -/
theorem Waits.of_setTask {w w' : World} {k : Nat} {task : Option Task}
    (ht : w'.tasks = setTask w.tasks k task)
    (h : ∀ req opId uid, w.tasks k ≠ some (.submitWait req opId uid))
    (h' : ∀ req opId uid, task ≠ some (.submitWait req opId uid)) (key : Nat) (req : Request) :
    w'.Waits key req ↔ w.Waits key req := by
  unfold Waits
  rw [ht]
  unfold setTask
  split
  · rename_i hk
    subst hk
    constructor
    · rintro ⟨opId, uid, hw⟩
      exact absurd hw (h' req opId uid)
    · rintro ⟨opId, uid, hw⟩
      exact absurd hw (h req opId uid)
  · rfl

theorem Waits.of_task {cfg : Config} {w w' : World} {k : Nat} {i : Input} {T : Task}
    (hn : w.next cfg (.task k i) = some w') (hT : w.tasks k = some T)
    (hwrite : ∀ req opId uid, T ≠ .submitWrite req opId uid)
    (hwait : ∀ req opId uid, T ≠ .submitWait req opId uid) (key : Nat) (req : Request) :
    w'.Waits key req ↔ w.Waits key req := by
  cases next_step hn with
  | @task _ _ T' hT' =>
    obtain rfl : T' = T := Option.some.inj (hT'.symm.trans hT)
    refine Waits.of_setTask (k := k) rfl ?_ ?_ key req
    · intro req opId uid h
      exact hwait req opId uid (Option.some.inj (hT.symm.trans h))
    · intro req opId uid h
      exact hwrite req opId uid (Task.turn_submitWait h)

theorem Waits.of_errand {cfg : Config} {w w' : World} {a : Act} (he : w.Errand a)
    (hn : w.next cfg a = some w') (key : Nat) (req : Request) :
    w'.Waits key req ↔ w.Waits key req := by
  cases next_step hn with
  | submit hu hk =>
    refine Waits.of_setTask rfl ?_ ?_ key req
    · intro req opId uid h
      rw [hk] at h
      cases h
    · intro req opId uid h
      cases h
  | call hu hk =>
    refine Waits.of_setTask rfl ?_ ?_ key req
    · intro req opId uid h
      rw [hk] at h
      cases h
    · intro req opId uid h
      rcases Call.turn_task h with h | ⟨id, h⟩
      · cases h
      · cases h
  | task hT =>
    obtain ⟨r, hr⟩ := he
    refine Waits.of_task hn hr ?_ ?_ key req
    · intro req opId uid h
      cases h
    · intro req opId uid h
      cases h
  | _ => cases he

/-- A task that hands in its write waits for it. -/
theorem Waits.of_write {cfg : Config} {w w' : World} {k : Nat} {i : Input} {req : Request}
    {opId : String} {uid : Nat} (hn : w.next cfg (.task k i) = some w')
    (hT : w.tasks k = some (.submitWrite req opId uid)) (key : Nat) (q : Request) :
    w'.Waits key q ↔ w.Waits key q ∨ key = k ∧ q = req := by
  cases next_step hn with
  | @task _ _ T hT' =>
    obtain rfl : T = .submitWrite req opId uid := Option.some.inj (hT'.symm.trans hT)
    unfold Waits
    show (∃ x n, setTask w.tasks k (some (.submitWait req opId uid)) key =
      some (.submitWait q x n)) ↔ _
    unfold setTask
    split
    · rename_i hk
      subst hk
      constructor
      · rintro ⟨x, n, h⟩
        cases h
        exact .inr ⟨rfl, rfl⟩
      · rintro (⟨x, n, h⟩ | ⟨-, rfl⟩)
        · cases h.symm.trans hT
        · exact ⟨opId, uid, rfl⟩
    · rename_i hk
      constructor
      · exact .inl
      · rintro (h | ⟨h, -⟩)
        · exact h
        · exact absurd h hk

theorem Waits.of_takeover {cfg : Config} {w w' : World} (hn : w.next cfg .takeover = some w')
    (key : Nat) (req : Request) : w'.Waits key req ↔ w.Waits key req := by
  cases next_step hn with
  | takeover => exact Iff.rfl

theorem Waits.unique {w : World} {key : Nat} {req req' : Request} (h : w.Waits key req)
    (h' : w.Waits key req') : req = req' := by
  obtain ⟨opId, uid, h⟩ := h
  obtain ⟨opId', uid', h'⟩ := h'
  cases h.symm.trans h'
  rfl

/-- A task that waits and goes. -/
theorem Waits.of_gone {w w' : World} {k : Nat} {task : Option Task}
    (ht : w'.tasks = setTask w.tasks k task)
    (h' : ∀ req opId uid, task ≠ some (.submitWait req opId uid)) (key : Nat) (req : Request) :
    w'.Waits key req ↔ w.Waits key req ∧ key ≠ k := by
  unfold Waits
  rw [ht]
  unfold setTask
  split
  · rename_i hk
    constructor
    · rintro ⟨opId, uid, hw⟩
      exact absurd hw (h' req opId uid)
    · intro hw
      exact absurd hk hw.2
  · rename_i hk
    exact ⟨fun hw => ⟨hw, hk⟩, And.left⟩

end World

/-! ### The invariant -/

namespace Owned

/-- The tasks for which a write is in the queue. -/
def waiters (s : Owned) : List Nat := s.order.filterMap Slot.waiter

theorem mem_waiters {s : Owned} {key : Nat} :
    key ∈ s.waiters ↔ ∃ item source, .write item source (some key) ∈ s.order := by
  unfold waiters
  rw [List.mem_filterMap]
  constructor
  · rintro ⟨slot, hm, hw⟩
    cases slot with
    | control => cases hw
    | write item source waiter =>
      cases hw
      exact ⟨item, source, hm⟩
  · rintro ⟨item, source, hm⟩
    exact ⟨_, hm, rfl⟩

/-- Until its source is recorded, who wrote an item last is a `submit` that waits. -/
structure Kept (s : Owned) : Prop where
  waiting : ∀ item source key, .write item source (some key) ∈ s.order →
    ∃ req, s.server.world.Waits key req ∧ req.spec.item = item ∧ req.source = source
  once : s.waiters.Nodup
  answered : ∀ key r, s.answers key = some r →
    (∃ req, s.server.world.Waits key req) ∧ key ∉ s.waiters
  unrecorded : ∀ key req, s.Unrecorded key req → s.last req.spec.item = some req.source
  recorded : ∀ item source, s.last item = some source →
    (∀ key req, s.Unrecorded key req → req.spec.item ≠ item) → s.owner item = some source

theorem Fresh.kept {s : Owned} (h : s.Fresh) : s.Kept := by
  constructor
  · intro item source key hm
    rw [h.order] at hm
    cases hm
  · rw [waiters, h.order]
    exact List.nodup_nil
  · intro key r hr
    rw [h.answers] at hr
    cases hr
  · rintro key req ⟨-, r, hr, -⟩
    rw [h.answers] at hr
    cases hr
  · intro item source hl
    rw [h.last] at hl
    cases hl

theorem Kept.not_waiter {s : Owned} (h : s.Kept) {key : Nat}
    (hw : ∀ req, ¬ s.server.world.Waits key req) : key ∉ s.waiters ∧ s.answers key = none := by
  constructor
  · intro hm
    obtain ⟨item, source, hm⟩ := mem_waiters.mp hm
    obtain ⟨req, hreq, -⟩ := h.waiting item source key hm
    exact hw req hreq
  · rcases ha : s.answers key with _ | r
    · rfl
    · obtain ⟨⟨req, hreq⟩, -⟩ := h.answered key r ha
      exact absurd hreq (hw req)

/-- A step that no write takes part in. -/
theorem Kept.same {s s' : Owned} (h : s.Kept)
    (hw : ∀ key req, s'.server.world.Waits key req ↔ s.server.world.Waits key req)
    (ho : ∀ item source key, .write item source (some key) ∈ s'.order →
      .write item source (some key) ∈ s.order)
    (hk : s'.waiters = s.waiters) (ha : s'.answers = s.answers) (hown : s'.owners = s.owners)
    (hl : s'.last = s.last) : s'.Kept := by
  have hun : ∀ key req, s'.Unrecorded key req ↔ s.Unrecorded key req := by
    intro key req
    unfold Unrecorded
    rw [ha, hw key req]
  constructor
  · intro item source key hm
    obtain ⟨req, hreq, heq⟩ := h.waiting item source key (ho item source key hm)
    exact ⟨req, (hw key req).mpr hreq, heq⟩
  · rw [hk]
    exact h.once
  · intro key r hr
    rw [ha] at hr
    obtain ⟨⟨req, hreq⟩, hm⟩ := h.answered key r hr
    rw [hk]
    exact ⟨⟨req, (hw key req).mpr hreq⟩, hm⟩
  · intro key req hu
    rw [hl]
    exact h.unrecorded key req ((hun key req).mp hu)
  · intro item source hlast hno
    rw [hl] at hlast
    rw [owner, hown]
    exact h.recorded item source hlast fun key req hu => hno key req ((hun key req).mpr hu)

/-! ### Writes of `submit` -/

/-- A `submit` hands its write to the executor. -/
theorem Kept.handed {s s' : Owned} (h : s.Kept) {k : Nat} {req : Request}
    (hk : ∀ req, ¬ s.server.world.Waits k req)
    (hw : ∀ key q, s'.server.world.Waits key q ↔
      s.server.world.Waits key q ∨ key = k ∧ q = req)
    (ho : s'.order = s.order ++ [.write req.spec.item req.source (some k)])
    (ha : s'.answers = s.answers) (hown : s'.owners = s.owners) (hl : s'.last = s.last) :
    s'.Kept := by
  obtain ⟨hnot, hnone⟩ := h.not_waiter hk
  have hwaiters : s'.waiters = s.waiters ++ [k] := by
    rw [waiters, ho, List.filterMap_append]
    rfl
  have hun : ∀ key q, s'.Unrecorded key q ↔ s.Unrecorded key q := by
    intro key q
    unfold Unrecorded
    rw [ha, hw key q]
    constructor
    · rintro ⟨hold | ⟨rfl, -⟩, r, hr, hreach⟩
      · exact ⟨hold, r, hr, hreach⟩
      · rw [hnone] at hr
        cases hr
    · rintro ⟨hold, r, hr, hreach⟩
      exact ⟨.inl hold, r, hr, hreach⟩
  constructor
  · intro item source key hm
    rw [ho, List.mem_append, List.mem_singleton] at hm
    rcases hm with hm | hm
    · obtain ⟨q, hq, heq⟩ := h.waiting item source key hm
      exact ⟨q, (hw key q).mpr (.inl hq), heq⟩
    · cases hm
      exact ⟨req, (hw k req).mpr (.inr ⟨rfl, rfl⟩), rfl, rfl⟩
  · rw [hwaiters, List.nodup_append]
    refine ⟨h.once, List.nodup_singleton k, ?_⟩
    intro a ham b hb hab
    rw [List.mem_singleton] at hb
    subst hb hab
    exact hnot ham
  · intro key r hr
    rw [ha] at hr
    obtain ⟨⟨q, hq⟩, hm⟩ := h.answered key r hr
    refine ⟨⟨q, (hw key q).mpr (.inl hq)⟩, ?_⟩
    rw [hwaiters, List.mem_append, List.mem_singleton]
    rintro (hm' | rfl)
    · exact hm hm'
    · exact hk q hq
  · intro key q hu
    rw [hl]
    exact h.unrecorded key q ((hun key q).mp hu)
  · intro item source hlast hno
    rw [hl] at hlast
    rw [owner, hown]
    exact h.recorded item source hlast fun key q hu => hno key q ((hun key q).mpr hu)

theorem forget_eq_write {slot : Slot} {k key : Nat} {item : String} {source : Source}
    (h : slot.forget k = .write item source (some key)) :
    slot = .write item source (some key) ∧ key ≠ k := by
  cases slot with
  | control => cases h
  | write item' source' waiter =>
    simp only [Slot.forget, Slot.write.injEq, Option.filter_eq_some_iff, decide_eq_true_eq] at h
    obtain ⟨rfl, rfl, rfl, hk⟩ := h
    exact ⟨rfl, hk⟩

theorem waiter_forget (slot : Slot) (k : Nat) :
    (slot.forget k).waiter = slot.waiter.filter fun key => decide (key ≠ k) := by
  cases slot with
  | control => rfl
  | write item source waiter => rfl

theorem waiters_forget (order : List Slot) (k : Nat) :
    (order.map (Slot.forget k)).filterMap Slot.waiter =
      (order.filterMap Slot.waiter).filter fun key => decide (key ≠ k) := by
  rw [List.filterMap_map, List.filter_filterMap]
  congr 1
  funext slot
  exact waiter_forget slot k

/-- The client of a `submit` is gone. -/
theorem Kept.dropped {s s' : Owned} (h : s.Kept) {k : Nat}
    (hok : ∀ req, s.Unrecorded k req → s.owner req.spec.item = some req.source)
    (hw : ∀ key q, s'.server.world.Waits key q ↔ s.server.world.Waits key q ∧ key ≠ k)
    (ho : s'.order = s.order.map (Slot.forget k)) (ha : s'.answers = setAt s.answers k none)
    (hown : s'.owners = s.owners) (hl : s'.last = s.last) : s'.Kept := by
  have hwaiters : s'.waiters = s.waiters.filter fun key => decide (key ≠ k) := by
    rw [waiters, ho]
    exact waiters_forget s.order k
  have hanswer : ∀ key r, s'.answers key = some r → key ≠ k ∧ s.answers key = some r := by
    intro key r hr
    rw [ha] at hr
    rcases Server.setAt_cases hr with ⟨-, hn⟩ | hold
    · cases hn
    · exact hold
  have hun : ∀ key q, s'.Unrecorded key q → s.Unrecorded key q := by
    rintro key q ⟨hwait, r, hr, hreach⟩
    exact ⟨((hw key q).mp hwait).1, r, (hanswer key r hr).2, hreach⟩
  have hun' : ∀ key q, s.Unrecorded key q → key ≠ k → s'.Unrecorded key q := by
    rintro key q ⟨hwait, r, hr, hreach⟩ hne
    refine ⟨(hw key q).mpr ⟨hwait, hne⟩, r, ?_, hreach⟩
    rw [ha, setAt, if_neg hne]
    exact hr
  constructor
  · intro item source key hm
    rw [ho, List.mem_map] at hm
    obtain ⟨slot, hm, hslot⟩ := hm
    obtain ⟨rfl, hne⟩ := forget_eq_write hslot
    obtain ⟨q, hq, heq⟩ := h.waiting item source key hm
    exact ⟨q, (hw key q).mpr ⟨hq, hne⟩, heq⟩
  · rw [hwaiters]
    exact h.once.filter _
  · intro key r hr
    obtain ⟨hne, hr⟩ := hanswer key r hr
    obtain ⟨⟨q, hq⟩, hm⟩ := h.answered key r hr
    refine ⟨⟨q, (hw key q).mpr ⟨hq, hne⟩⟩, fun hm' => hm ?_⟩
    rw [hwaiters] at hm'
    exact (List.mem_filter.mp hm').1
  · intro key q hu
    rw [hl]
    exact h.unrecorded key q (hun key q hu)
  · intro item source hlast hno
    rw [hl] at hlast
    have howner : s'.owner item = s.owner item := by
      rw [owner, hown, owner]
    rw [howner]
    by_cases hk : ∃ req, s.Unrecorded k req ∧ req.spec.item = item
    · obtain ⟨req, hu, rfl⟩ := hk
      rw [hok req hu, ← h.unrecorded k req hu, hlast]
    · refine h.recorded item source hlast ?_
      intro key q hu hitem
      by_cases hkey : key = k
      · subst hkey
        exact hk ⟨q, hu, hitem⟩
      · exact hno key q (hun' key q hu hkey) hitem

/-- A write by the source that wrote last changes nothing. -/
theorem lastAfter_of_last {s : Owned} {item : String} {source : Source}
    {r : Except WriteError Value} (h : reached r = true → s.last item = some source) :
    s.lastAfter item source r = s.last := by
  funext k
  rw [lastAfter]
  split
  · rename_i hk
    rw [hk.2, h hk.1]
  · rfl

theorem lastAfter_self {s : Owned} {item : String} {source : Source}
    {r : Except WriteError Value} (h : reached r = true) :
    s.lastAfter item source r item = some source := by
  rw [lastAfter, if_pos ⟨h, rfl⟩]

theorem lastAfter_other {s : Owned} {item k : String} {source : Source}
    {r : Except WriteError Value} (h : ¬ (reached r = true ∧ k = item)) :
    s.lastAfter item source r k = s.last k := if_neg h

/-- The executor has done a write that nobody waits for. -/
theorem Kept.answer_none {s : Owned} (h : s.Kept) {item : String} {source : Source}
    {rest : List Slot} {r : Except WriteError Value}
    (ho : s.order = .write item source none :: rest)
    (hlast : reached r = true → s.last item = some source) :
    { s with order := rest, last := s.lastAfter item source r }.Kept := by
  refine h.same (fun _ _ => Iff.rfl) ?_ ?_ rfl rfl (lastAfter_of_last hlast)
  · intro item' source' key hm
    rw [ho]
    exact List.mem_cons_of_mem _ hm
  · rw [waiters, waiters, ho]
    rfl

/-- The executor has done the write that a `submit` waits for. -/
theorem Kept.answer_some {s : Owned} (h : s.Kept) {item : String} {source : Source} {key : Nat}
    {rest : List Slot} {r : Except WriteError Value}
    (ho : s.order = .write item source (some key) :: rest)
    (hclear : reached r = true → s.Clear item source) :
    { s with
      order := rest
      answers := setAt s.answers key (some r)
      last := s.lastAfter item source r }.Kept := by
  obtain ⟨req, hreq, hitem, hsource⟩ := h.waiting item source key (ho ▸ List.mem_cons_self)
  have hwaiters : s.waiters = key :: rest.filterMap Slot.waiter := by
    rw [waiters, ho]
    rfl
  have honce := h.once
  rw [hwaiters, List.nodup_cons] at honce
  have hnone : s.answers key = none := by
    rcases ha : s.answers key with _ | r'
    · rfl
    · exact absurd (hwaiters ▸ List.mem_cons_self) (h.answered key r' ha).2
  have hold : ∀ k q, s.Unrecorded k q → k ≠ key := by
    rintro k q ⟨-, r', hr', -⟩ rfl
    rw [hnone] at hr'
    cases hr'
  constructor
  · intro item' source' key' hm
    exact h.waiting item' source' key' (ho ▸ List.mem_cons_of_mem _ hm)
  · exact honce.2
  · intro k r' hr'
    rcases Server.setAt_cases hr' with ⟨rfl, -⟩ | ⟨hne, hr'⟩
    · exact ⟨⟨req, hreq⟩, honce.1⟩
    · obtain ⟨hwait, hm⟩ := h.answered k r' hr'
      refine ⟨hwait, fun hm' => hm ?_⟩
      rw [hwaiters]
      exact List.mem_cons_of_mem _ hm'
  · rintro k q ⟨hwait, r', hr', hreach⟩
    rcases Server.setAt_cases hr' with ⟨rfl, heq⟩ | ⟨hne, hr'⟩
    · cases heq
      obtain rfl : q = req := hwait.unique hreq
      subst hitem hsource
      exact lastAfter_self hreach
    · have hu : s.Unrecorded k q := ⟨hwait, r', hr', hreach⟩
      by_cases hk : reached r = true ∧ q.spec.item = item
      · have hsame := hclear hk.1 k q hu hk.2
        rw [hk.2, hsame]
        exact lastAfter_self hk.1
      · exact (lastAfter_other hk).trans (h.unrecorded k q hu)
  · intro i src hlast hno
    by_cases hk : reached r = true ∧ i = item
    · refine absurd (hitem.trans hk.2.symm) (hno key req ⟨hreq, r, ?_, hk.1⟩)
      exact if_pos rfl
    · refine h.recorded i src ((lastAfter_other hk).symm.trans hlast) ?_
      rintro k q ⟨hwait, r', hr', hreach⟩
      have hne : k ≠ key := hold k q ⟨hwait, r', hr', hreach⟩
      exact hno k q ⟨hwait, r', (if_neg hne).trans hr', hreach⟩

/-- A `submit` goes on and records its source, if its write has reached the device. -/
theorem Kept.resumed {s s' : Owned} (h : s.Kept) {k : Nat} {req : Request}
    {r : Except WriteError Value} (hreq : s.server.world.Waits k req)
    (hr : s.answers k = some r)
    (hw : ∀ key q, s'.server.world.Waits key q ↔ s.server.world.Waits key q ∧ key ≠ k)
    (ho : s'.order = s.order) (ha : s'.answers = setAt s.answers k none)
    (hown : ∀ item, s'.owner item =
      if reached r = true ∧ item = req.spec.item then some req.source else s.owner item)
    (hl : s'.last = s.last) : s'.Kept := by
  have hwaiters : s'.waiters = s.waiters := by
    rw [waiters, ho, waiters]
  have hanswer : ∀ key r', s'.answers key = some r' → key ≠ k ∧ s.answers key = some r' := by
    intro key r' hr'
    rw [ha] at hr'
    rcases Server.setAt_cases hr' with ⟨-, hn⟩ | hold
    · cases hn
    · exact hold
  have hun' : ∀ key q, s.Unrecorded key q → key ≠ k → s'.Unrecorded key q := by
    rintro key q ⟨hwait, r', hr', hreach⟩ hne
    refine ⟨(hw key q).mpr ⟨hwait, hne⟩, r', ?_, hreach⟩
    rw [ha, setAt, if_neg hne]
    exact hr'
  constructor
  · intro item source key hm
    rw [ho] at hm
    obtain ⟨q, hq, heq⟩ := h.waiting item source key hm
    have hne : key ≠ k := by
      rintro rfl
      exact (h.answered key r hr).2 (mem_waiters.mpr ⟨item, source, hm⟩)
    exact ⟨q, (hw key q).mpr ⟨hq, hne⟩, heq⟩
  · rw [hwaiters]
    exact h.once
  · intro key r' hr'
    obtain ⟨hne, hr'⟩ := hanswer key r' hr'
    obtain ⟨⟨q, hq⟩, hm⟩ := h.answered key r' hr'
    rw [hwaiters]
    exact ⟨⟨q, (hw key q).mpr ⟨hq, hne⟩⟩, hm⟩
  · rintro key q ⟨hwait, r', hr', hreach⟩
    rw [hl]
    exact h.unrecorded key q ⟨((hw key q).mp hwait).1, r', (hanswer key r' hr').2, hreach⟩
  · intro item source hlast hno
    rw [hl] at hlast
    rw [hown]
    split
    · rename_i hk
      rw [← h.unrecorded k req ⟨hreq, r, hr, hk.1⟩, ← hk.2, hlast]
    · rename_i hk
      refine h.recorded item source hlast ?_
      intro key q hu hitem
      by_cases hkey : key = k
      · subst hkey
        obtain ⟨hwait, r', hr', hreach⟩ := hu
        obtain rfl : q = req := hwait.unique hreq
        cases hr'.symm.trans hr
        exact hk ⟨hreach, hitem.symm⟩
      · exact hno key q (hun' key q hu hkey) hitem

/-! ### Writes of requests -/

/-- The write of a request came back. -/
theorem Kept.direct {s s' : Owned} (h : s.Kept) {item : String} {source : Source}
    {r : Except WriteError Value}
    (hw : ∀ key q, s'.server.world.Waits key q ↔ s.server.world.Waits key q)
    (ho : s'.order = s.order) (ha : s'.answers = s.answers)
    (hown : ∀ k, s'.owner k =
      if r.toBool = true ∧ k = item then some source else s.owner k)
    (hl : s'.last = s.lastAfter item source r)
    (hclear : reached r = true → r.toBool = true → s.Clear item source)
    (hlast : reached r = true → r.toBool = false → s.last item = some source) : s'.Kept := by
  have hwaiters : s'.waiters = s.waiters := by
    rw [waiters, ho, waiters]
  have hun : ∀ key q, s'.Unrecorded key q ↔ s.Unrecorded key q := by
    intro key q
    unfold Unrecorded
    rw [ha, hw key q]
  have hreach : r.toBool = true → reached r = true := by
    cases r with
    | ok v => exact fun _ => rfl
    | error e => exact fun hb => (by cases hb)
  constructor
  · intro i src key hm
    rw [ho] at hm
    obtain ⟨q, hq, heq⟩ := h.waiting i src key hm
    exact ⟨q, (hw key q).mpr hq, heq⟩
  · rw [hwaiters]
    exact h.once
  · intro key r' hr'
    rw [ha] at hr'
    obtain ⟨⟨q, hq⟩, hm⟩ := h.answered key r' hr'
    rw [hwaiters]
    exact ⟨⟨q, (hw key q).mpr hq⟩, hm⟩
  · intro key q hu
    have hu := (hun key q).mp hu
    rw [hl]
    by_cases hk : reached r = true ∧ q.spec.item = item
    · rw [hk.2, lastAfter_self hk.1]
      rcases hok : r.toBool with _ | _
      · rw [← hlast hk.1 hok, ← hk.2]
        exact h.unrecorded key q hu
      · rw [hclear hk.1 hok key q hu hk.2]
    · rw [lastAfter_other hk]
      exact h.unrecorded key q hu
  · intro i src hlast' hno
    rw [hown]
    split
    · rename_i hk
      rw [hl, hk.2, lastAfter_self (hreach hk.1)] at hlast'
      exact hlast'
    · rename_i hk
      have hsame : s.last i = some src := by
        rw [hl] at hlast'
        by_cases hk' : reached r = true ∧ i = item
        · obtain ⟨hre, rfl⟩ := hk'
          rw [lastAfter_self hre] at hlast'
          rw [← hlast']
          exact hlast hre (Bool.eq_false_iff.mpr fun hb => hk ⟨hb, rfl⟩)
        · rw [lastAfter_other hk'] at hlast'
          exact hlast'
      exact h.recorded i src hsame fun key q hu => hno key q ((hun key q).mpr hu)

theorem owner_setOwner (owners : String → Option Owner) (item : String) (source : Source)
    (undo : Bool) (value : String) (opId : Option String) (k : String) :
    (setOwner owners item source undo value opId k).map Owner.source =
      if k = item then some source else (owners k).map Owner.source := by
  unfold setOwner
  split
  · rfl
  · rfl

/-- A described action does not end the device. -/
theorem endsDevice_of_find {action : String} {spec : Spec} (h : Spec.find action = some spec)
    (b : Body) : endsDevice action b = false := by
  have ha := List.find?_some h
  obtain rfl : spec.action = action := of_decide_eq_true ha
  have hm := List.mem_of_find?_eq_some h
  obtain rfl := List.mem_singleton.mp hm
  rfl

theorem journal_item {j : Job} {w : JournalWrite} (h : j.journal = some w)
    {i : String × String} (hi : w.item = some i) : endsDevice j.action j.body = false := by
  unfold Job.journal at h
  split at h
  · unfold JournalWrite.new at h
    split at h
    · cases h
    · cases h
      dsimp only at hi
      split at hi
      · rename_i spec hs
        exact endsDevice_of_find hs j.body
      · cases hi
  · cases h

/-- What the end of a job records. -/
theorem owners_written {j : Job} {phase : JobPhase} {item : String} {source : Source}
    (h : j.written phase = some (item, source)) (owners : String → Option Owner)
    (r : Except WriteError Value) (k : String) :
    (j.owners owners (success phase r) k).map Owner.source =
      if r.toBool = true ∧ k = item then some source else (owners k).map Owner.source := by
  unfold Job.written at h
  split at h
  · rename_i hp
    subst hp
    split at h
    · rename_i w hw
      obtain ⟨i, hi, heq⟩ := Option.map_eq_some_iff.mp h
      cases heq
      have hends := journal_item hw hi
      rw [Job.owners, hw]
      dsimp only
      rw [hends, JournalWrite.owner, hi]
      cases hr : r.toBool with
      | true =>
        simp only [success, hr, decide_true, Bool.and_true, Bool.not_false, if_true,
          owner_setOwner, true_and]
      | false => simp [success, hr]
    · cases h
  · cases h

theorem owners_unwritten {j : Job} {phase : JobPhase} (h : j.written phase = none)
    (owners : String → Option Owner) (r : Except WriteError Value) :
    j.owners owners (success phase r) = owners := by
  unfold Job.owners
  rcases hj : j.journal with _ | w
  · rfl
  · unfold Job.written at h
    rw [hj] at h
    dsimp only at h ⊢
    split at h
    · have hi := Option.map_eq_none_iff.mp h
      rw [JournalWrite.owner, hi]
      exact ite_self owners
    · rename_i hp
      simp [success, hp]

/-! ### Every step -/

theorem waiters_control (order : List Slot) :
    (order ++ [Slot.control]).filterMap Slot.waiter = order.filterMap Slot.waiter := by
  rw [List.filterMap_append]
  exact List.append_nil _

/-- The queue after a step that hands in no write and drops none. -/
theorem orderAfter_frame (s : Owned) {a : Server.Act} (server : Server)
    (hadm : s.admits a = true) (ht : ∀ key i, a ≠ .world (.task key i))
    (hd : ∀ key, a ≠ .world (.drop key)) :
    (∀ item source key, .write item source (some key) ∈ s.orderAfter a server →
        .write item source (some key) ∈ s.order) ∧
      (s.orderAfter a server).filterMap Slot.waiter = s.waiters := by
  have hpush : (∀ item source key, .write item source (some key) ∈
        (if s.server.jobs.length < server.jobs.length then s.order ++ [Slot.control]
          else s.order) → .write item source (some key) ∈ s.order) ∧
      (if s.server.jobs.length < server.jobs.length then s.order ++ [Slot.control]
        else s.order).filterMap Slot.waiter = s.waiters := by
    split
    · refine ⟨fun item source key hm => ?_, waiters_control s.order⟩
      rw [List.mem_append, List.mem_singleton] at hm
      rcases hm with hm | hm
      · exact hm
      · cases hm
    · exact ⟨fun _ _ _ hm => hm, rfl⟩
  cases a with
  | pop =>
    unfold admits at hadm
    unfold waiters
    simp only [orderAfter]
    rcases ho : s.order with _ | ⟨_ | _, rest⟩
    · rw [ho] at hadm
      cases hadm
    · exact ⟨fun _ _ _ hm => List.mem_cons_of_mem _ hm, rfl⟩
    · rw [ho] at hadm
      cases hadm
  | world b =>
    cases b with
    | task key i => exact absurd rfl (ht key i)
    | drop key => exact absurd rfl (hd key)
    | _ => exact hpush
  | _ => exact hpush

/-- A step of the server that is neither a turn nor a drop leaves those who wait. -/
theorem waits_frame {cfg : Config} {s : Owned} {server : Server} {a : Server.Act}
    (hadm : s.admits a = true) (ht : ∀ key i, a ≠ .world (.task key i))
    (hd : ∀ key, a ≠ .world (.drop key)) (hn : s.server.next cfg a = some server) (key : Nat)
    (req : Request) : server.world.Waits key req ↔ s.server.world.Waits key req := by
  rcases (Server.next_move hn).engine with ⟨b, rfl, hw⟩ | ⟨-, hw | ⟨b, he, hw⟩⟩
  · cases b with
    | task k i => exact absurd rfl (ht k i)
    | drop k => exact absurd rfl (hd k)
    | call k c => exact World.Waits.of_errand (a := .call k c) trivial hw key req
    | takeover => exact World.Waits.of_takeover hw key req
    | _ => cases hadm
  · rw [hw]
  · exact World.Waits.of_errand he hw key req

theorem Kept.turn {cfg : Config} {s : Owned} {server : Server} {k : Nat} {i : Input}
    (h : s.Kept) (hadm : s.admits (.world (.task k i)) = true)
    (hn : s.server.next cfg (.world (.task k i)) = some server) :
    { s with
      server
      order := s.orderAfter (.world (.task k i)) server
      answers := s.answersAfter (.world (.task k i)) }.Kept := by
  obtain ⟨b, hb, hw⟩ := (Server.next_move hn).engine.resolve_right fun h => h.1 _ rfl
  cases hb
  rcases hT : s.server.world.tasks k with _ | T
  · simp only [World.next, hT] at hw
    cases hw
  simp only [admits, hT] at hadm
  by_cases hwrite : ∃ req opId uid, T = .submitWrite req opId uid
  · obtain ⟨req, opId, uid, rfl⟩ := hwrite
    refine h.handed ?_ (World.Waits.of_write hw hT) ?_ rfl rfl rfl
    · rintro q ⟨x, n, hq⟩
      cases hq.symm.trans hT
    · simp only [orderAfter, hT]
  · have hsame : s.orderAfter (.world (.task k i)) server = s.order := by
      simp only [orderAfter, hT]
      split
      · rename_i req opId uid heq
        exact absurd ⟨req, opId, uid, Option.some.inj heq⟩ hwrite
      · rfl
    rw [hsame]
    refine h.same ?_ (fun _ _ _ hm => hm) rfl rfl rfl rfl
    refine World.Waits.of_task hw hT ?_ ?_
    · intro req opId uid hT'
      exact hwrite ⟨req, opId, uid, hT'⟩
    · rintro req opId uid rfl
      cases hadm

theorem Kept.drop {cfg : Config} {s : Owned} {server : Server} {k : Nat} (h : s.Kept)
    (hok : s.Orderly (.server (.world (.drop k))))
    (hn : s.server.next cfg (.world (.drop k)) = some server) :
    { s with
      server
      order := s.orderAfter (.world (.drop k)) server
      answers := s.answersAfter (.world (.drop k)) }.Kept := by
  obtain ⟨b, hb, hw⟩ := (Server.next_move hn).engine.resolve_right fun h => h.1 _ rfl
  cases hb
  refine h.dropped hok (fun key q => ?_) rfl rfl rfl rfl
  generalize server.world = w at hw
  cases World.next_step hw with
  | drop hT hd => exact World.Waits.of_gone rfl (fun _ _ _ h => (by cases h)) key q

theorem Kept.server {cfg : Config} {s : Owned} {server : Server} {a : Server.Act} (h : s.Kept)
    (hok : s.Orderly (.server a)) (hadm : s.admits a = true)
    (hn : s.server.next cfg a = some server) :
    { s with
      server, order := s.orderAfter a server, answers := s.answersAfter a }.Kept := by
  by_cases ht : ∃ k i, a = .world (.task k i)
  · obtain ⟨k, i, rfl⟩ := ht
    exact h.turn hadm hn
  by_cases hd : ∃ k, a = .world (.drop k)
  · obtain ⟨k, rfl⟩ := hd
    exact h.drop hok hn
  have ht : ∀ k i, a ≠ .world (.task k i) := fun k i ha => ht ⟨k, i, ha⟩
  have hd : ∀ k, a ≠ .world (.drop k) := fun k ha => hd ⟨k, ha⟩
  obtain ⟨hmem, hwaiters⟩ := s.orderAfter_frame server hadm ht hd
  refine h.same (waits_frame hadm ht hd hn) hmem hwaiters ?_ rfl rfl
  dsimp only
  unfold answersAfter
  split
  · exact absurd rfl (hd _)
  · rfl

theorem Kept.resume {cfg : Config} {s : Owned} {server : Server} {k : Nat} {i : Input}
    {req : Request} {opId : String} {uid : Nat} {r : Except WriteError Value} (h : s.Kept)
    (hT : s.server.world.tasks k = some (.submitWait req opId uid)) (hr : s.answers k = some r)
    (hi : i.written = r) (hn : s.server.next cfg (.world (.task k i)) = some server) :
    { s with
      server
      answers := setAt s.answers k none
      owners :=
        (s.server.world.turnOf cfg (.submitWait req opId uid) i).fx.foldl ownersAfter
          s.owners }.Kept := by
  obtain ⟨b, hb, hw⟩ := (Server.next_move hn).engine.resolve_right fun h => h.1 _ rfl
  cases hb
  refine h.resumed ⟨opId, uid, hT⟩ hr (fun key q => ?_) rfl rfl (fun item => ?_) rfl
  · generalize server.world = w at hw
    cases World.next_step hw with
    | @task _ _ T hT' =>
      obtain rfl : T = .submitWait req opId uid := Option.some.inj (hT'.symm.trans hT)
      exact World.Waits.of_gone rfl (fun _ _ _ h => (by cases h)) key q
  · have hfx : (s.server.world.turnOf cfg (.submitWait req opId uid) i).fx =
        if reached r then [Effect.setOwner req.spec.item req.source req.undo req.target opId]
        else [] := by
      subst hi
      rfl
    unfold owner
    dsimp only
    rw [hfx]
    cases reached r with
    | true =>
      simp only [if_true, List.foldl_cons, List.foldl_nil, ownersAfter, owner_setOwner, true_and]
    | false => simp

theorem Kept.done {cfg : Config} {s s' : Owned} {r : Except WriteError Value} (h : s.Kept)
    (hok : s.Orderly (.done r)) (hn : s.next cfg (.done r) = some s') : s'.Kept := by
  simp only [next] at hn
  rcases hrun : s.server.running with _ | ⟨j, phase⟩
  · rw [hrun] at hn
    cases hn
  rw [hrun] at hn
  obtain ⟨server, hs, rfl⟩ := Option.map_eq_some_iff.mp hn
  have hw : ∀ key q, server.world.Waits key q ↔ s.server.world.Waits key q := by
    intro key q
    rcases (Server.next_move hs).engine with ⟨b, hb, -⟩ | ⟨-, hw | ⟨b, he, hw⟩⟩
    · cases hb
    · rw [hw]
    · exact World.Waits.of_errand he hw key q
  rcases hj : j.written phase with _ | ⟨item, source⟩
  · exact h.same hw (fun _ _ _ hm => hm) rfl rfl (owners_unwritten hj s.owners r) rfl
  · have hwriting : s.writing = some (item, source) := by
      rw [writing, hrun]
      exact hj
    have hok := hok item source hwriting
    exact h.direct hw rfl rfl (owners_written hj s.owners r) rfl (fun hre => (hok hre).1)
      fun hre => (hok hre).2

theorem Kept.step {cfg : Config} {s s' : Owned} {a : Act} (h : s.Kept) (hok : s.Orderly a)
    (hn : s.next cfg a = some s') : s'.Kept := by
  cases a with
  | server a =>
    simp only [next] at hn
    split at hn
    · rename_i hadm
      obtain ⟨server, hs, rfl⟩ := Option.map_eq_some_iff.mp hn
      exact h.server hok hadm hs
    · cases hn
  | answer r =>
    simp only [next] at hn
    split at hn
    · rename_i item source waiter rest hrun ho
      cases hn
      have hok := hok item source waiter rest ho
      cases waiter with
      | some key => exact h.answer_some ho fun hre => (hok hre).1 (Option.some_ne_none key)
      | none => exact h.answer_none ho fun hre => (hok hre).2 rfl
    · cases hn
  | resume key i =>
    simp only [next] at hn
    split at hn
    · rename_i req opId uid r hT hr
      obtain ⟨server, hs, rfl⟩ := Option.map_eq_some_iff.mp hn
      exact h.resume hT hr rfl hs
    · cases hn
  | done r => exact h.done hok hn

/-- **Owners name the last writer**, in every run whose writes are recorded in the order in
    which they reach the device, or by the source that wrote before: once all operations have
    returned, the owner of an item is the source of its last forward write that reached the
    device. -/
theorem owner_last (cfg : Config) {s₀ s : Owned} (h₀ : s₀.Fresh)
    (h : Exec (next cfg) Orderly s₀ s) (hq : s.Quiet) {item : String} {source : Source}
    (hl : s.last item = some source) : s.owner item = some source := by
  have hk : s.Kept := h.invariant Kept (fun hk hok hn => hk.step hok hn) h₀.kept
  refine hk.recorded item source hl ?_
  rintro key req ⟨⟨opId, uid, hT⟩, -⟩
  have hsub := hq.submits key _ hT
  cases hsub

end Owned

/-! ### Slots that are not in use -/

/-- The slots an action of the engine names. -/
def Act.slots : Act → List Nat
  | .submit key .. | .task key _ | .call key _ | .drop key | .start key .. | .crashTask key .. =>
      [key]
  | _ => []

theorem setTask_unused {tasks : Nat → Option Task} {key k : Nat} {task : Option Task}
    (hk : k ∉ [key]) (h : tasks k = none) : setTask tasks key task k = none := by
  rw [setTask, if_neg fun he => hk (List.mem_singleton.mpr he)]
  exact h

theorem World.tasks_unused {cfg : Config} {w w' : World} {a : Act} {k : Nat}
    (h : w.next cfg a = some w') (hk : k ∉ a.slots) (hw : w.tasks k = none) :
    w'.tasks k = none := by
  cases next_step h with
  | submit => exact setTask_unused hk hw
  | task => exact setTask_unused hk hw
  | call => exact setTask_unused hk hw
  | drop => exact setTask_unused hk hw
  | start =>
    simp only [startTasks]
    exact setTask_unused hk rfl
  | takeover => exact hw
  | _ => rfl

namespace Server

/-- The slots an action of the server names. -/
def Act.slots : Act → List Nat
  | .receive id .. => [id]
  | .handle id key .. => [id, key]
  | .check key | .hand key | .ran key => [key]
  | .world a => a.slots
  | _ => []

/-- Neither a request nor a task is in this slot. -/
def Unused (s : Server) (k : Nat) : Prop := s.reqs k = none ∧ s.world.tasks k = none

theorem Unused.setReq {s : Server} {k id : Nat} (h : s.Unused k) (hk : k ≠ id)
    (q : Option Pending) : (s.setReq id q).Unused k :=
  ⟨(if_neg hk).trans h.1, h.2⟩

theorem Unused.call {cfg : Config} {s s' : Server} {k key : Nat} {c : Call} {under : Option Nat}
    (h : s.Unused k) (hk : k ≠ key) (hc : s.call cfg key c under = some s') : s'.Unused k := by
  refine ⟨?_, World.tasks_unused (call_world hc) (fun hm => hk (List.mem_singleton.mp hm)) h.2⟩
  rw [(call_frame hc).1]
  exact h.1

theorem Unused.turn {cfg : Config} {s s' : Server} {k key : Nat} {i : Input} (h : s.Unused k)
    (hk : k ≠ key) (ht : s.turn cfg key i = some s') : s'.Unused k := by
  refine ⟨?_, World.tasks_unused (turn_world ht) (fun hm => hk (List.mem_singleton.mp hm)) h.2⟩
  rw [(turn_frame ht).1]
  exact h.1

theorem Move.unused {cfg : Config} {s s' : Server} {a : Act} {k : Nat} (h : Move cfg s a s')
    (hk : k ∉ a.slots) (hs : s.Unused k) : s'.Unused k := by
  have hid : ∀ {id key now : Nat} {fresh : String}, k ∉ (Act.handle id key fresh now).slots →
      k ≠ id ∧ k ≠ key := by
    intro id key now fresh hm
    simpa [Act.slots] using hm
  cases h with
  | receive => exact hs.setReq (fun he => hk (he ▸ List.mem_cons_self)) _
  | answered => exact hs.setReq (hid hk).1 _
  | goes => exact hs.setReq (hid hk).1 _
  | called hp hc hq => exact (hs.call (hid hk).2 hc).setReq (hid hk).1 _
  | submit hp hst hw =>
    have ht := World.tasks_unused hw (fun hm => (hid hk).2 (List.mem_singleton.mp hm)) hs.2
    exact ⟨(if_neg (hid hk).1).trans hs.1, ht⟩
  | push control hp hst => exact ⟨(if_neg (hid hk).1).trans hs.1, hs.2⟩
  | checkCall refused hr hc =>
    have hs' := hs.call (fun he => hk (he ▸ List.mem_cons_self)) hc
    cases refused with
    | true => exact ⟨hs'.1, hs'.2⟩
    | false => exact ⟨hs'.1, hs'.2⟩
  | handBusy ht hr hturn => exact hs.turn (fun he => hk (he ▸ List.mem_cons_self)) hturn
  | ran ht hr hturn =>
    have hs' := hs.turn (fun he => hk (he ▸ List.mem_cons_self)) hturn
    exact ⟨hs'.1, hs'.2⟩
  | turn ht hturn => exact hs.turn (fun he => hk (he ▸ List.mem_cons_self)) hturn
  | drop hw => exact ⟨hs.1, World.tasks_unused hw hk hs.2⟩
  | publish hc => exact hs.call (fun he => hk (he ▸ List.mem_cons_self)) hc
  | takeover hw => exact ⟨hs.1, World.tasks_unused hw hk hs.2⟩
  | reset hw hl ht => exact ⟨rfl, World.tasks_unused hw hk hs.2⟩
  | _ => exact ⟨hs.1, hs.2⟩

end Server

namespace Owned

def Act.slots : Act → List Nat
  | .server a => a.slots
  | .resume key _ => [key]
  | _ => []

theorem unused_step {cfg : Config} {s s' : Owned} {a : Act} {k : Nat}
    (h : s.next cfg a = some s') (hk : k ∉ a.slots) (hs : s.server.Unused k) :
    s'.server.Unused k := by
  cases a with
  | server a =>
    simp only [next] at h
    split at h
    · obtain ⟨server, hn, rfl⟩ := Option.map_eq_some_iff.mp h
      exact (Server.next_move hn).unused hk hs
    · cases h
  | answer r =>
    simp only [next] at h
    split at h
    · cases h
      exact hs
    · cases h
  | resume key i =>
    simp only [next] at h
    split at h
    · obtain ⟨server, hn, rfl⟩ := Option.map_eq_some_iff.mp h
      exact (Server.next_move hn).unused hk hs
    · cases h
  | done r =>
    simp only [next] at h
    split at h
    · obtain ⟨server, hn, rfl⟩ := Option.map_eq_some_iff.mp h
      exact (Server.next_move hn).unused List.not_mem_nil hs
    · cases h

/-! ### An old request -/

/-- A process that was just started; its record names the screen. -/
def started : Owned where
  server := { world := { up := true } }
  owners := setOwner (fun _ => none) NETWORK_MODE .screen false "Only_5G" (some "a")

theorem started_fresh : started.Fresh := ⟨rfl, fun _ => rfl, fun _ => rfl⟩

/-- A request without a source, up to its device call. -/
def oldRequest : List Act :=
  [.server (.receive 0 "network.set_mode" { params := .obj [("mode", .str "Only_LTE")] }),
    .server (.handle 0 0 "" 0), .server (.handle 0 0 "" 0), .server (.handle 0 0 "" 0),
    .server (.handle 0 0 "" 0), .server .pop, .server (.check 0), .server .execute]

/-- A step in slot 0 that no write comes back in. -/
def alone (a : Act) : Bool :=
  a.slots.all (fun k => decide (k = 0)) &&
    match a with
    | .server (.world (.drop _)) | .answer _ | .done _ => false
    | _ => true

theorem Orderly.of_alone (s : Owned) (a : Act) (h : alone a = true) : s.Orderly a := by
  unfold alone at h
  unfold Orderly
  split
  · rw [Bool.and_false] at h
    cases h
  · rw [Bool.and_false] at h
    cases h
  · rw [Bool.and_false] at h
    cases h
  · trivial

/-- The request is all there is, but for the end of its job. -/
def ending (s : Owned) : Bool :=
  s.server.running.isSome && s.server.jobs.isEmpty && s.order.isEmpty &&
    (s.server.reqs 0).isNone && (s.server.world.tasks 0).isNone

theorem oldRequest_runs {p : Owned → Bool}
    (h : (run (next World.sampleConfig) (fun _ a => alone a) started oldRequest).any
      (fun s => s.ending && p s) = true) :
    ∃ s, Exec (next World.sampleConfig) Orderly started s ∧ (∀ k, s.server.Unused k) ∧
      s.ending = true ∧ p s = true := by
  have hruns : ∃ s, Exec (next World.sampleConfig) (fun _ a => alone a = true) started s ∧
      (s.ending && p s) = true := Exec.exists_of_run (fun _ _ h => h) (.refl _) h
  obtain ⟨s, hs, hp⟩ := hruns
  rw [Bool.and_eq_true] at hp
  have hunused : ∀ k, k ≠ 0 → s.server.Unused k := by
    intro k hk
    refine hs.invariant (fun s => s.server.Unused k) ?_ ⟨rfl, rfl⟩
    intro s s' a hu ha hn
    refine unused_step hn (fun hm => hk ?_) hu
    unfold alone at ha
    exact of_decide_eq_true (List.all_eq_true.mp (Bool.and_eq_true_iff.mp ha).1 k hm)
  refine ⟨s, hs.mono Orderly.of_alone, fun k => ?_, hp⟩
  by_cases hk : k = 0
  · subst hk
    have he := hp.1
    simp only [ending, Bool.and_eq_true, Option.isNone_iff_eq_none] at he
    exact ⟨he.1.2, he.2⟩
  · exact hunused k hk

/-- Its job ends, and nothing is left. -/
theorem ending_quiet {cfg : Config} {s s' : Owned} {r : Except WriteError Value}
    (h : s.next cfg (.done r) = some s') (he : s.ending = true)
    (hu : ∀ k, s.server.Unused k) : s'.Quiet := by
  have hu' : ∀ k, s'.server.Unused k := fun k => unused_step h List.not_mem_nil (hu k)
  simp only [ending, Bool.and_eq_true, List.isEmpty_iff] at he
  simp only [next] at h
  split at h
  · obtain ⟨server, hn, rfl⟩ := Option.map_eq_some_iff.mp h
    cases Server.next_move hn with
    | finish hr =>
      refine ⟨fun id => (hu' id).1, he.1.1.1.2, rfl, he.1.1.2, ?_⟩
      intro key T hT
      rw [(hu' key).2] at hT
      cases hT
  · cases h

/-- The owner and the last writer of the network mode, after the job. -/
def ends (r : Except WriteError Value) (owner : Source) (s : Owned) : Bool :=
  (s.next World.sampleConfig (.done r)).any fun s' =>
    decide (s'.last NETWORK_MODE = some .legacy) && decide (s'.owner NETWORK_MODE = some owner)

theorem owner_last_ok :
    ∃ s, Exec (next World.sampleConfig) Orderly started s ∧ s.Quiet ∧
      s.last NETWORK_MODE = some .legacy ∧ s.owner NETWORK_MODE = some .legacy := by
  obtain ⟨s, hs, hu, he, hp⟩ := @oldRequest_runs (ends (.ok .null) .legacy) (by decide +kernel)
  simp only [ends, Option.any_eq_true, Bool.and_eq_true, decide_eq_true_eq] at hp
  obtain ⟨s', hn, hl, -⟩ := hp
  have hok : s.Orderly (.done (.ok .null)) := by
    intro item source _ _
    refine ⟨fun _ => ?_, fun h => (by cases h)⟩
    rintro key req ⟨⟨opId, uid, hT⟩, -⟩
    rw [(hu key).2] at hT
    cases hT
  have hs' := Exec.tail hs _ hok hn
  have hq := ending_quiet hn he hu
  exact ⟨s', hs', hq, hl, owner_last World.sampleConfig started_fresh hs' hq hl⟩

/-- The write of an old request has timed out, and the record still names the screen. -/
theorem owner_stale :
    ∃ s, Exec (next World.sampleConfig) (fun _ _ => True) started s ∧ s.Quiet ∧
      s.last NETWORK_MODE = some .legacy ∧ s.owner NETWORK_MODE ≠ some .legacy := by
  obtain ⟨s, hs, hu, he, hp⟩ :=
    @oldRequest_runs (ends (.error ⟨"timeout", true⟩) .screen) (by decide +kernel)
  simp only [ends, Option.any_eq_true, Bool.and_eq_true, decide_eq_true_eq] at hp
  obtain ⟨s', hn, hl, ho⟩ := hp
  have hs' := Exec.tail (hs.mono fun _ _ _ => trivial) _ trivial hn
  refine ⟨s', hs', ending_quiet hn he hu, hl, ?_⟩
  rw [ho]
  exact fun h => (by cases h)

end Owned

end Datad
