/-
  Datad/Executor/Queue.lean
  =========================
  **The queue of the executor** (`Shared::push`, `Shared::drain`).

  A drain runs as many jobs as were queued when it was entered.  A job may be a round that
  drains the same queue, so several drains may be under way, one inside the other.  An
  observer lists the jobs as they are accepted and as they are started, and notes for each
  drain how many jobs it found and which it started (`queue_discipline`).
-/
import Datad.Executor.Machine
import Datad.Lib.Ghost

namespace Datad

namespace Executor

open Hub Transition

/-! ### The counter -/

section Counter

variable {q q' : Queue} {j : Job} {cap : Nat}

/-- The number of control jobs in the queue. -/
def Queue.controlJobs (q : Queue) : Nat := q.jobs.countP (·.control)

/-- The counter is right, and below the cap. -/
structure Queue.Counted (cap : Nat) (q : Queue) : Prop where
  controls : q.controls = q.controlJobs
  capped : q.controls ≤ cap

theorem Queue.Counted.refuses (h : q.Counted cap) (j : Job) :
    q.push cap j = .error .busy ↔ j.control = true ∧ q.controlJobs = cap := by
  rw [← h.controls, Queue.push]
  have hle := h.capped
  by_cases hj : j.control = true
  · by_cases hc : cap ≤ q.controls
    · simp [hj, Nat.le_antisymm hle hc]
    · simp only [hj, hc, if_true, if_false, reduceCtorEq, true_and, false_iff]
      omega
  · simp [hj]

theorem Queue.push_jobs (h : q.push cap j = .ok q') : q'.jobs = q.jobs ++ [j] := by
  rw [Queue.push] at h
  split at h
  · split at h
    · cases h
    · cases h
      rfl
  · cases h
    rfl

theorem Queue.Counted.push (h : q.Counted cap) (hp : q.push cap j = .ok q') :
    q'.Counted cap := by
  have hcount : q'.controlJobs = q.controlJobs + if j.control then 1 else 0 := by
    simp [Queue.controlJobs, Queue.push_jobs hp]
  have hcontrols := h.controls
  have hcapped := h.capped
  rw [Queue.push] at hp
  by_cases hj : j.control = true
  · rw [if_pos hj] at hp hcount
    by_cases hc : cap ≤ q.controls
    · rw [if_pos hc] at hp
      cases hp
    · rw [if_neg hc] at hp
      cases hp
      constructor <;> dsimp only <;> omega
  · rw [if_neg hj] at hp hcount
    cases hp
    exact ⟨by rw [hcount]; exact hcontrols, hcapped⟩

theorem Queue.pop_jobs (h : q.pop = some (j, q')) : q.jobs = j :: q'.jobs := by
  rw [Queue.pop] at h
  split at h
  · cases h
  · rename_i jobs heq
    cases h
    exact heq

theorem Queue.pop_eq_none (h : q.pop = none) : q.jobs = [] := by
  rw [Queue.pop] at h
  split at h
  · assumption
  · cases h

theorem Queue.Counted.pop (h : q.Counted cap) (hp : q.pop = some (j, q')) : q'.Counted cap := by
  have hcount : q.controlJobs = q'.controlJobs + if j.control then 1 else 0 := by
    rw [Queue.controlJobs, Queue.pop_jobs hp, List.countP_cons, Queue.controlJobs]
  have hcontrols : q'.controls = if j.control then q.controls - 1 else q.controls := by
    rw [Queue.pop] at hp
    split at hp
    · cases hp
    · cases hp
      rfl
  have hold := h.controls
  have hcapped := h.capped
  by_cases hj : j.control = true
  · rw [if_pos hj] at hcount hcontrols
    constructor <;> omega
  · rw [if_neg hj] at hcount hcontrols
    constructor <;> omega

end Counter

/-! ### The observer -/

/-- A drain: how many jobs were queued when it was entered, and the jobs it started. -/
structure DrainNote where
  queued : Nat
  started : List Job := []

structure Books where
  accepted : List Job := []
  started : List Job := []
  /-- The drains under way, the innermost first. -/
  drains : List DrainNote := []
  /-- The drains that are over. -/
  past : List DrainNote := []
  /-- How many jobs were accepted when the main loop last left its head. -/
  promised : Nat := 0

/-- The drains under way, with what they found and how many jobs they have started. -/
def drainsOf (frames : List Frame) : List (Nat × Nat) :=
  frames.filterMap fun f =>
    match f with
    | .drain queued started => some (queued, started)
    | _ => none

namespace Books

/-- A drain starts a job. -/
def start (b : Books) (j : Job) : Books :=
  { b with
    started := b.started ++ [j]
    drains := b.drains.modifyHead fun d => { d with started := d.started ++ [j] } }

/-- The innermost drain ends. -/
def close (b : Books) : Books :=
  { b with drains := b.drains.tail, past := b.drains.head?.toList ++ b.past }

/-- Note a drain that was entered by the step. -/
def enter (b : Books) (s s' : Shared) : Books :=
  if (drainsOf s.frames).length < (drainsOf s'.frames).length then
    { b with drains := { queued := s.queue.jobs.length } :: b.drains }
  else b

def note (cfg : Config) (s : Shared) (a : Act) (s' : Shared) (b : Books) : Books :=
  match a with
  | .push j =>
    match s.queue.push cfg.controlQueue j with
    | .ok _ => { b with accepted := b.accepted ++ [j] }
    | .error _ => b
  | .drain _ =>
    match s.queue.jobs with
    | j :: _ => if s.frames.length < s'.frames.length then b.start j else b.close
    | [] => b.close
  | .loop _ => { b with promised := b.accepted.length }.enter s s'
  | _ => b.enter s s'

end Books

/-! ### What holds of the books -/

/-- How frames lie on each other: a job on the drain that started it, a round on a job or
    at the bottom. -/
inductive Stacked : List Frame → Prop where
  | nil : Stacked []
  | drain (queued started : Nat) {fs : List Frame} (h : Stacked fs) :
      Stacked (.drain queued started :: fs)
  | job (j : Job) {queued started : Nat} {fs : List Frame}
      (h : Stacked (.drain queued started :: fs)) :
      Stacked (.job j :: .drain queued started :: fs)
  | first (legacy : Bool) (p : Point) : Stacked [.round legacy p]
  | round (legacy : Bool) (p : Point) {j : Job} {fs : List Frame} (h : Stacked (.job j :: fs)) :
      Stacked (.round legacy p :: .job j :: fs)

/-- The main loop is at its head or asleep. -/
def Main.resting : Main → Bool
  | .head | .waiting _ => true
  | _ => false

structure Booked (cfg : Config) (s : Shared) (b : Books) : Prop where
  counted : s.queue.Counted cfg.controlQueue
  accepted : b.accepted = b.started ++ s.queue.jobs
  drains : drainsOf s.frames = b.drains.map fun d => (d.queued, d.started.length)
  within : ∀ d ∈ b.drains ++ b.past, d.started.length ≤ d.queued
  stacked : Stacked s.frames
  resting : s.main.resting = true → s.frames = []
  promised : b.promised ≤ b.accepted.length
  /-- A drain under way will start what was promised when the main loop left its head. -/
  owed : ∀ d ∈ drainsOf s.frames, b.promised ≤ b.started.length + (d.1 - d.2)
  closing : ∀ legacy rest, s.frames = .round legacy .ended :: rest →
    b.promised ≤ b.started.length
  kept : s.main = .head → b.promised ≤ b.started.length
  awake : ∀ d, s.main = .waiting d → s.queue.jobs ≠ [] → s.wake = true

section Steps

variable {cfg : Config} {s s' : Shared} {b : Books} {fs : List Frame}

theorem new_booked (cfg : Config) (specs : List BlockSpec) (interval : Duration) :
    Booked cfg (Shared.new specs interval) {} where
  counted := ⟨rfl, Nat.zero_le _⟩
  accepted := rfl
  drains := rfl
  within := by simp
  stacked := .nil
  resting _ := rfl
  promised := Nat.le_refl _
  owed := by simp [Shared.new, drainsOf]
  closing := by simp [Shared.new]
  kept _ := Nat.le_refl _
  awake := by simp [Shared.new]

/-- A step beside the queue, the frames and the main loop. -/
theorem Booked.same (h : Booked cfg s b) (hq : s'.queue = s.queue) (hf : s'.frames = s.frames)
    (hm : s'.main = s.main) (hw : s.wake = true → s'.wake = true) : Booked cfg s' b where
  counted := hq ▸ h.counted
  accepted := hq ▸ h.accepted
  drains := hf ▸ h.drains
  within := h.within
  stacked := hf ▸ h.stacked
  resting := by rw [hf, hm]; exact h.resting
  promised := h.promised
  owed := hf ▸ h.owed
  closing := hf ▸ h.closing
  kept := hm ▸ h.kept
  awake d hd hj := hw (h.awake d (hm ▸ hd) (hq ▸ hj))

theorem enter_same (hd : drainsOf s'.frames = drainsOf s.frames) : b.enter s s' = b := by
  rw [Books.enter, hd, if_neg (Nat.lt_irrefl _)]

/-- A step that enters no drain. -/
theorem Booked.unentered (h : Booked cfg s' b) (hd : drainsOf s'.frames = drainsOf s.frames) :
    Booked cfg s' (b.enter s s') := by
  rw [enter_same hd]
  exact h

theorem Booked.push (h : Booked cfg s b) {j : Job} {queue : Queue}
    (hp : s.queue.push cfg.controlQueue j = .ok queue) :
    Booked cfg { s with queue, wake := true } { b with accepted := b.accepted ++ [j] } where
  counted := h.counted.push hp
  accepted := by simp [Queue.push_jobs hp, h.accepted]
  drains := h.drains
  within := h.within
  stacked := h.stacked
  resting := h.resting
  promised := by
    have := h.promised
    simp only [List.length_append, List.length_singleton]
    omega
  owed := h.owed
  closing := h.closing
  kept := h.kept
  awake _ _ _ := rfl

theorem not_resting (h : Booked cfg s b) (hf : s.frames ≠ []) : ¬s.main.resting = true :=
  fun hr => hf (h.resting hr)

/-- The frames change, but no drain does and the main loop goes on. -/
theorem Booked.reframe (h : Booked cfg s b) (hq : s'.queue = s.queue)
    (hm : ¬s'.main.resting = true) (hst : Stacked s'.frames)
    (hd : drainsOf s'.frames = drainsOf s.frames)
    (hc : ∀ legacy rest, s'.frames = .round legacy .ended :: rest →
      b.promised ≤ b.started.length) : Booked cfg s' b where
  counted := hq ▸ h.counted
  accepted := hq ▸ h.accepted
  drains := hd ▸ h.drains
  within := h.within
  stacked := hst
  resting hr := absurd hr hm
  promised := h.promised
  owed := hd ▸ h.owed
  closing := hc
  kept hk := absurd (by rw [hk]; rfl) hm
  awake d hw := absurd (by rw [hw]; rfl) hm

/-- A drain is entered, over the frames as they were but for the point of a round. -/
theorem Booked.entered (h : Booked cfg s b) (hq : s'.queue = s.queue)
    (hm : ¬s'.main.resting = true) (hf : s'.frames = .drain s.queue.jobs.length 0 :: fs)
    (hst : Stacked fs) (hd : drainsOf fs = drainsOf s.frames) :
    Booked cfg s' (b.enter s s') := by
  have hgrow : drainsOf s'.frames = (s.queue.jobs.length, 0) :: drainsOf s.frames := by
    rw [hf, ← hd]
    rfl
  have henter : b.enter s s' =
      { b with drains := { queued := s.queue.jobs.length } :: b.drains } := by
    rw [Books.enter, hgrow, if_pos (by simp)]
  rw [henter]
  have hlen : b.accepted.length = b.started.length + s.queue.jobs.length := by
    rw [h.accepted, List.length_append]
  exact {
    counted := hq ▸ h.counted
    accepted := hq ▸ h.accepted
    drains := by rw [hgrow, h.drains]; rfl
    within := by
      intro d hd
      simp only [List.cons_append, List.mem_cons] at hd
      rcases hd with rfl | hd
      · exact Nat.zero_le _
      · exact h.within d hd
    stacked := hf ▸ .drain _ _ hst
    resting := fun hr => absurd hr hm
    promised := h.promised
    owed := by
      intro d hd
      rw [hgrow, List.mem_cons] at hd
      rcases hd with rfl | hd
      · have := h.promised
        dsimp only
        omega
      · exact h.owed d hd
    closing := by
      intro legacy rest heq
      cases hf.symm.trans heq
    kept := fun hk => absurd (by rw [hk]; rfl) hm
    awake := fun d hw => absurd (by rw [hw]; rfl) hm }

/-- The main loop leaves its head: what has been accepted by now is promised. -/
theorem Booked.leave (h : Booked cfg s b) (hf : s.frames = []) (hm : s'.main ≠ .head)
    (hq : s'.queue = s.queue) (hf' : s'.frames = [])
    (hw : ∀ d, s'.main = .waiting d → s'.queue.jobs ≠ [] → s'.wake = true) :
    Booked cfg s' { b with promised := b.accepted.length } where
  counted := hq ▸ h.counted
  accepted := hq ▸ h.accepted
  drains := by rw [hf', ← hf]; exact h.drains
  within := h.within
  stacked := hf' ▸ .nil
  resting _ := hf'
  promised := Nat.le_refl _
  owed := by simp [hf', drainsOf]
  closing := by simp [hf']
  kept hk := absurd hk hm
  awake := hw

/-- The drain on top and what is noted of it. -/
theorem Booked.top (h : Booked cfg s b) {queued started : Nat}
    (hf : s.frames = .drain queued started :: fs) :
    ∃ d ds, b.drains = d :: ds ∧ d.queued = queued ∧ d.started.length = started ∧
      drainsOf fs = ds.map fun d => (d.queued, d.started.length) := by
  have hd : (queued, started) :: drainsOf fs =
      b.drains.map fun d => (d.queued, d.started.length) := by
    rw [← h.drains, hf]
    rfl
  rcases hb : b.drains with _ | ⟨d, ds⟩
  · rw [hb] at hd
    cases hd
  · rw [hb, List.map_cons, List.cons.injEq, Prod.mk.injEq] at hd
    exact ⟨d, ds, rfl, hd.1.1.symm, hd.1.2.symm, hd.2⟩

theorem Booked.pop (h : Booked cfg s b) {queued started : Nat} {j : Job} {queue : Queue}
    (hf : s.frames = .drain queued started :: fs) (hlt : started < queued)
    (hp : s.queue.pop = some (j, queue)) :
    Booked cfg { s with queue, frames := .job j :: .drain queued (started + 1) :: fs }
      (b.start j) := by
  obtain ⟨d, ds, hb, hq, hn, hds⟩ := h.top hf
  have hm : ¬s.main.resting = true := not_resting h (by simp [hf])
  have hjobs := Queue.pop_jobs hp
  have hst : Stacked fs := by
    have := h.stacked
    rw [hf] at this
    cases this
    assumption
  exact {
    counted := h.counted.pop hp
    accepted := by
      rw [Books.start, h.accepted, hjobs]
      simp
    drains := by
      rw [Books.start, hb]
      simp [drainsOf, ← hq, ← hn] at hds ⊢
      exact hds
    within := by
      rw [Books.start, hb]
      intro x hx
      rw [List.modifyHead_cons, List.cons_append, List.mem_cons] at hx
      rcases hx with rfl | hx
      · simp only [List.length_append, List.length_singleton]
        omega
      · exact h.within x (by rw [hb]; exact List.mem_cons_of_mem _ hx)
    stacked := .job j (.drain _ _ hst)
    resting := fun hr => absurd hr hm
    promised := h.promised
    owed := by
      have howed := h.owed
      rw [hf] at howed
      intro x hx
      simp only [Books.start, List.length_append, List.length_singleton]
      simp only [drainsOf, List.filterMap_cons, List.mem_cons] at hx howed
      rcases hx with rfl | hx
      · have := howed (queued, started) (.inl rfl)
        dsimp only at this ⊢
        omega
      · have := howed x (.inr hx)
        omega
    closing := by
      intro legacy rest heq
      cases heq
    kept := fun hk => absurd (by rw [hk]; rfl) hm
    awake := fun d hw => absurd (by rw [hw]; rfl) hm }

theorem Booked.drained (h : Booked cfg s b) {queued started : Nat} (now : Instant)
    (hf : s.frames = .drain queued started :: fs) (hend : queued ≤ started ∨ s.queue.jobs = []) :
    Booked cfg (s.drained fs now) b.close := by
  obtain ⟨d, ds, hb, -, -, hds⟩ := h.top hf
  have hm : ¬s.main.resting = true := not_resting h (by simp [hf])
  have hst : Stacked fs := by
    have := h.stacked
    rw [hf] at this
    cases this
    assumption
  have howed := h.owed
  rw [hf] at howed
  -- the drain has kept its promise
  have hkept : b.promised ≤ b.started.length := by
    rcases hend with hend | hend
    · have := howed (queued, started) (List.mem_cons_self ..)
      dsimp only at this
      omega
    · have := h.promised
      rw [h.accepted, hend, List.append_nil] at this
      exact this
  have hwithin : ∀ x ∈ b.close.drains ++ b.close.past, x.started.length ≤ x.queued := by
    intro x hx
    refine h.within x ?_
    rw [Books.close, hb] at hx
    rw [hb]
    simp at hx ⊢
    tauto
  have hdrains : drainsOf fs = b.close.drains.map fun d => (d.queued, d.started.length) := by
    rw [Books.close, hb]
    exact hds
  cases fs with
  | nil =>
    exact {
      counted := h.counted
      accepted := h.accepted
      drains := hdrains
      within := hwithin
      stacked := .nil
      resting := fun _ => rfl
      promised := h.promised
      owed := by simp [Shared.drained, drainsOf]
      closing := by simp [Shared.drained]
      kept := fun _ => hkept
      awake := by simp [Shared.drained] }
  | cons f fs =>
    exact {
      counted := h.counted
      accepted := h.accepted
      drains := hdrains
      within := hwithin
      stacked := hst
      resting := fun hr => absurd hr hm
      promised := h.promised
      owed := fun x hx => howed x (List.mem_cons_of_mem _ hx)
      closing := fun _ _ _ => hkept
      kept := fun _ => hkept
      awake := fun d hw => absurd (by rw [show s.main = _ from hw]; rfl) hm }

/-- The point of the round on top changes, short of the end. -/
theorem Booked.atPoint (h : Booked cfg s b) {legacy : Bool} {p p' : Point}
    (hf : s.frames = .round legacy p :: fs) (hp : p' ≠ .ended) (hq : s'.queue = s.queue)
    (hm : s'.main = s.main) (hf' : s'.frames = .round legacy p' :: fs) :
    Booked cfg s' (b.enter s s') := by
  have hd : drainsOf s'.frames = drainsOf s.frames := by
    rw [hf, hf']
    rfl
  have hst := h.stacked
  rw [hf] at hst
  have hst' : Stacked (.round legacy p' :: fs) := by
    cases hst with
    | first => exact .first ..
    | round _ _ h => exact .round _ _ h
  have hgo : ¬s'.main.resting = true := hm ▸ not_resting h (by simp [hf])
  refine (h.reframe hq hgo (hf' ▸ hst') hd ?_).unentered hd
  intro l rest heq
  rw [hf'] at heq
  cases heq
  exact absurd rfl hp

/-- A safe point of the round on top. -/
theorem Booked.safePoint (h : Booked cfg s b) {legacy : Bool} {p : Point} (p' : Point)
    (hf : s.frames = .round legacy p :: fs) :
    Booked cfg (s.atPoint legacy fs p').drain (b.enter s (s.atPoint legacy fs p').drain) := by
  have hst := h.stacked
  rw [hf] at hst
  have hm : ¬s.main.resting = true := not_resting h (by simp [hf])
  have hst' : Stacked (.round legacy p' :: fs) := by
    cases hst with
    | first => exact .first ..
    | round _ _ h => exact .round _ _ h
  exact h.entered rfl hm rfl hst' (by rw [hf]; rfl)

theorem Booked.roundEnd (h : Booked cfg s b) {legacy : Bool} (now : Instant)
    (hf : s.frames = .round legacy .ended :: fs) : Booked cfg (s.roundEnd fs now) b := by
  have hm : ¬s.main.resting = true := not_resting h (by simp [hf])
  have hst := h.stacked
  rw [hf] at hst
  have hd := h.drains
  have howed := h.owed
  rw [hf] at hd howed
  have hkept : b.promised ≤ b.started.length := h.closing legacy fs hf
  cases hst with
  | first =>
    exact {
      counted := h.counted
      accepted := h.accepted
      drains := hd
      within := h.within
      stacked := .nil
      resting := fun _ => rfl
      promised := h.promised
      owed := howed
      closing := by simp [Shared.roundEnd]
      kept := fun _ => hkept
      awake := by simp [Shared.roundEnd] }
  | round _ _ hst =>
    refine h.reframe rfl hm hst ?_ ?_
    · rw [hf]
      rfl
    · intro l rest heq
      exact hkept

theorem Booked.pass (h : Booked cfg s b) {legacy : Bool} {p : Point} {r : RoundAct}
    (hf : s.frames = .round legacy p :: fs) (hp : Pass cfg s legacy fs p r s') :
    Booked cfg s' (b.enter s s') := by
  have hpasses : ∀ cool object now p', p' ≠ .ended →
      Booked cfg ((s.passes cfg true cool object now).2.atPoint legacy fs p')
        (b.enter s ((s.passes cfg true cool object now).2.atPoint legacy fs p')) := by
    intro cool object now p' hp'
    obtain ⟨cutLogged, cooldown, heq⟩ := (s.passes_spec cfg cool object now).1
    rw [heq]
    exact h.atPoint hf hp' rfl rfl rfl
  have hcalled : ∀ cool object result elapsed now p', p' ≠ .ended →
      Booked cfg ((s.called cfg true cool object result elapsed now).atPoint legacy fs p')
        (b.enter s ((s.called cfg true cool object result elapsed now).atPoint legacy fs p')) := by
    intro cool object result elapsed now p' hp'
    obtain ⟨cooldown, heq⟩ := s.called_frame cfg true cool object result elapsed now
    rw [heq]
    exact h.atPoint hf hp' rfl rfl rfl
  cases hp with
  | block hk => exact h.safePoint _ hf
  | last hk =>
    exact h.atPoint hf (by simp) rfl rfl rfl
  | notDue hd =>
    exact h.atPoint hf (by simp) rfl rfl rfl
  | left hd hb =>
    exact h.atPoint hf (by simp) rfl rfl rfl
  | due hd hb =>
    exact h.atPoint hf (by simp) rfl rfl rfl
  | send ha => exact hpasses _ _ _ _ (by simp)
  | skip ha => exact (hpasses _ _ _ _ (by simp)).same rfl rfl rfl id
  | reply result elapsed now wall => exact (hcalled _ _ _ _ _ _ (by simp)).same rfl rfl rfl id
  | blocks => exact h.safePoint _ hf
  | legacy => exact h.safePoint _ hf
  | call ha => exact hpasses _ _ _ _ (by simp)
  | skipCall ha => exact hpasses _ _ _ _ (by simp)
  | answer result elapsed now => exact hcalled _ _ _ _ _ _ (by simp)
  | done => exact h.safePoint _ hf
  | ended now =>
    exact (h.roundEnd now hf).unentered (by rw [hf, Shared.roundEnd_frames]; rfl)

/-! ### The main loop -/

theorem Booked.loop (h : Booked cfg s b) (hm : s.main = .head) (now : Instant) :
    Booked cfg (s.loop now) ({ b with promised := b.accepted.length }.enter s (s.loop now)) := by
  have hf : s.frames = [] := h.resting (by rw [hm]; rfl)
  have hpause : ∀ deadline, Booked cfg (s.pause deadline)
      ({ b with promised := b.accepted.length }.enter s (s.pause deadline)) := by
    intro deadline
    rw [Shared.pause]
    by_cases hq : s.queue.jobs = []
    · rw [if_pos (by simp [hq])]
      refine Booked.unentered (h.leave hf (by simp) rfl hf ?_) rfl
      intro d _ hjobs
      exact absurd hq hjobs
    · rw [if_neg (by simpa using hq)]
      have hleft : Booked cfg { s with main := .draining deadline.isNone }
          { b with promised := b.accepted.length } :=
        h.leave hf (by simp) rfl hf (by simp)
      exact hleft.entered rfl (by simp [Main.resting]) rfl hleft.stacked rfl
  rw [Shared.loop]
  split
  · dsimp only
    split
    · have hleft : Booked cfg { s with main := .round } { b with promised := b.accepted.length } :=
        h.leave hf (by simp) rfl hf (by simp)
      refine Booked.unentered (hleft.reframe rfl (by simp [Main.resting]) ?_ rfl ?_) rfl
      · rw [Shared.beginRound, hf]
        exact .first ..
      · intro l rest heq
        rw [Shared.beginRound] at heq
        cases heq
    · exact hpause _
  · exact hpause _

theorem Booked.woken (h : Booked cfg s b) (wake idle : Bool) :
    Booked cfg { s.drain with wake, main := .draining idle }
      (b.enter s { s.drain with wake, main := .draining idle }) :=
  h.entered rfl (by simp [Main.resting]) rfl h.stacked rfl

theorem Booked.drain (h : Booked cfg s b) {now : Instant}
    (hs : s.next cfg (.drain now) = some s') : Booked cfg s' (b.note cfg s (.drain now) s') := by
  simp only [Shared.next] at hs
  split at hs
  · rename_i queued started rest hf
    by_cases hlt : started < queued
    · rw [if_pos hlt] at hs
      rcases hp : s.queue.pop with _ | ⟨j, queue⟩
      · simp only [hp] at hs
        cases hs
        have hempty : s.queue.jobs = [] := Queue.pop_eq_none hp
        simp only [Books.note, hempty]
        exact h.drained now hf (.inr hempty)
      · simp only [hp] at hs
        cases hs
        simp only [Books.note, Queue.pop_jobs hp]
        rw [if_pos (by rw [hf]; simp)]
        exact h.pop hf hlt hp
    · rw [if_neg hlt] at hs
      cases hs
      have hclose : b.note cfg s (.drain now) (s.drained rest now) = b.close := by
        simp only [Books.note]
        split
        · rw [if_neg (by rw [hf, Shared.drained_frames]; simp)]
        · rfl
      rw [hclose]
      exact h.drained now hf (.inl (Nat.le_of_not_lt hlt))
  · cases hs

theorem Booked.jobRound (h : Booked cfg s b) {j : Job} (hf : s.frames = .job j :: fs)
    (legacy : Bool) : Booked cfg (s.beginRound legacy) b := by
  have hm : ¬s.main.resting = true := not_resting h (by simp [hf])
  refine h.reframe rfl hm ?_ rfl ?_
  · have hst := h.stacked
    rw [hf] at hst
    rw [Shared.beginRound, hf]
    exact .round _ _ hst
  · intro l rest heq
    rw [Shared.beginRound] at heq
    cases heq

theorem Booked.jobEnd (h : Booked cfg s b) {j : Job} (hf : s.frames = .job j :: fs) :
    Booked cfg { s with frames := fs } b := by
  have hm : ¬s.main.resting = true := not_resting h (by simp [hf])
  have hst := h.stacked
  rw [hf] at hst
  cases hst with
  | job _ hst =>
    refine h.reframe rfl hm hst ?_ ?_
    · rw [hf]
      rfl
    · intro l rest heq
      cases heq

/-- Every step keeps the books. -/
theorem Booked.step (h : Booked cfg s b) {a : Act} (hs : s.next cfg a = some s') :
    Booked cfg s' (b.note cfg s a s') := by
  cases a with
  | push j =>
    simp only [Shared.next] at hs
    simp only [Books.note]
    rcases hp : s.queue.push cfg.controlQueue j with e | queue
    · simp only [hp] at hs
      cases hs
      exact h
    · simp only [hp] at hs
      cases hs
      exact h.push hp
  | loop now =>
    simp only [Shared.next] at hs
    split at hs
    · rename_i hm
      cases hs
      exact h.loop hm now
    · cases hs
  | woken =>
    simp only [Shared.next] at hs
    split at hs
    · split at hs
      · cases hs
        exact h.woken ..
      · cases hs
    · cases hs
  | timeout now =>
    simp only [Shared.next] at hs
    split at hs
    · split at hs
      · cases hs
        exact h.woken s.wake false
      · cases hs
    · cases hs
  | drain now => exact h.drain hs
  | jobCall object result elapsed now =>
    simp only [Shared.next] at hs
    split at hs
    · cases hs
      obtain ⟨cooldown, heq⟩ := s.called_frame cfg false false object result elapsed now
      rw [heq]
      exact Booked.unentered (h.same rfl rfl rfl id) rfl
    · cases hs
  | jobRound legacy =>
    simp only [Shared.next] at hs
    split at hs
    · rename_i hf
      cases hs
      exact Booked.unentered (h.jobRound hf legacy) rfl
    · cases hs
  | jobEnd =>
    simp only [Shared.next] at hs
    split at hs
    · rename_i hf
      cases hs
      exact Booked.unentered (h.jobEnd hf) (by rw [hf]; rfl)
    · cases hs
  | round r =>
    simp only [Shared.next] at hs
    split at hs
    · rename_i hf
      exact h.pass hf (Shared.roundStep_pass hs)
    · cases hs
  | _ =>
    cases hs
    exact Booked.unentered (h.same rfl rfl rfl (by simp)) rfl

end Steps

/-! ### The discipline -/

/-- **The queue of the executor.**  In every state that any interleaving of pushes and
    drains reaches, rounds that run as jobs included: the counter is the number of queued
    control jobs, and is not zero when one of them is taken out; a job is refused exactly if
    it is a control job and that number is at the cap; the jobs started so far and the queue
    together are the accepted jobs in their order; a drain has started at most as many jobs
    as it found; when the main loop is back at its head, all jobs accepted before it last
    left it have been started; and it sleeps over a queued job only with a permit to wake. -/
theorem queue_discipline (cfg : Config) (specs : List BlockSpec) (interval : Duration)
    {s : Shared} {b : Books}
    (h : Exec (watched (Shared.next cfg) (Books.note cfg)) (fun _ _ => True)
      (Shared.new specs interval, {}) (s, b)) :
    (s.queue.controls = s.queue.controlJobs ∧ s.queue.controls ≤ cfg.controlQueue ∧
      ∀ j queue, s.queue.pop = some (j, queue) → j.control = true → 0 < s.queue.controls) ∧
    (∀ j, s.queue.push cfg.controlQueue j = .error .busy ↔
      j.control = true ∧ s.queue.controlJobs = cfg.controlQueue) ∧
    b.accepted = b.started ++ s.queue.jobs ∧
    (∀ d ∈ b.drains ++ b.past, d.started.length ≤ d.queued) ∧
    (s.main = .head → b.accepted.take b.promised <+: b.started) ∧
    (∀ d, s.main = .waiting d → s.queue.jobs ≠ [] → s.wake = true) := by
  have hb : Booked cfg s b := by
    refine h.invariant (fun p => Booked cfg p.1 p.2) (fun {p p' a} hp _ hs => ?_)
      (new_booked cfg specs interval)
    obtain ⟨hnext, hnote⟩ := watched_eq_some.mp hs
    rw [hnote]
    exact hp.step hnext
  refine ⟨⟨hb.counted.controls, hb.counted.capped, ?_⟩, hb.counted.refuses, hb.accepted,
    hb.within, ?_, hb.awake⟩
  · intro j queue hp hj
    rw [hb.counted.controls, Queue.controlJobs, Queue.pop_jobs hp, List.countP_cons, if_pos hj]
    exact Nat.succ_pos _
  · intro hm
    rw [hb.accepted, List.take_append_of_le_length (hb.kept hm)]
    exact List.take_prefix ..

/-- Two blocks of the daemon. -/
def sampleBlocks : List BlockSpec :=
  [.new "battery" "zwrt_bsp.battery" "list" (secs 5),
    .new "charger" "zwrt_bsp.charger" "list" (secs 5)]

/-- A job is a round, whose first safe point runs the job queued behind it; one more job
    arrives in between. -/
def nestedRun : List Act :=
  [.push ⟨1, true⟩, .push ⟨2, false⟩, .loop 0, .drain 0, .jobRound true, .round .safePoint,
    .push ⟨3, true⟩, .drain 0]

theorem queue_discipline_nested : ∃ s b,
    Exec (watched (Shared.next {}) (Books.note {})) (fun _ _ => True)
        (Shared.new sampleBlocks 0, {}) (s, b) ∧
      b.started.map Job.id = [1, 2] ∧ s.queue.jobs.map Job.id = [3] ∧
      s.queue.controls = s.queue.controlJobs := by
  have hrun : (run (watched (Shared.next {}) (Books.note {})) (fun _ _ => true)
      (Shared.new sampleBlocks 0, {}) nestedRun).any (fun p =>
        p.2.started.map Job.id = [1, 2] && p.1.queue.jobs.map Job.id = [3]) = true := by
    decide +kernel
  obtain ⟨⟨s, b⟩, h, hp⟩ := Exec.exists_of_run (fun _ _ _ => trivial) (.refl _) hrun
  rw [Bool.and_eq_true, decide_eq_true_eq, decide_eq_true_eq] at hp
  exact ⟨s, b, h, hp.1, hp.2, (queue_discipline {} sampleBlocks 0 h).1.1⟩

end Executor

end Datad
