/-
  Datad/Executor/Timeouts.lean
  ============================
  **How many calls of a round can time out** (`Shared::raw_call`, V2-19).

  Three brakes hold a round back when ubus hangs: an object that timed out is skipped for
  the rest of the round, blocks are read only within the budget, and the old collection
  stops once six objects have timed out.  An observer lists the calls of the round, the
  newest first (`timeouts_bounded`).
-/
import Datad.Executor.Rotation

namespace Datad

namespace Executor

open Hub Transition

/-! ### The observer -/

/-- A call of a round; once it is answered, how long it took and whether it timed out. -/
structure Call where
  legacy : Bool
  object : String
  answered : Option (Duration × Bool) := none
deriving DecidableEq

namespace Call

def elapsed (c : Call) : Duration := (c.answered.map Prod.fst).getD 0

def timedOut (c : Call) : Bool := c.answered.any Prod.snd

end Call

namespace Calls

def used (calls : List Call) : Duration := (calls.map Call.elapsed).sum

/-- The objects of the calls that timed out. -/
def timedOut (calls : List Call) : List String :=
  (calls.filter Call.timedOut).map Call.object

/-- How many reads of blocks timed out. -/
def blockTimeouts (calls : List Call) : Nat := calls.countP fun c => !c.legacy && c.timedOut

/-- The call under way is answered. -/
def answer (result : Except UbusError Value) (elapsed : Duration) (calls : List Call) :
    List Call :=
  calls.modifyHead fun c => { c with answered := some (elapsed, isTimeout result) }

/-- A new round has made no calls. -/
def begin (_ : Shared) (_ : List Call) : List Call := []

def pass (cfg : Config) (s : Shared) (p : Point) (r : RoundAct) (calls : List Call) :
    List Call :=
  match p, r with
  | .read _ _ i, .send now _ =>
    if (s.passes cfg true false (s.object i) now).1 then
      { legacy := false, object := s.object i } :: calls
    else calls
  | .legacy, .call object now =>
    if (s.passes cfg true true object now).1 then { legacy := true, object } :: calls else calls
  | .waiting .., .reply result elapsed _ _ => answer result elapsed calls
  | .calling _, .answer result elapsed _ => answer result elapsed calls
  | _, _ => calls

def note (cfg : Config) : Shared → Act → Shared → List Call → List Call :=
  noteRounds begin (pass cfg)

end Calls

/-! ### When a call may start -/

open Calls

/-- The call may start after the earlier ones. -/
structure Allowed (budget : Duration) (c : Call) (earlier : List Call) : Prop where
  fresh : c.object ∉ timedOut earlier
  block : c.legacy = false → used earlier < budget ∧ ∀ d ∈ earlier, d.legacy = false
  legacy : c.legacy = true → (timedOut earlier).length < legacyTimeoutLimit

/-- Each call could start when it did. -/
def Ruled (budget : Duration) : List Call → Prop
  | [] => True
  | c :: earlier => Allowed budget c earlier ∧ Ruled budget earlier

section Rules

variable {budget : Duration} {c : Call} {earlier calls : List Call}

theorem timedOut_cons (c : Call) (earlier : List Call) :
    timedOut (c :: earlier) =
      if c.timedOut then c.object :: timedOut earlier else timedOut earlier := by
  rw [timedOut, List.filter_cons]
  split <;> rfl

theorem used_cons (c : Call) (earlier : List Call) :
    used (c :: earlier) = c.elapsed + used earlier := by
  rw [used, List.map_cons, List.sum_cons, used]

theorem blockTimeouts_cons (c : Call) (earlier : List Call) :
    blockTimeouts (c :: earlier) =
      blockTimeouts earlier + if !c.legacy && c.timedOut then 1 else 0 :=
  List.countP_cons

theorem Ruled.suffix (h : Ruled budget calls) (hs : c :: earlier <:+ calls) :
    Allowed budget c earlier := by
  induction calls with
  | nil => cases List.suffix_nil.mp hs
  | cons d calls ih =>
    rcases List.suffix_cons_iff.mp hs with heq | hs
    · cases heq
      exact h.1
    · exact ih h.2 hs

/-- No object times out twice. -/
theorem Ruled.nodup (h : Ruled budget calls) : (timedOut calls).Nodup := by
  induction calls with
  | nil => exact List.nodup_nil
  | cons c calls ih =>
    rw [timedOut_cons]
    split
    · exact List.nodup_cons.mpr ⟨h.1.fresh, ih h.2⟩
    · exact ih h.2

theorem timedOut_of_blocks (h : ∀ c ∈ calls, c.legacy = false) :
    (timedOut calls).length = blockTimeouts calls := by
  induction calls with
  | nil => rfl
  | cons c calls ih =>
    have hc : c.legacy = false := h c (by simp)
    have hrest := ih fun d hd => h d (List.mem_cons_of_mem _ hd)
    rw [timedOut_cons, blockTimeouts_cons, ← hrest, hc]
    by_cases ht : c.timedOut = true <;> simp [ht]

/-- The blocks come first, so a call of the old collection that times out is among the
    first six time-outs. -/
theorem Ruled.bounded (h : Ruled budget calls) :
    (timedOut calls).length ≤ max legacyTimeoutLimit (blockTimeouts calls) := by
  induction calls with
  | nil => exact Nat.zero_le _
  | cons c calls ih =>
    by_cases hl : c.legacy = true
    · have hlimit := h.1.legacy hl
      have hrest := ih h.2
      rw [timedOut_cons, blockTimeouts_cons, hl]
      by_cases ht : c.timedOut = true
      · simp only [ht, if_true, List.length_cons]
        omega
      · simpa [ht] using hrest
    · rw [Bool.not_eq_true] at hl
      have hblocks : ∀ d ∈ c :: calls, d.legacy = false := by
        intro d hd
        rcases List.mem_cons.mp hd with rfl | hd
        · exact hl
        · exact (h.1.block hl).2 d hd
      rw [timedOut_of_blocks hblocks]
      exact Nat.le_max_right _ _

end Rules

/-! ### What a step keeps -/

/-- The calls of a round that stands at a point. -/
def Reached (budget : Duration) (calls : List Call) : Point → Prop
  | .block .. | .test .. => ∀ c ∈ calls, c.legacy = false
  | .read .. => used calls < budget ∧ ∀ c ∈ calls, c.legacy = false
  | .waiting _ _ _ object => ∃ earlier, calls = { legacy := false, object } :: earlier
  | .calling object => ∃ earlier, calls = { legacy := true, object } :: earlier
  | .blocks | .legacy | .ended => True

structure Tallied (cfg : Config) (s : Shared) (calls : List Call) : Prop where
  ruled : Ruled cfg.budget calls
  used : s.round.used = used calls
  skips : s.round.skips = timedOut calls
  stands : pointsOf s.frames = [] ∨
    ∃ p, pointsOf s.frames = [p] ∧ Reached cfg.budget calls p

section Steps

variable {cfg : Config} {s s' : Shared} {a : Act} {calls : List Call}

theorem new_tallied (cfg : Config) (specs : List BlockSpec) (interval : Duration) :
    Tallied cfg (Shared.new specs interval) [] :=
  ⟨trivial, rfl, rfl, .inl rfl⟩

theorem Tallied.aside (h : Tallied cfg s calls) (hs : Aside s a s') : Tallied cfg s' calls := by
  refine ⟨h.ruled, hs.round ▸ h.used, hs.round ▸ h.skips, ?_⟩
  rw [hs.points]
  exact h.stands

theorem Tallied.begin (points : pointsOf s'.frames = [.block (s.cursor % s.n) 0])
    (round : s'.round = {}) : Tallied cfg s' (Calls.begin s calls) := by
  refine ⟨trivial, by rw [round]; rfl, by rw [round]; rfl, .inr ⟨_, points, ?_⟩⟩
  intro c hc
  cases hc

/-- The call under way is answered. -/
theorem Ruled.answer {budget : Duration} {c : Call} {earlier : List Call}
    (h : Ruled budget (c :: earlier)) (result : Except UbusError Value) (elapsed : Duration) :
    Ruled budget (answer result elapsed (c :: earlier)) :=
  ⟨⟨h.1.fresh, h.1.block, h.1.legacy⟩, h.2⟩

theorem after_tallied {rs : RoundState} {legacy : Bool} {object : String} {earlier : List Call}
    (hused : rs.used = used ({ legacy, object } :: earlier))
    (hskips : rs.skips = timedOut ({ legacy, object } :: earlier))
    (hfresh : object ∉ timedOut earlier) (result : Except UbusError Value) (elapsed : Duration) :
    (rs.after object result elapsed).used =
        used (answer result elapsed ({ legacy, object } :: earlier)) ∧
      (rs.after object result elapsed).skips =
        timedOut (answer result elapsed ({ legacy, object } :: earlier)) := by
  have hskips' : rs.skips = timedOut earlier := hskips
  have hused' : rs.used = used earlier := by
    rw [hused, used_cons]
    exact Nat.zero_add _
  constructor
  · rw [RoundState.after, answer, List.modifyHead_cons, used_cons, hused']
    exact Nat.add_comm _ _
  · rw [RoundState.after, answer, List.modifyHead_cons, timedOut_cons, hskips', record]
    by_cases ht : isTimeout result = true
    · simp [Call.timedOut, ht, hfresh]
    · simp [Call.timedOut, ht]

/-- The round goes on and its calls are as they were. -/
theorem Tallied.stays (h : Tallied cfg s calls) (hused : s'.round.used = s.round.used)
    (hskips : s'.round.skips = s.round.skips) {p : Point} (hp : pointsOf s'.frames = [p])
    (hat : Reached cfg.budget calls p) : Tallied cfg s' calls :=
  ⟨h.ruled, hused.trans h.used, hskips.trans h.skips, .inr ⟨p, hp, hat⟩⟩

/-- A request of the round goes out. -/
theorem Tallied.sends (h : Tallied cfg s calls) {legacy : Bool} {object : String} {p : Point}
    (hused : s'.round.used = s.round.used) (hskips : s'.round.skips = s.round.skips)
    (hallowed : Allowed cfg.budget { legacy, object } calls)
    (hp : pointsOf s'.frames = [p])
    (hat : Reached cfg.budget ({ legacy, object } :: calls) p) :
    Tallied cfg s' ({ legacy, object } :: calls) := by
  refine ⟨⟨hallowed, h.ruled⟩, ?_, ?_, .inr ⟨p, hp, hat⟩⟩
  · rw [hused, h.used, used_cons]
    exact (Nat.zero_add _).symm
  · exact hskips.trans h.skips

/-- The reply to a request of the round. -/
theorem Tallied.replies {legacy : Bool} {object : String} {earlier : List Call}
    (h : Tallied cfg s ({ legacy, object } :: earlier)) {result : Except UbusError Value}
    {elapsed : Duration} (hround : s'.round = s.round.after object result elapsed) {p : Point}
    (hp : pointsOf s'.frames = [p])
    (hat : Reached cfg.budget (answer result elapsed ({ legacy, object } :: earlier)) p) :
    Tallied cfg s' (answer result elapsed ({ legacy, object } :: earlier)) := by
  obtain ⟨hused, hskips⟩ := after_tallied h.used h.skips h.ruled.1.fresh result elapsed
  rw [← hround] at hused hskips
  exact ⟨h.ruled.answer result elapsed, hused, hskips, .inr ⟨p, hp, hat⟩⟩

theorem Tallied.pass (h : Tallied cfg s calls) {r : RoundAct} {legacy : Bool} {p : Point}
    {rest : List Frame} (hf : s.frames = .round legacy p :: rest)
    (hp : Pass cfg s legacy rest p r s') : Tallied cfg s' (Calls.pass cfg s p r calls) := by
  have hpoints : pointsOf s.frames = p :: pointsOf rest := by rw [hf]; rfl
  rcases h.stands with hnone | ⟨q, hone, hat⟩
  · cases hpoints.symm.trans hnone
  · obtain ⟨rfl, hrest⟩ := List.cons.inj (hpoints.symm.trans hone)
    -- the frames below hold no round
    have hpoint : ∀ p', p' :: pointsOf rest = [p'] := fun p' => by rw [hrest]
    cases hp with
    | block hk => exact h.stays rfl rfl (hpoint _) hat
    | last hk => exact h.stays rfl rfl (hpoint _) trivial
    | notDue hd => exact h.stays rfl rfl (hpoint _) hat
    | left hd hb => exact h.stays rfl rfl (hpoint _) trivial
    | due hd hb => exact h.stays rfl rfl (hpoint _) ⟨h.used ▸ hb, hat⟩
    | @send start k i now wall ha =>
      obtain ⟨⟨cutLogged, cooldown, heq⟩, hopen⟩ := s.passes_spec cfg false (s.object i) now
      have hfresh : s.object i ∉ timedOut calls := h.skips ▸ (hopen ha).1
      simp only [Calls.pass, ha, if_true]
      rw [heq]
      have hallowed : Allowed cfg.budget { legacy := false, object := s.object i } calls :=
        ⟨hfresh, fun _ => hat, by simp⟩
      exact h.sends rfl rfl hallowed (hpoint _) ⟨calls, rfl⟩
    | @skip start k i now wall ha =>
      obtain ⟨cutLogged, cooldown, heq⟩ := (s.passes_spec cfg false (s.object i) now).1
      simp only [Calls.pass, ha]
      rw [heq]
      exact h.stays rfl rfl (hpoint _) hat.2
    | @reply start k i object result elapsed now wall =>
      obtain ⟨earlier, rfl⟩ := hat
      obtain ⟨cooldown, heq⟩ := s.called_frame cfg true false object result elapsed now
      rw [heq]
      refine h.replies rfl (hpoint _) ?_
      intro c hc
      rcases List.mem_cons.mp hc with rfl | hc
      · rfl
      · exact (h.ruled.1.block rfl).2 c hc
    | blocks => cases legacy <;> exact h.stays rfl rfl (hpoint _) trivial
    | legacy => exact h.stays rfl rfl (hpoint _) trivial
    | @call object now ha =>
      obtain ⟨⟨cutLogged, cooldown, heq⟩, hopen⟩ := s.passes_spec cfg true object now
      have hfresh : object ∉ timedOut calls := h.skips ▸ (hopen ha).1
      have hlimit : (timedOut calls).length < legacyTimeoutLimit := h.skips ▸ (hopen ha).2 rfl
      simp only [Calls.pass, ha, if_true]
      rw [heq]
      have hallowed : Allowed cfg.budget { legacy := true, object } calls :=
        ⟨hfresh, by simp, fun _ => hlimit⟩
      exact h.sends rfl rfl hallowed (hpoint _) ⟨calls, rfl⟩
    | @skipCall object now ha =>
      obtain ⟨cutLogged, cooldown, heq⟩ := (s.passes_spec cfg true object now).1
      simp only [Calls.pass, ha]
      rw [heq]
      exact h.stays rfl rfl (hpoint _) trivial
    | @answer object result elapsed now =>
      obtain ⟨earlier, rfl⟩ := hat
      obtain ⟨cooldown, heq⟩ := s.called_frame cfg true true object result elapsed now
      rw [heq]
      exact h.replies rfl (hpoint _) trivial
    | done => exact h.stays rfl rfl (hpoint _) trivial
    | ended now =>
      have hsame : (s.roundEnd rest now).round = s.round := by cases rest <;> rfl
      refine ⟨h.ruled, hsame ▸ h.used, hsame ▸ h.skips, .inl ?_⟩
      rw [Shared.roundEnd_frames, hrest]

end Steps

/-- **The time-outs of a round.**  In a run without nested rounds, for the calls of the round
    under way or just over, whatever they answer and whatever jobs run in between: no object
    is called again after a call of it timed out; a block is read only while the calls before
    took less than the budget; the old collection makes a request only while fewer than six
    objects have timed out; so at most six calls time out, or as many as block reads did.  The
    time used and the objects skipped are those of the calls made: skipped ones add nothing. -/
theorem timeouts_bounded (cfg : Config) (specs : List BlockSpec) (interval : Duration)
    {s : Shared} {calls : List Call}
    (h : Exec (watched (Shared.next cfg) (Calls.note cfg)) (fun q a => Unnested q.1 a)
      (Shared.new specs interval, []) (s, calls)) :
    (∀ c earlier, c :: earlier <:+ calls →
      c.object ∉ timedOut earlier ∧
      (c.legacy = false → used earlier < cfg.budget) ∧
      (c.legacy = true → (timedOut earlier).length < legacyTimeoutLimit)) ∧
    (timedOut calls).Nodup ∧
    (timedOut calls).length ≤ max legacyTimeoutLimit (blockTimeouts calls) ∧
    s.round.used = used calls ∧ s.round.skips = timedOut calls := by
  have ht : Tallied cfg s calls :=
    single_rounds_invariant (Tallied cfg) (new_tallied cfg specs interval) Tallied.aside
      (fun _ _ hp hround _ _ => Tallied.begin hp hround) (fun ht hf hp => ht.pass hf hp) h
  refine ⟨fun c earlier hs => ?_, ht.ruled.nodup, ht.ruled.bounded, ht.used, ht.skips⟩
  have hc := ht.ruled.suffix hs
  exact ⟨hc.fresh, fun hl => (hc.block hl).1, hc.legacy⟩

/-- A block read times out; the old collection skips its object and another one times out. -/
def hangingRun : List Act :=
  .startRounds :: roundOpens 0 ++
    [.round (.test 0), .round (.send 0 0), .round (.reply (.error (.timeout "")) 2 0 0),
      .round .safePoint, .drain 0, .round (.test 0)] ++
    [.round .safePoint, .drain 0, .round (.call "zwrt_bsp.battery" 0),
      .round (.call "zwrt_wms" 0), .round (.answer (.error (.timeout "")) 2 0)]

theorem timeouts_bounded_hanging : ∃ s calls,
    Exec (watched (Shared.next { budget := 2 }) (Calls.note { budget := 2 }))
        (fun q a => Unnested q.1 a) (Shared.new sampleBlocks 0, []) (s, calls) ∧
      timedOut calls = ["zwrt_wms", "zwrt_bsp.battery"] ∧ s.round.used = 4 ∧
      s.round.skips = timedOut calls := by
  have hrun : (run (watched (Shared.next { budget := 2 }) (Calls.note { budget := 2 }))
      (fun q a => unnested q.1 a) (Shared.new sampleBlocks 0, []) hangingRun).any
        (fun q => timedOut q.2 = ["zwrt_wms", "zwrt_bsp.battery"] && q.1.round.used = 4) =
          true := by
    decide +kernel
  obtain ⟨⟨s, calls⟩, h, hp⟩ :=
    Exec.exists_of_run (fun _ _ => Unnested.of_test _ _) (.refl _) hrun
  rw [Bool.and_eq_true, decide_eq_true_eq, decide_eq_true_eq] at hp
  have hbounded := timeouts_bounded { budget := 2 } sampleBlocks 0 h
  exact ⟨s, calls, h, hp.1, hp.2, hbounded.2.2.2.2⟩

end Executor

end Datad
