/-
  Datad/Executor/Marks.lean
  =========================
  **The executor, seen from the blocks that are marked.**

  What becomes of a mark is shown over the machine of `Hub/Executor.lean`, which knows the
  rounds and their calls, but no queue, no drain and no main loop.  Every run of the whole
  executor is a run there (`Shared.refines`): a step of a round is one step, or two where a
  block is skipped, and what happens beside the rounds is none.  So the marks are heard
  here as well (`marks_heard`).
-/
import Datad.Executor.Rounds

namespace Datad

namespace Executor

open Hub Transition

/-! ### The rounds under way -/

def Point.phase : Point → Hub.Phase
  | .block start k | .test start k => .scan start k
  | .read start k i => .ready start k i
  | .waiting start k i _ => .call start k i true
  | .blocks | .legacy | .calling _ | .ended => .legacy

/-- The round at the bottom is the one the main loop started. -/
def roundsOf : List Frame → List Hub.Round
  | [] => []
  | .round _ p :: rest => ⟨rest.isEmpty, p.phase⟩ :: roundsOf rest
  | .drain .. :: rest => roundsOf rest
  | .job _ :: rest => roundsOf rest

/-- The innermost round neither begins a call nor waits for one. -/
def calm : List Hub.Round → Bool
  | ⟨_, .ready ..⟩ :: _ | ⟨_, .call ..⟩ :: _ => false
  | _ => true

/-- What lies under another frame is at a safe point. -/
def Paused : List Frame → Prop
  | [] => True
  | _ :: rest => calm (roundsOf rest) = true ∧ Paused rest

/-- A round tests a block there is, and waits for the call of the block it reads. -/
def Frame.Fits (s : Shared) : Frame → Prop
  | .round _ (.test _ k) => k < s.n
  | .round _ (.waiting _ _ i object) => object = s.object i
  | _ => True

/-! ### The blocks stay the same -/

def specsOf (g : Inner) : List BlockSpec := g.blocks.map Block.spec

section Specs

variable {g : Inner}

theorem specs_of_untried {g' : Inner} (h : Pointwise Untried g.blocks g'.blocks) :
    specsOf g' = specsOf g := h.map_eq fun hu => hu.spec

theorem specs_markImmediate (names : Option (List String)) :
    specsOf (markImmediate g names) = specsOf g := by
  rw [specsOf, markImmediate, List.map_map, specsOf]
  apply List.map_congr_left
  intro b _
  rw [Function.comp_apply]
  split
  · rfl
  · rfl

theorem specs_recordRead (i : Nat) (result : Except String Value) (now : Instant)
    (wall : Nat) : specsOf (Hub.recordRead g i result now wall).1 = specsOf g := by
  rcases hb : g.blocks[i]? with _ | b
  · simp [Hub.recordRead, hb]
  · obtain ⟨b₁, htried, hp⟩ := recordRead_tried hb result now wall
    have hset : Pointwise (fun x y => y.spec = x.spec) g.blocks (g.blocks.set i b₁) :=
      .set (fun _ => rfl) hb htried.spec
    have hrest := hp.map_eq (f := Block.spec) fun h => h.spec
    exact hrest.trans (hset.map_eq fun h => h)

variable {s s' : Shared}

theorem n_eq_of_specs (h : specsOf s'.hub = specsOf s.hub) : s'.n = s.n := by
  have := congrArg List.length h
  simpa [specsOf, Shared.n] using this

theorem object_eq_of_specs (h : specsOf s'.hub = specsOf s.hub) (i : Nat) :
    s'.object i = s.object i := by
  have := congrArg (fun l : List BlockSpec => (l[i]?.map BlockSpec.object).getD "") h
  simpa [specsOf, Shared.object, Function.comp_def] using this

theorem Frame.Fits.of_specs {f : Frame} (h : f.Fits s) (hs : specsOf s'.hub = specsOf s.hub) :
    f.Fits s' := by
  unfold Frame.Fits at h ⊢
  split
  · exact n_eq_of_specs hs ▸ h
  · exact h.trans (object_eq_of_specs hs _).symm
  · trivial

end Specs

/-! ### The simulation -/

/-- The blocks marked since the last request for them went out. -/
def noteAsked (cfg : Config) (s : Shared) (a : Act) (_ : Shared) (asked : Nat → Bool) :
    Nat → Bool :=
  let marked (names : Option (List String)) (i : Nat) : Bool :=
    asked i || s.hub.blocks[i]?.any fun b => names.all (·.contains b.spec.name)
  match a with
  | .mark names => marked names
  | .kick names => marked (some names)
  | .round (.send now _) =>
    match s.frames with
    | .round _ (.read _ _ i) :: _ =>
      if (s.passes cfg true false (s.object i) now).1 then fun j => asked j && j != i else asked
    | _ => asked
  | _ => asked

/-- Other tasks hand in derived blocks only, the clock of the main loop does not go back,
    and no mark has arrived since a read began that now succeeds. -/
def Timely (q : Shared × (Nat → Bool)) : Act → Prop
  | .record name .. =>
    ∀ i, position q.1.hub name = some i → q.1.hub.blocks[i]?.all (·.spec.derived) = true
  | .drain now => q.1.lastRoundEnd ≤ now
  | .round (.reply result ..) => ∀ legacy start k i object rest,
    q.1.frames = .round legacy (.waiting start k i object) :: rest →
      (accepted (result.mapError UbusError.text)).isNone = true ∨ q.2 i = false
  | _ => True

def Config.hub (cfg : Config) : Hub.Config := ⟨cfg.budget, cfg.cache⟩

/-- How the executor and the rounds of the hub's machine agree. -/
structure Seen (q : Shared × (Nat → Bool)) (g : Hub.Shared) : Prop where
  paused : Paused q.1.frames
  fits : ∀ f ∈ q.1.frames, f.Fits q.1
  hub : g.hub = q.1.hub
  used : g.used = q.1.round.used
  skips : ∀ object, object ∈ g.skips ↔ object ∈ q.1.round.skips
  cursor : g.cursor = q.1.cursor
  kick : g.kick = q.1.kick
  ended : g.lastRoundEnd ≤ q.1.lastRoundEnd
  rounds : g.rounds = roundsOf q.1.frames
  asked : g.asked = q.2

section Steps

variable {cfg : Config} {s s' : Shared} {asked : Nat → Bool} {g g' : Hub.Shared}
  {legacy : Bool} {p p' : Point} {rest : List Frame}

theorem new_seen (specs : List BlockSpec) (interval : Duration) :
    Seen (Shared.new specs interval, fun _ => false) (Hub.Shared.new specs) where
  paused := trivial
  fits := by simp [Shared.new]
  hub := rfl
  used := rfl
  skips _ := Iff.rfl
  cursor := rfl
  kick := rfl
  ended := Nat.le_refl _
  rounds := rfl
  asked := rfl

/-- A step that the hub's machine does not see. -/
theorem Seen.beside (h : Seen (s, asked) g) (hhub : s'.hub = s.hub)
    (hround : s'.round = s.round) (hcursor : s'.cursor = s.cursor) (hkick : s'.kick = s.kick)
    (hended : s.lastRoundEnd ≤ s'.lastRoundEnd)
    (hrounds : roundsOf s'.frames = roundsOf s.frames) (hpaused : Paused s'.frames)
    (hfits : ∀ f ∈ s'.frames, f ∈ s.frames ∨ f.Fits s') : Seen (s', asked) g where
  paused := hpaused
  fits f hf := (hfits f hf).elim (fun hmem => (h.fits f hmem).of_specs (congrArg specsOf hhub)) id
  hub := h.hub.trans hhub.symm
  used := h.used.trans (congrArg RoundState.used hround).symm
  skips object := (h.skips object).trans (by rw [hround])
  cursor := h.cursor.trans hcursor.symm
  kick := h.kick.trans hkick.symm
  ended := Nat.le_trans h.ended hended
  rounds := h.rounds.trans hrounds.symm
  asked := h.asked

/-- Only the queue, what wakes the executor and where its loop is may differ. -/
theorem Seen.same (h : Seen (s, asked) g) (hhub : s'.hub = s.hub) (hround : s'.round = s.round)
    (hcursor : s'.cursor = s.cursor) (hkick : s'.kick = s.kick)
    (hended : s'.lastRoundEnd = s.lastRoundEnd) (hframes : s'.frames = s.frames) :
    Seen (s', asked) g := by
  apply h.beside hhub hround hcursor hkick (Nat.le_of_eq hended.symm) (congrArg roundsOf hframes)
  · rw [hframes]
    exact h.paused
  · intro f hf
    rw [hframes] at hf
    exact .inl hf

/-- A drain is entered at a safe point. -/
theorem Seen.drain (h : Seen (s, asked) g) (hcalm : calm (roundsOf s.frames) = true) :
    Seen (s.drain, asked) g := by
  refine h.beside rfl rfl rfl rfl (Nat.le_refl _) rfl ⟨hcalm, h.paused⟩ ?_
  intro f hf
  rcases List.mem_cons.mp hf with rfl | hf
  · exact .inr trivial
  · exact .inl hf

/-- Another task works on the blocks. -/
theorem Seen.worked (h : Seen (s, asked) g) {asked' : Nat → Bool} {hub : Inner}
    (hspecs : specsOf hub = specsOf s.hub) :
    Seen ({ s with hub }, asked') { g with hub, asked := asked' } where
  paused := h.paused
  fits f hf := (h.fits f hf).of_specs hspecs
  hub := rfl
  used := h.used
  skips := h.skips
  cursor := h.cursor
  kick := h.kick
  ended := h.ended
  rounds := h.rounds
  asked := rfl

theorem Seen.kicked (h : Seen (s, asked) g) (wake kick : Bool) :
    Seen ({ s with wake, kick }, asked) { g with kick } where
  paused := h.paused
  fits f hf := (h.fits f hf).of_specs rfl
  hub := h.hub
  used := h.used
  skips := h.skips
  cursor := h.cursor
  kick := rfl
  ended := h.ended
  rounds := h.rounds
  asked := h.asked

/-- A round begins. -/
theorem Seen.begins (h : Seen (s, asked) g) (legacy kick : Bool) (main : Main)
    (hcalm : calm (roundsOf s.frames) = true) :
    Seen ({ s.beginRound legacy with kick, main }, asked)
      { g.startRound s.frames.isEmpty with kick } where
  paused := ⟨hcalm, h.paused⟩
  fits f hf := by
    rcases List.mem_cons.mp hf with rfl | hf
    · trivial
    · exact h.fits f hf
  hub := h.hub
  used := rfl
  skips _ := Iff.rfl
  cursor := h.cursor
  kick := rfl
  ended := h.ended
  rounds := by
    show _ :: g.rounds = _ :: roundsOf s.frames
    rw [h.rounds, h.cursor, h.hub]
    rfl
  asked := h.asked

/-- The innermost round goes on. -/
theorem Seen.passes {asked' : Nat → Bool} (h : Seen (s, asked) g)
    (hf : s.frames = .round legacy p :: rest) (hf' : s'.frames = .round legacy p' :: rest)
    (hspecs : specsOf s'.hub = specsOf s.hub) (hfit : (Frame.round legacy p').Fits s')
    (hhub : g'.hub = s'.hub) (hused : g'.used = s'.round.used)
    (hskips : ∀ object, object ∈ g'.skips ↔ object ∈ s'.round.skips)
    (hcursor : g'.cursor = s'.cursor) (hkick : g'.kick = s'.kick)
    (hended : g'.lastRoundEnd ≤ s'.lastRoundEnd)
    (hrounds : g'.rounds = ⟨rest.isEmpty, p'.phase⟩ :: roundsOf rest)
    (hasked : g'.asked = asked') : Seen (s', asked') g' where
  paused := by
    have := h.paused
    rw [hf] at this
    rw [hf']
    exact this
  fits f hmem := by
    rw [hf'] at hmem
    rcases List.mem_cons.mp hmem with rfl | hmem
    · exact hfit
    · exact (h.fits f (hf ▸ List.mem_cons_of_mem _ hmem)).of_specs hspecs
  hub := hhub
  used := hused
  skips := hskips
  cursor := hcursor
  kick := hkick
  ended := hended
  rounds := by rw [hrounds, hf', roundsOf]
  asked := hasked

/-- The innermost round goes on unseen. -/
theorem Seen.atPoint (h : Seen (s, asked) g) (hf : s.frames = .round legacy p :: rest)
    (hp : p'.phase = p.phase) (hfit : (Frame.round legacy p').Fits s) :
    Seen (s.atPoint legacy rest p', asked) g := by
  have hrounds : g.rounds = ⟨rest.isEmpty, p'.phase⟩ :: roundsOf rest := by
    rw [h.rounds, hf, roundsOf, hp]
  exact h.passes hf rfl rfl hfit h.hub h.used h.skips h.cursor h.kick h.ended hrounds h.asked

/-! ### A step of a round -/

theorem passes_block (s : Shared) (object : String) (now : Instant) :
    (s.passes cfg true false object now).1 = !s.round.skips.contains object := by
  rw [Shared.passes]
  cases h : s.round.skips.contains object with
  | true => simp
  | false => simp

theorem mem_record {skips skips' : List String} (h : ∀ o, o ∈ skips' ↔ o ∈ skips)
    (object : String) (result : Except UbusError Value) (o : String) :
    (o ∈ if isTimeout result then object :: skips' else skips') ↔
      o ∈ record skips object result := by
  rw [record]
  cases isTimeout result with
  | false => exact h o
  | true =>
    cases hc : skips.contains object with
    | false => simp [h]
    | true =>
      have hmem : object ∈ skips := by simpa using hc
      simp only [if_true, Bool.not_true, Bool.and_false, Bool.false_eq_true, if_false,
        List.mem_cons, h, or_iff_right_iff_imp]
      rintro rfl
      exact hmem

theorem Seen.object (h : Seen (s, asked) g) (i : Nat) : g.object i = s.object i := by
  rw [Hub.Shared.object, h.hub, Shared.object]

/-- The test of a block comes to the same. -/
theorem Seen.test (h : Seen (s, asked) g) {start k : Nat} (hk : k < s.n) (main : Bool)
    (rounds : List Hub.Round) (now : Instant) :
    g.test cfg.hub main start k rounds now s.interval =
      if s.due cfg ((start + k) % s.n) now = false then
        { g with rounds := ⟨main, .scan start (k + 1)⟩ :: rounds }
      else if cfg.budget ≤ s.round.used then
        { g with cursor := (start + k) % s.n, rounds := ⟨main, .legacy⟩ :: rounds }
      else { g with rounds := ⟨main, .ready start k ((start + k) % s.n)⟩ :: rounds } := by
  have hi : (start + k) % s.n < s.hub.blocks.length := Nat.mod_lt _ (Nat.zero_lt_of_lt hk)
  have hb := List.getElem?_eq_getElem hi
  have hlen : s.hub.blocks.length = s.n := rfl
  simp only [Hub.Shared.test, h.hub, h.used, hlen, if_pos hk, Shared.due, hb, Option.any_some,
    Config.hub]
  cases Hub.due s.hub.blocks[(start + k) % s.n] now ⟨cfg.cache, s.interval⟩ with
  | false => rfl
  | true => rfl

theorem Seen.rounds_eq (h : Seen (s, asked) g) (hf : s.frames = .round legacy p :: rest) :
    g.rounds = ⟨rest.isEmpty, p.phase⟩ :: roundsOf rest := by
  rw [h.rounds, hf, roundsOf]

/-- What the hub's machine answers. -/
def Answered (cfg : Config) (g : Hub.Shared) (q : Shared × (Nat → Bool)) : Prop :=
  ∃ g', Exec (Hub.Shared.next cfg.hub) (fun s a => s.timely a = true) g g' ∧ Seen q g'

theorem Seen.answered {q : Shared × (Nat → Bool)} (h : Seen q g) : Answered cfg g q :=
  ⟨g, .refl g, h⟩

theorem Seen.test_pass (h : Seen (s, asked) g) {start k : Nat} {now : Instant}
    (hf : s.frames = .round legacy (.test start k) :: rest)
    (hp : Pass cfg s legacy rest (.test start k) (.test now) s') :
    Answered cfg g (s', asked) := by
  have hk : k < s.n := h.fits (.round legacy (.test start k)) (hf ▸ List.mem_cons_self)
  have hrounds := h.rounds_eq hf
  refine ⟨_, .single (.test now s.interval) rfl
    (by simp only [Hub.Shared.next, hrounds]; rfl), ?_⟩
  rw [h.test hk]
  cases hp with
  | notDue hd =>
    rw [if_pos hd]
    exact h.passes hf rfl rfl trivial h.hub h.used h.skips h.cursor h.kick h.ended rfl h.asked
  | left hd hb =>
    rw [if_neg (by simp [hd]), if_pos hb]
    exact h.passes hf rfl rfl trivial h.hub h.used h.skips rfl h.kick h.ended rfl h.asked
  | due hd hb =>
    rw [if_neg (by simp [hd]), if_neg (Nat.not_le.mpr hb)]
    exact h.passes hf rfl rfl trivial h.hub h.used h.skips h.cursor h.kick h.ended rfl h.asked

theorem Seen.send_pass (h : Seen (s, asked) g) {start k i : Nat} (now : Instant)
    (hf : s.frames = .round legacy (.read start k i) :: rest)
    (hpasses : (s.passes cfg true false (s.object i) now).1 = true) :
    Answered cfg g ((s.passes cfg true false (s.object i) now).2.atPoint legacy rest
      (.waiting start k i (s.object i)), fun j => asked j && j != i) := by
  have hout : g.skips.contains (g.object i) = false := by
    rw [passes_block] at hpasses
    rw [h.object]
    simpa [h.skips] using hpasses
  have hrounds := h.rounds_eq hf
  refine ⟨_, .single .send rfl (by simp only [Hub.Shared.next, hrounds]; rfl), ?_⟩
  obtain ⟨⟨cutLogged, cooldown, hsame⟩, -⟩ :=
    Shared.passes_spec cfg s false (s.object i) now
  rw [Hub.Shared.send, if_neg (by rw [hout]; exact Bool.false_ne_true), hsame]
  refine h.passes hf rfl rfl rfl h.hub h.used h.skips h.cursor h.kick h.ended rfl ?_
  rw [h.asked]

theorem Seen.skip_pass (h : Seen (s, asked) g) {start k i : Nat} (now : Instant) (wall : Nat)
    (hf : s.frames = .round legacy (.read start k i) :: rest)
    (hpasses : (s.passes cfg true false (s.object i) now).1 = false) :
    Answered cfg g (((s.passes cfg true false (s.object i) now).2.recordRead i
      (.error (.skipped (s.object i))) now wall).atPoint legacy rest (.block start (k + 1)),
      asked) := by
  have hin : g.skips.contains (g.object i) = true := by
    rw [passes_block] at hpasses
    rw [h.object]
    simpa [h.skips] using hpasses
  have hrounds := h.rounds_eq hf
  have hsend : Hub.Shared.next cfg.hub g .send =
      some { g with rounds := ⟨rest.isEmpty, .call start k i false⟩ :: roundsOf rest } := by
    simp only [Hub.Shared.next, hrounds, Point.phase, Hub.Shared.send, hin, if_true]
  -- the reply of a call that was not made
  refine ⟨_, .tail (.single .send rfl hsend) (.reply (.error (.skipped "")) 0 now wall) rfl rfl,
    ?_⟩
  obtain ⟨⟨cutLogged, cooldown, hsame⟩, -⟩ :=
    Shared.passes_spec cfg s false (s.object i) now
  rw [hsame]
  refine h.passes hf rfl (specs_recordRead ..) trivial ?_ h.used h.skips h.cursor h.kick h.ended
    rfl h.asked
  simp only [Hub.Shared.reply, Shared.atPoint, Shared.recordRead, h.hub]
  rw [← h.object]
  rfl

theorem Seen.reply_pass (h : Seen (s, asked) g) {start k i : Nat} {object : String}
    (result : Except UbusError Value) (elapsed : Duration) (now : Instant) (wall : Nat)
    (hf : s.frames = .round legacy (.waiting start k i object) :: rest)
    (hok : (accepted (result.mapError UbusError.text)).isNone = true ∨ asked i = false) :
    Answered cfg g (((s.called cfg true false object result elapsed now).recordRead i result now
      wall).atPoint legacy rest (.block start (k + 1)), asked) := by
  have hobject : object = s.object i :=
    h.fits (.round legacy (.waiting start k i object)) (hf ▸ List.mem_cons_self)
  have hrounds := h.rounds_eq hf
  have htimely : g.timely (.reply result elapsed now wall) = true := by
    simp only [Hub.Shared.timely, hrounds, Point.phase, h.asked]
    rcases hok with hok | hok
    · rw [hok]
      rfl
    · rw [hok]
      simp
  refine ⟨_, .single (.reply result elapsed now wall) htimely
    (by simp only [Hub.Shared.next, hrounds]; rfl), ?_⟩
  obtain ⟨cooldown, hcalled⟩ := s.called_frame cfg true false object result elapsed now
  rw [hcalled]
  refine h.passes hf rfl (specs_recordRead ..) trivial ?_ ?_ ?_ h.cursor h.kick h.ended rfl
    h.asked
  · simp only [Hub.Shared.reply, h.hub, if_true, Shared.atPoint, Shared.recordRead]
  · simp only [Hub.Shared.reply, h.used, if_true]
    rfl
  · intro o
    have hskips : (g.reply rest.isEmpty start k i true (roundsOf rest) result elapsed now
        wall).skips = if isTimeout result then object :: g.skips else g.skips := by
      rw [hobject, ← h.object]
      rcases result with (_ | _ | _) | v
      · rfl
      · rfl
      · rfl
      · rfl
    rw [hskips]
    exact mem_record h.skips object result o

theorem Seen.answer_pass (h : Seen (s, asked) g) {object : String}
    (result : Except UbusError Value) (elapsed : Duration) (now : Instant)
    (hf : s.frames = .round legacy (.calling object) :: rest) :
    Answered cfg g
      ((s.called cfg true true object result elapsed now).atPoint legacy rest .legacy, asked) := by
  have hrounds := h.rounds_eq hf
  have hnext : Hub.Shared.next cfg.hub g (.legacyCall object elapsed (isTimeout result)) =
      some { g with
        used := g.used + elapsed
        skips := if isTimeout result then object :: g.skips else g.skips } := by
    simp only [Hub.Shared.next, hrounds, Point.phase]
  refine ⟨_, .single _ rfl hnext, ?_⟩
  obtain ⟨cooldown, hcalled⟩ := s.called_frame cfg true true object result elapsed now
  rw [hcalled]
  refine h.passes hf rfl rfl trivial h.hub ?_ ?_ h.cursor h.kick h.ended hrounds h.asked
  · rw [h.used]
    rfl
  · exact mem_record h.skips object result

theorem roundEnd_eq (s : Shared) (rest : List Frame) (now : Instant) :
    ∃ main, s.roundEnd rest now =
      { s with
        hub := (Hub.roundEnd s.hub now s.interval).1
        frames := rest
        lastRoundEnd := if rest.isEmpty then now else s.lastRoundEnd
        main } := by
  cases rest with
  | nil => exact ⟨.head, rfl⟩
  | cons => exact ⟨s.main, rfl⟩

theorem Seen.round_ends (h : Seen (s, asked) g) (now : Instant)
    (hf : s.frames = .round legacy .ended :: rest) :
    Answered cfg g (s.roundEnd rest now, asked) := by
  have hpaused := h.paused
  rw [hf] at hpaused
  have hspecs : specsOf (Hub.roundEnd s.hub now s.interval).1 = specsOf s.hub :=
    specs_of_untried (roundEnd_untried s.hub now s.interval)
  have hnext : Hub.Shared.next cfg.hub g (.roundEnd now s.interval) =
      some { g with
        hub := (Hub.roundEnd s.hub now s.interval).1
        lastRoundEnd := if rest.isEmpty then now else g.lastRoundEnd
        rounds := roundsOf rest } := by
    simp only [Hub.Shared.next, h.rounds_eq hf, Point.phase, h.hub]
  refine ⟨_, .single _ rfl hnext, ?_⟩
  obtain ⟨main, heq⟩ := roundEnd_eq s rest now
  rw [heq]
  exact {
    paused := hpaused.2
    fits := fun f hmem => (h.fits f (hf ▸ List.mem_cons_of_mem _ hmem)).of_specs hspecs
    hub := rfl
    used := h.used
    skips := h.skips
    cursor := h.cursor
    kick := h.kick
    ended := by
      dsimp only
      split
      · exact Nat.le_refl now
      · exact h.ended
    rounds := rfl
    asked := h.asked }

/-- A step of a round is one step of the hub's machine, two where a block is skipped, or
    none. -/
theorem Seen.pass (h : Seen (s, asked) g) {r : RoundAct}
    (hf : s.frames = .round legacy p :: rest) (hp : Pass cfg s legacy rest p r s')
    (hok : Timely (s, asked) (.round r)) :
    Answered cfg g (s', noteAsked cfg s (.round r) s' asked) := by
  cases hp with
  | @block start k hk =>
    have hpoint : Seen (s.atPoint legacy rest (.test start k), asked) g := h.atPoint hf rfl hk
    exact (hpoint.drain rfl).answered
  | @last start k hk =>
    -- past the last block nothing is tested
    have hnext : Hub.Shared.next cfg.hub g (.test 0 0) =
        some { g with rounds := ⟨rest.isEmpty, .legacy⟩ :: roundsOf rest } := by
      have hlen : s.hub.blocks.length = s.n := rfl
      simp only [Hub.Shared.next, h.rounds_eq hf, Point.phase, Hub.Shared.test, h.hub, hlen,
        if_neg hk]
    refine ⟨_, .single _ rfl hnext, ?_⟩
    exact h.passes hf rfl rfl trivial h.hub h.used h.skips h.cursor h.kick h.ended rfl h.asked
  | notDue hd => exact h.test_pass hf (.notDue hd)
  | left hd hb => exact h.test_pass hf (.left hd hb)
  | due hd hb => exact h.test_pass hf (.due hd hb)
  | send hpasses =>
    simp only [noteAsked, hf, if_pos hpasses]
    exact h.send_pass _ hf hpasses
  | skip hpasses =>
    simp only [noteAsked, hf, hpasses, Bool.false_eq_true, if_false]
    exact h.skip_pass _ _ hf hpasses
  | reply result elapsed now wall =>
    exact h.reply_pass result elapsed now wall hf (hok _ _ _ _ _ _ hf)
  | blocks =>
    have hpoint : Seen (s.atPoint legacy rest (if legacy then .legacy else .ended), asked) g := by
      cases legacy with
      | true => exact h.atPoint hf rfl trivial
      | false => exact h.atPoint hf rfl trivial
    refine (hpoint.drain ?_).answered
    cases legacy with
    | true => rfl
    | false => rfl
  | legacy =>
    have hpoint : Seen (s.atPoint legacy rest .legacy, asked) g := h.atPoint hf rfl trivial
    exact (hpoint.drain rfl).answered
  | @call object now hpasses =>
    have hrounds : g.rounds = ⟨rest.isEmpty, .legacy⟩ :: roundsOf rest := h.rounds_eq hf
    obtain ⟨⟨cutLogged, cooldown, hsame⟩, -⟩ := Shared.passes_spec cfg s true object now
    rw [hsame]
    refine Seen.answered ?_
    exact h.passes hf rfl rfl trivial h.hub h.used h.skips h.cursor h.kick h.ended hrounds h.asked
  | @skipCall object now hpasses =>
    have hrounds : g.rounds = ⟨rest.isEmpty, .legacy⟩ :: roundsOf rest := h.rounds_eq hf
    obtain ⟨⟨cutLogged, cooldown, hsame⟩, -⟩ := Shared.passes_spec cfg s true object now
    rw [hsame]
    refine Seen.answered ?_
    exact h.passes hf rfl rfl trivial h.hub h.used h.skips h.cursor h.kick h.ended hrounds h.asked
  | answer result elapsed now => exact h.answer_pass result elapsed now hf
  | done =>
    have hpoint : Seen (s.atPoint legacy rest .ended, asked) g := h.atPoint hf rfl trivial
    exact (hpoint.drain rfl).answered
  | ended now => exact h.round_ends now hf

/-! ### Any step -/

theorem atSafePoint_eq (g : Hub.Shared) : g.atSafePoint = calm g.rounds := by
  unfold Hub.Shared.atSafePoint
  rcases g.rounds with _ | ⟨⟨main, p⟩, rest⟩
  · rfl
  · cases p with
    | scan => rfl
    | ready => rfl
    | call => rfl
    | legacy => rfl

theorem Seen.loop (h : Seen (s, asked) g) (hf : s.frames = []) (now : Instant) :
    Answered cfg g (s.loop now, asked) := by
  have hcalm : calm (roundsOf s.frames) = true := by rw [hf]; rfl
  have hmain : ∀ main, Seen ({ s with main }, asked) g := fun main =>
    h.same rfl rfl rfl rfl rfl rfl
  have hpause : ∀ deadline, Answered cfg g (s.pause deadline, asked) := by
    intro deadline
    rw [Shared.pause]
    split
    · exact (hmain _).answered
    · exact ((hmain (.draining deadline.isNone)).drain hcalm).answered
  rw [Shared.loop]
  split
  · dsimp only
    split
    · rename_i hdue
      have hrounds : g.rounds = [] := by rw [h.rounds, hf]; rfl
      have hdue : g.kick = true ∨ g.lastRoundEnd + s.interval ≤ now := by
        rw [h.kick]
        rcases (Bool.or_eq_true _ _).mp hdue with hkick | hdue
        · exact .inl hkick
        · refine .inr (Nat.le_trans (Nat.add_le_add_right h.ended _) ?_)
          exact of_decide_eq_true hdue
      have hnext : Hub.Shared.next cfg.hub g (.round now s.interval) =
          some { g.startRound true with kick := false } := by
        simp only [Hub.Shared.next, hrounds, true_and, if_pos hdue]
      refine ⟨_, .single _ rfl hnext, ?_⟩
      have hbegins := h.begins true false .round hcalm
      rw [hf] at hbegins
      exact hbegins
    · exact hpause _
  · exact hpause _

theorem Seen.drain_step (h : Seen (s, asked) g) {now : Instant}
    (hs : s.next cfg (.drain now) = some s') (hok : s.lastRoundEnd ≤ now) :
    Seen (s', asked) g := by
  have hdrained : ∀ queued started rest, s.frames = .drain queued started :: rest →
      Seen (s.drained rest now, asked) g := by
    intro queued started rest hf
    have hpaused := h.paused
    rw [hf] at hpaused
    have hfits : ∀ f ∈ rest, f ∈ s.frames := fun f hmem => hf ▸ List.mem_cons_of_mem _ hmem
    cases rest with
    | nil =>
      refine h.beside rfl rfl rfl rfl ?_ (by rw [hf]; rfl) trivial fun f hmem => .inl (hfits f hmem)
      show s.lastRoundEnd ≤ if _ then now else s.lastRoundEnd
      split
      · exact hok
      · exact Nat.le_refl _
    | cons f rest =>
      exact h.beside rfl rfl rfl rfl (Nat.le_refl _) (by rw [hf]; rfl) hpaused.2
        fun f hmem => .inl (hfits f hmem)
  simp only [Shared.next] at hs
  split at hs
  · rename_i queued started rest hf
    split at hs
    · split at hs
      · rename_i job queue hpop
        cases hs
        have hpaused := h.paused
        rw [hf] at hpaused
        refine h.beside rfl rfl rfl rfl (Nat.le_refl _) (by rw [hf]; rfl)
          ⟨hpaused.1, hpaused.1, hpaused.2⟩ fun f hmem => ?_
        rw [hf]
        rcases List.mem_cons.mp hmem with rfl | hmem
        · exact .inr trivial
        · rcases List.mem_cons.mp hmem with rfl | hmem
          · exact .inr trivial
          · exact .inl (List.mem_cons_of_mem _ hmem)
      · cases hs
        exact hdrained _ _ _ hf
    · cases hs
      exact hdrained _ _ _ hf
  · cases hs

/-- **Every step of the executor is answered.** -/
theorem Seen.step (h : Seen (s, asked) g) (hrest : s.main.resting = true → s.frames = [])
    {a : Act} (hok : Timely (s, asked) a) (hs : s.next cfg a = some s') :
    Answered cfg g (s', noteAsked cfg s a s' asked) := by
  have hasked : g.asked = asked := h.asked
  subst hasked
  cases a with
  | push j =>
    simp only [Shared.next] at hs
    split at hs
    · cases hs
      refine Seen.answered ?_
      exact h.same rfl rfl rfl rfl rfl rfl
    · cases hs
      exact h.answered
  | setInterval d =>
    cases hs
    refine Seen.answered ?_
    exact h.same rfl rfl rfl rfl rfl rfl
  | startRounds =>
    cases hs
    refine Seen.answered ?_
    exact h.same rfl rfl rfl rfl rfl rfl
  | kick names =>
    cases hs
    refine ⟨_, .single (.kick names) rfl rfl, ?_⟩
    simp only [Hub.Shared.marked, h.hub]
    exact (h.worked (specs_markImmediate (some names))).kicked true true
  | mark names =>
    cases hs
    refine ⟨_, .single (.mark names) rfl rfl, ?_⟩
    simp only [Hub.Shared.marked, h.hub]
    exact h.worked (specs_markImmediate names)
  | record name result now wall =>
    cases hs
    rcases hpos : position s.hub name with _ | i
    · have hnext : Hub.Shared.next cfg.hub g (.record name result now wall) = some g := by
        simp only [Hub.Shared.next, h.hub, hpos]
      refine ⟨_, .single _ rfl hnext, ?_⟩
      simp only [Hub.record, hpos]
      exact h
    · have hnext : Hub.Shared.next cfg.hub g (.record name result now wall) =
          some { g with hub := (Hub.recordRead s.hub i result now wall).1 } := by
        simp only [Hub.Shared.next, h.hub, hpos, hok i hpos, if_true]
      refine ⟨_, .single _ rfl hnext, ?_⟩
      simp only [Hub.record, hpos]
      exact h.worked (specs_recordRead ..)
  | expire now =>
    cases hs
    refine ⟨_, .single (.expire now s.interval) rfl rfl, ?_⟩
    rw [h.hub]
    exact h.worked (specs_of_untried (expire_untried s.hub now s.interval))
  | heartbeat now execAgeMs quiet =>
    cases hs
    refine ⟨_, .single (.heartbeat now execAgeMs quiet) rfl rfl, ?_⟩
    rw [h.hub]
    exact h.worked (specs_of_untried (heartbeatIfQuiet_untried s.hub now execAgeMs quiet))
  | loop now =>
    simp only [Shared.next] at hs
    split at hs
    · rename_i hm
      cases hs
      exact h.loop (hrest (by rw [hm]; rfl)) now
    · cases hs
  | woken =>
    simp only [Shared.next] at hs
    split at hs
    · rename_i deadline hm
      split at hs
      · cases hs
        have hf : s.frames = [] := hrest (by rw [hm]; rfl)
        have hmain :
            Seen ({ s with wake := false, main := .draining deadline.isNone }, g.asked) g :=
          h.same rfl rfl rfl rfl rfl rfl
        exact (hmain.drain (by rw [hf]; rfl)).answered
      · cases hs
    · cases hs
  | timeout now =>
    simp only [Shared.next] at hs
    split at hs
    · rename_i deadline hm
      split at hs
      · cases hs
        have hf : s.frames = [] := hrest (by rw [hm]; rfl)
        have hmain : Seen ({ s with main := .draining false }, g.asked) g :=
          h.same rfl rfl rfl rfl rfl rfl
        exact (hmain.drain (by rw [hf]; rfl)).answered
      · cases hs
    · cases hs
  | drain now => exact (h.drain_step hs hok).answered
  | jobCall object result elapsed now =>
    simp only [Shared.next] at hs
    split at hs
    · cases hs
      obtain ⟨cooldown, heq⟩ := s.called_frame cfg false false object result elapsed now
      rw [heq]
      refine Seen.answered ?_
      exact h.same rfl rfl rfl rfl rfl rfl
    · cases hs
  | jobRound legacy =>
    simp only [Shared.next] at hs
    split at hs
    · rename_i j rest hf
      cases hs
      have hpaused := h.paused
      rw [hf] at hpaused
      have hcalm : calm (roundsOf s.frames) = true := by
        rw [hf]
        exact hpaused.1
      have hnext : Hub.Shared.next cfg.hub g .roundJob = some (g.startRound false) := by
        simp only [Hub.Shared.next, atSafePoint_eq, h.rounds, hcalm, if_true]
      refine ⟨_, .single _ rfl hnext, ?_⟩
      have hbegins := h.begins legacy s.kick s.main hcalm
      have hkick : { g.startRound false with kick := s.kick } = g.startRound false := by
        rw [← h.kick]
        rfl
      rw [← hkick]
      rw [hf] at hbegins
      exact hbegins
    · cases hs
  | jobEnd =>
    simp only [Shared.next] at hs
    split at hs
    · rename_i j rest hf
      cases hs
      have hpaused := h.paused
      rw [hf] at hpaused
      refine Seen.answered ?_
      exact h.beside rfl rfl rfl rfl (Nat.le_refl _) (by rw [hf]; rfl) hpaused.2
        fun f hmem => .inl (hf ▸ List.mem_cons_of_mem _ hmem)
    · cases hs
  | round r =>
    simp only [Shared.next] at hs
    split at hs
    · rename_i hf
      exact h.pass hf (Shared.roundStep_pass hs) hok
    · cases hs

end Steps

/-! ### Runs -/

variable {s : Shared} {asked : Nat → Bool}

/-- **Every run of the executor is, at its rounds, a run of the hub's machine**, and a timely
    one if no read of the executor that succeeds misses a mark. -/
theorem rounds_refine (cfg : Config) (specs : List BlockSpec) (interval : Duration)
    (h : Exec (watched (Shared.next cfg) (noteAsked cfg)) Timely
      (Shared.new specs interval, fun _ => false) (s, asked)) :
    ∃ g, Exec (Hub.Shared.next cfg.hub) (fun s a => s.timely a = true) (Hub.Shared.new specs) g ∧
      Seen (s, asked) g := by
  suffices hsim : ∃ g, Exec (Hub.Shared.next cfg.hub) (fun s a => s.timely a = true)
      (Hub.Shared.new specs) g ∧ Seen (s, asked) g ∧ ∃ b, Booked cfg s b by
    obtain ⟨g, hg, hseen, -⟩ := hsim
    exact ⟨g, hg, hseen⟩
  refine h.simulate (fun q g => Seen q g ∧ ∃ b, Booked cfg q.1 b) (fun {q q' a g} hq hok hs => ?_)
    ⟨new_seen specs interval, {}, new_booked cfg specs interval⟩
  obtain ⟨hseen, b, hb⟩ := hq
  obtain ⟨hnext, hnote⟩ := watched_eq_some.mp hs
  obtain ⟨g', hrun, hseen'⟩ := hseen.step hb.resting hok hnext
  rw [← hnote] at hseen'
  exact ⟨g', hrun, hseen', _, hb.step hnext⟩

/-- **A mark is heard.**  As long as no request for a marked block has gone out since the
    mark, the block is due at every test but for the retry pause after a failed attempt, and
    no test passes it over: it is read next, or the budget is spent and the next round
    starts with it. -/
theorem marks_heard (cfg : Config) (specs : List BlockSpec) (interval : Duration)
    (h : Exec (watched (Shared.next cfg) (noteAsked cfg)) Timely
      (Shared.new specs interval, fun _ => false) (s, asked))
    {i : Nat} {b : Block} (hb : s.hub.blocks[i]? = some b) (hd : b.spec.derived = false)
    (ha : asked i = true) :
    Prompt b ∧ ∀ legacy start k rest now,
      s.frames = .round legacy (.test start k) :: rest → (start + k) % s.n = i →
      (∀ last, b.lastFailed = true → b.lastAttempt = some last →
        failureRetry - s.interval ≤ now - last) →
      ∃ s', s.next cfg (.round (.test now)) = some s' ∧
        (s'.frames = .round legacy (.read start k i) :: rest ∨
          cfg.budget ≤ s.round.used ∧ s'.cursor = i) := by
  obtain ⟨g, hrun, hseen⟩ := rounds_refine cfg specs interval h
  have hopen : g.Open :=
    hrun.invariant Hub.Shared.Open (fun ho hok hs => ho.next hok hs) (Hub.Shared.new_open specs)
  have hprompt : Prompt b := by
    refine (hopen i b ?_ hd ?_).prompt hd
    · rw [hseen.hub]
      exact hb
    · rw [hseen.asked]
      exact ha
  refine ⟨hprompt, ?_⟩
  intro legacy start k rest now hf hi hpause
  have hdue : s.due cfg i now = true := by
    rw [Shared.due, hb]
    exact hprompt now _ hpause
  simp only [Shared.next, hf, Shared.roundStep, hi, hdue, Bool.not_true, Bool.false_eq_true,
    if_false]
  by_cases hbudget : cfg.budget ≤ s.round.used
  · exact ⟨_, if_pos hbudget, .inr ⟨hbudget, rfl⟩⟩
  · exact ⟨_, if_neg hbudget, .inl rfl⟩

end Executor

end Datad
