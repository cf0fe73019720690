/-
  Datad/Executor/Rounds.lean
  ==========================
  **One round at a time.**

  `round_now` runs a round as a job; as long as no job does so while a round is under way,
  there is one round state, one cursor and one point at which the round stands.  A step
  then begins the round, takes it one point further, or leaves all three alone (`Turn`).
-/
import Datad.Executor.Queue

namespace Datad

namespace Executor

open Hub Transition

/-- No job starts a round inside a round. -/
def Unnested (s : Shared) (a : Act) : Prop :=
  ∀ legacy, a = .jobRound legacy → ∀ l p, Frame.round l p ∉ s.frames

def unnested (s : Shared) (a : Act) : Bool :=
  match a with
  | .jobRound _ => s.frames.all fun f => match f with | .round .. => false | _ => true
  | _ => true

theorem Unnested.of_test (s : Shared) (a : Act) (h : unnested s a = true) : Unnested s a := by
  rintro legacy rfl l p hmem
  rw [unnested, List.all_eq_true] at h
  have := h _ hmem
  cases this

/-- The points at which the rounds under way stand, the innermost first. -/
def pointsOf (frames : List Frame) : List Point :=
  frames.filterMap fun f =>
    match f with
    | .round _ p => some p
    | _ => none

/-- Whether the step begins a round. -/
def begins (a : Act) (s' : Shared) : Bool :=
  match a with
  | .jobRound _ => true
  | .loop _ => s'.main = .round
  | _ => false

section Lengths

theorem markImmediate_length (g : Inner) (names : Option (List String)) :
    (markImmediate g names).blocks.length = g.blocks.length := by
  simp [markImmediate]

theorem recordRead_length (g : Inner) (i : Nat) (result : Except String Value) (now : Instant)
    (wall : Nat) : (Hub.recordRead g i result now wall).1.blocks.length = g.blocks.length := by
  rcases hb : g.blocks[i]? with _ | b
  · simp [Hub.recordRead, hb]
  · obtain ⟨b₁, -, hp⟩ := recordRead_tried hb result now wall
    rw [hp.length_eq, List.length_set]

theorem record_length (g : Inner) (name : String) (result : Except String Value) (now : Instant)
    (wall : Nat) : (Hub.record g name result now wall).1.blocks.length = g.blocks.length := by
  rw [Hub.record]
  split
  · exact recordRead_length ..
  · rfl

end Lengths

section Turns

variable {cfg : Config} {s s' : Shared} {a : Act}

/-- A step that leaves the rounds alone. -/
structure Aside (s : Shared) (a : Act) (s' : Shared) : Prop where
  points : pointsOf s'.frames = pointsOf s.frames
  round : s'.round = s.round
  cursor : s'.cursor = s.cursor
  n : s'.n = s.n
  act : ∀ r, a ≠ .round r
  begins : begins a s' = false

/-- What a step does to the rounds. -/
inductive Turn (cfg : Config) (s : Shared) (a : Act) (s' : Shared) : Prop where
  | aside (h : Aside s a s')
  | begins (hb : begins a s' = true) (points : pointsOf s'.frames =
      .block (s.cursor % s.n) 0 :: pointsOf s.frames) (round : s'.round = {})
      (cursor : s'.cursor = s.cursor) (n : s'.n = s.n)
      (alone : Unnested s a → pointsOf s.frames = [])
  | round (r : RoundAct) (legacy : Bool) (p : Point) (rest : List Frame) (ha : a = .round r)
      (hf : s.frames = .round legacy p :: rest) (hp : Pass cfg s legacy rest p r s')

theorem pointsOf_eq_nil {frames : List Frame} (h : ∀ l p, Frame.round l p ∉ frames) :
    pointsOf frames = [] := by
  rw [pointsOf, List.filterMap_eq_nil_iff]
  intro f hf
  cases f with
  | round l p => exact absurd hf (h l p)
  | drain => rfl
  | job => rfl

theorem Shared.loop_turn (hf : s.frames = []) (now : Instant) :
    Turn cfg s (.loop now) (s.loop now) := by
  have hpause : ∀ deadline, Turn cfg s (.loop now) (s.pause deadline) := by
    intro deadline
    rw [Shared.pause]
    split
    · exact .aside ⟨rfl, rfl, rfl, rfl, by simp, rfl⟩
    · exact .aside ⟨rfl, rfl, rfl, rfl, by simp, rfl⟩
  rw [Shared.loop]
  split
  · dsimp only
    split
    · exact .begins rfl rfl rfl rfl rfl fun _ => by rw [hf]; rfl
    · exact hpause _
  · exact hpause _

theorem Shared.drain_aside {now : Instant} (hs : s.next cfg (.drain now) = some s') :
    Aside s (.drain now) s' := by
  have hdrained : ∀ queued started rest, s.frames = .drain queued started :: rest →
      Aside s (.drain now) (s.drained rest now) := by
    intro queued started rest hf
    have hsame : (s.drained rest now).round = s.round ∧ (s.drained rest now).cursor = s.cursor ∧
        (s.drained rest now).n = s.n := by
      cases rest <;> exact ⟨rfl, rfl, rfl⟩
    exact ⟨by rw [drained_frames, hf]; rfl, hsame.1, hsame.2.1, hsame.2.2, by simp, rfl⟩
  simp only [Shared.next] at hs
  split at hs
  · rename_i queued started rest hf
    split at hs
    · split at hs
      · cases hs
        exact ⟨by rw [hf]; rfl, rfl, rfl, rfl, by simp, rfl⟩
      · cases hs
        exact hdrained _ _ _ hf
    · cases hs
      exact hdrained _ _ _ hf
  · cases hs

theorem Shared.next_turn (hrest : s.main.resting = true → s.frames = [])
    (hs : s.next cfg a = some s') : Turn cfg s a s' := by
  cases a with
  | push j =>
    simp only [Shared.next] at hs
    split at hs
    · cases hs
      exact .aside ⟨rfl, rfl, rfl, rfl, by simp, rfl⟩
    · cases hs
      exact .aside ⟨rfl, rfl, rfl, rfl, by simp, rfl⟩
  | kick names =>
    cases hs
    exact .aside ⟨rfl, rfl, rfl, markImmediate_length .., by simp, rfl⟩
  | mark names =>
    cases hs
    exact .aside ⟨rfl, rfl, rfl, markImmediate_length .., by simp, rfl⟩
  | record name result now wall =>
    cases hs
    exact .aside ⟨rfl, rfl, rfl, record_length .., by simp, rfl⟩
  | expire now =>
    cases hs
    exact .aside ⟨rfl, rfl, rfl, Pointwise.length_eq (expire_untried _ _ _), by simp, rfl⟩
  | heartbeat now execAgeMs quiet =>
    cases hs
    have hlen : (heartbeatIfQuiet s.hub now execAgeMs quiet).1.blocks.length =
        s.hub.blocks.length := Pointwise.length_eq (heartbeatIfQuiet_untried _ _ _ _)
    exact .aside ⟨rfl, rfl, rfl, hlen, by simp, rfl⟩
  | loop now =>
    simp only [Shared.next] at hs
    split at hs
    · rename_i hm
      cases hs
      exact Shared.loop_turn (hrest (by rw [hm]; rfl)) now
    · cases hs
  | woken =>
    simp only [Shared.next] at hs
    split at hs
    · split at hs
      · cases hs
        exact .aside ⟨rfl, rfl, rfl, rfl, by simp, rfl⟩
      · cases hs
    · cases hs
  | timeout now =>
    simp only [Shared.next] at hs
    split at hs
    · split at hs
      · cases hs
        exact .aside ⟨rfl, rfl, rfl, rfl, by simp, rfl⟩
      · cases hs
    · cases hs
  | drain now => exact .aside (Shared.drain_aside hs)
  | jobCall object result elapsed now =>
    simp only [Shared.next] at hs
    split at hs
    · cases hs
      obtain ⟨cooldown, heq⟩ := s.called_frame cfg false false object result elapsed now
      rw [heq]
      exact .aside ⟨rfl, rfl, rfl, rfl, by simp, rfl⟩
    · cases hs
  | jobRound legacy =>
    simp only [Shared.next] at hs
    split at hs
    · cases hs
      exact .begins rfl rfl rfl rfl rfl fun h => pointsOf_eq_nil (h legacy rfl)
    · cases hs
  | jobEnd =>
    simp only [Shared.next] at hs
    split at hs
    · rename_i hf
      cases hs
      exact .aside ⟨by rw [hf]; rfl, rfl, rfl, rfl, by simp, rfl⟩
    · cases hs
  | round r =>
    simp only [Shared.next] at hs
    split at hs
    · rename_i hf
      exact .round r _ _ _ rfl hf (Shared.roundStep_pass hs)
    · cases hs
  | _ =>
    cases hs
    exact .aside ⟨rfl, rfl, rfl, rfl, by simp, rfl⟩

end Turns

/-! ### Watching the rounds -/

section Watch

variable {γ : Type} {beginNote : Shared → γ → γ} {passNote : Shared → Point → RoundAct → γ → γ}
  {cfg : Config} {s s' : Shared} {a : Act} {g : γ}

/-- The observer that notes when a round begins and how it goes on. -/
def noteRounds (beginNote : Shared → γ → γ) (passNote : Shared → Point → RoundAct → γ → γ)
    (s : Shared) (a : Act) (s' : Shared) (g : γ) : γ :=
  match a with
  | .round r =>
    match s.frames with
    | .round _ p :: _ => passNote s p r g
    | _ => g
  | _ => if begins a s' then beginNote s g else g

theorem noteRounds_aside (h : Aside s a s') : noteRounds beginNote passNote s a s' g = g := by
  have hb := h.begins
  cases a with
  | round r => exact absurd rfl (h.act r)
  | _ =>
    simp only [noteRounds, hb]
    rfl

theorem noteRounds_begins (hb : begins a s' = true) :
    noteRounds beginNote passNote s a s' g = beginNote s g := by
  cases a with
  | jobRound legacy => rfl
  | loop now => simp only [noteRounds, hb, if_true]
  | _ => cases hb

theorem noteRounds_pass {r : RoundAct} {legacy : Bool} {p : Point} {rest : List Frame}
    (hf : s.frames = .round legacy p :: rest) :
    noteRounds beginNote passNote s (.round r) s' g = passNote s p r g := by
  simp only [noteRounds, hf]

/-- **Runs of single rounds.**  What holds of the new executor, is kept by a step beside
    the rounds, by the begin of a round while there is none, and by each step of a round,
    holds in every state of a run without nested rounds. -/
theorem single_rounds_invariant (Inv : Shared → γ → Prop) {specs : List BlockSpec}
    {interval : Duration} {g₀ : γ} (hnew : Inv (Shared.new specs interval) g₀)
    (haside : ∀ {s a s' g}, Inv s g → Aside s a s' → Inv s' g)
    (hbegin : ∀ {s s' g}, Inv s g → pointsOf s.frames = [] →
      pointsOf s'.frames = [.block (s.cursor % s.n) 0] → s'.round = {} →
      s'.cursor = s.cursor → s'.n = s.n → Inv s' (beginNote s g))
    (hpass : ∀ {s s' g legacy p rest r}, Inv s g → s.frames = .round legacy p :: rest →
      Pass cfg s legacy rest p r s' → Inv s' (passNote s p r g))
    (h : Exec (watched (Shared.next cfg) (noteRounds beginNote passNote))
      (fun q a => Unnested q.1 a) (Shared.new specs interval, g₀) (s, g)) : Inv s g := by
  have hboth : Inv s g ∧ ∃ b, Booked cfg s b := by
    refine h.invariant (fun q => Inv q.1 q.2 ∧ ∃ b, Booked cfg q.1 b)
      (fun {q q' a} hq hok hs => ?_) ⟨hnew, {}, new_booked cfg specs interval⟩
    obtain ⟨hinv, b, hb⟩ := hq
    obtain ⟨hnext, hnote⟩ := watched_eq_some.mp hs
    refine ⟨?_, _, hb.step hnext⟩
    rw [hnote]
    cases Shared.next_turn hb.resting hnext with
    | aside ha =>
      rw [noteRounds_aside ha]
      exact haside hinv ha
    | begins hbegins points round cursor n alone =>
      rw [noteRounds_begins hbegins]
      rw [alone hok] at points
      exact hbegin hinv (alone hok) points round cursor n
    | round r legacy p rest ha hf hp =>
      rw [ha, noteRounds_pass hf]
      exact hpass hinv hf hp
  exact hboth.1

end Watch

end Executor

end Datad
