/-
  Datad/Ops/Turns.lean
  ====================
  **The steps of the system, by kind.**

  Ten kinds of action move the system, but there are only five things that can
  happen: a slot takes a turn, the process dies in the middle of one, it starts, it
  dies while starting, or the takeover marker appears.  `World.Kind` is that list,
  with what is known of a turn whatever run it belongs to.
-/
import Datad.Ops.Retirement
import Datad.Ops.Writers

namespace Datad

namespace World

/-- What is known of a turn of the task in this slot (an empty slot counts as an idle
    task). -/
structure Turned (cfg : Config) (w : World) (key : Nat) (T : Task) (turn : Turn) : Prop where
  owes : owesOf (w.tasks key) = T.owes
  ahead : aheadOf (w.tasks key) = T.ahead
  passes : Passes w.nextUid w.st turn.st turn.accepted T turn.task turn.events
  shift : ∃ who may, Shift who may (turn.fresh w.nextUid) w.st turn.st turn.fx
  files : Files w.st turn.st turn.fx
  events : ∀ e, .fx e ∉ turn.events
  accepts : turn.accepted ≠ 0 → ∃ req x c now, T = .submitRead req x ∧
    w.st.refuse req x = none ∧ turn.st = (w.st.accept cfg req x w.nextUid c w.bootId now).1 ∧
    turn.fx = (w.st.accept cfg req x w.nextUid c w.bootId now).2

/-- The effects that still happen when the process dies. -/
def lastFx (cfg : Config) (w : World) : Act → List Effect
  | .crashTask key i n =>
      match w.tasks key with
      | some T => (w.turnOf cfg T i).fx.take n
      | none => []
  | .crashCall c n => (c.turn w.st w.draining).fx.take n
  | .crashStart bootId now n => (w.disk.start bootId now).2.take n
  | _ => []

inductive Kind (cfg : Config) (w : World) (a : Act) : World → Prop where
  | turn {key : Nat} {T : Task} {turn : Turn} (hu : w.up = true) (g : Turned cfg w key T turn) :
      Kind cfg w a (w.take key turn)
  | die {turn : Turn} (hu : w.up = true) (hfx : w.lastFx cfg a <+: turn.fx)
      (hs : ∃ who may, Shift who may (turn.fresh w.nextUid) w.st turn.st turn.fx)
      (hf : Files w.st turn.st turn.fx) :
      Kind cfg w a (w.die (w.lastFx cfg a) turn.accepted)
  | start {key : Nat} {bootId : String} {now : Nat} (ha : a = .start key bootId now)
      (hu : w.up = false) :
      Kind cfg w a
        { w with
          up := true
          bootId := bootId
          st := (w.disk.start bootId now).1
          draining := false
          disk := w.disk.applyAll (w.disk.start bootId now).2
          tasks := startTasks (w.disk.start bootId now).1 key
          log := w.log ++ (w.disk.start bootId now).2.map .fx }
  | dieStart {bootId : String} {now : Nat} (hu : w.up = false)
      (hfx : w.lastFx cfg a <+: (w.disk.start bootId now).2) :
      Kind cfg w a (w.die (w.lastFx cfg a) 0)
  | takeover : Kind cfg w a { w with disk := { w.disk with takeover := true } }

theorem Turned.task {cfg : Config} {w : World} (hok : w.Ok) {key : Nat} {T : Task}
    (hT : w.tasks key = some T) (i : Input) : Turned cfg w key T (w.turnOf cfg T i) := by
  have hp := T.turn_passes cfg w.bootId w.nextUid w.st w.draining i
  constructor
  · rw [hT]; rfl
  · rw [hT]; rfl
  · exact hp
  · exact ⟨_, _, turnOf_shift cfg hok.st T i⟩
  · exact T.turn_files cfg w.bootId w.nextUid w.st w.draining i
  · exact T.turn_events cfg w.bootId w.nextUid w.st w.draining i
  · intro hacc
    cases hp with
    | on h0 => exact absurd h0 hacc
    | @accept req x t' h1 hTr =>
      subst hTr
      simp only [turnOf, Task.turn] at hacc ⊢
      split at hacc
      · exact absurd rfl hacc
      · rename_i c hc
        split at hacc
        · exact absurd rfl hacc
        · rename_i href
          exact ⟨req, x, c, i.now, rfl, href, rfl, rfl⟩
    | decide h0 => exact absurd h0 hacc
    | send h0 => exact absurd h0 hacc

theorem Turned.call (cfg : Config) (w : World) {key : Nat} (hk : w.tasks key = none)
    (c : Call) : Turned cfg w key .kick (c.turn w.st w.draining) := by
  constructor
  · exact (Goes.call w hk c).owes
  · exact (Goes.call w hk c).ahead
  · exact (Goes.call w hk c).passes
  · exact ⟨_, _, call_shift c w⟩
  · exact c.turn_files w.st w.draining
  · rw [Call.turn_events]; simp
  · intro hacc
    exact absurd (call_fresh c w.st w.draining w.nextUid).1 hacc

theorem Turned.submit (cfg : Config) {w : World} {key : Nat} (hk : w.tasks key = none)
    (req : Request) (x : String) : Turned cfg w key .kick (w.idleTurn (some (.submit req x))) := by
  constructor
  · exact (Goes.submit hk req x).owes
  · exact (Goes.submit hk req x).ahead
  · exact (Goes.submit hk req x).passes
  · exact ⟨none, false, .refl w.st rfl⟩
  · exact .refl w.st rfl
  · exact fun _ => List.not_mem_nil
  · exact fun hacc => absurd rfl hacc

theorem Turned.drop (cfg : Config) {w : World} {key : Nat} {T : Task}
    (hT : w.tasks key = some T) (hd : droppable T = true) :
    Turned cfg w key T (w.idleTurn none) := by
  constructor
  · exact (Goes.drop hT hd).owes
  · exact (Goes.drop hT hd).ahead
  · exact (Goes.drop hT hd).passes
  · exact ⟨none, false, .refl w.st rfl⟩
  · exact .refl w.st rfl
  · exact fun _ => List.not_mem_nil
  · exact fun hacc => absurd rfl hacc

/-- **Every step is of one of these kinds.** -/
theorem Step.kind {cfg : Config} {w w' : World} {a : Act} (hok : w.Ok) (hs : Step cfg w a w') :
    Kind cfg w a w' := by
  cases hs with
  | submit hu hk =>
    rw [← take_idle]
    exact .turn hu (.submit cfg hk _ _)
  | task ht => exact .turn (hok.up ht) (.task hok ht _)
  | call hu hk => exact .turn hu (.call cfg w hk _)
  | drop ht hd =>
    rw [← take_idle]
    exact .turn (hok.up ht) (.drop cfg ht hd)
  | start hu => exact .start rfl hu
  | takeover => exact .takeover
  | crash hu =>
    exact @Kind.die cfg w .crash (w.idleTurn none) hu (List.nil_prefix)
      ⟨none, false, .refl w.st rfl⟩ (.refl w.st rfl)
  | @crashTask key i n T ht =>
    have hfx : w.lastFx cfg (.crashTask key i n) = (w.turnOf cfg T i).fx.take n := by
      rw [lastFx, ht]
    rw [← hfx]
    refine .die (hok.up ht) ?_ ⟨_, _, turnOf_shift cfg hok.st T i⟩
      (T.turn_files cfg w.bootId w.nextUid w.st w.draining i)
    rw [hfx]
    exact List.take_prefix ..
  | @crashCall c n hu =>
    have hacc := (call_fresh c w.st w.draining w.nextUid).1
    have h := @Kind.die cfg w (.crashCall c n) (c.turn w.st w.draining) hu
      (List.take_prefix ..) ⟨_, _, call_shift c w⟩ (c.turn_files w.st w.draining)
    rw [hacc] at h
    exact h
  | crashStart hu => exact .dieStart hu (List.take_prefix ..)

/-- What the slot owes after the turn it owed before, or it is the write of a
    transaction that was active then or is accepted now. -/
theorem Turned.owes_cases {cfg : Config} {w : World} {key : Nat} {T : Task} {turn : Turn}
    (g : Turned cfg w key T turn) {u : Nat} {i : Intent} (hk : owesOf turn.task = some (u, i)) :
    owesOf (w.tasks key) = some (u, i) ∨ u = w.nextUid ∨
      ∃ t, w.st.active = some t ∧ t.uid = u := by
  cases g.passes with
  | on hacc hw ho ha hl hk' he =>
    rw [g.owes]
    exact .inl (ho (u, i) hk).1
  | accept hacc hT hT' he ht' hu hx hi hv =>
    rw [hT'] at hk
    cases hk
    exact .inr (.inl rfl)
  | decide hacc hst hT hT' he ht hi =>
    rw [hT'] at hk
    cases hk
    exact .inr (.inr ⟨_, ht, rfl⟩)
  | send hacc hst ha ha' ho hw hl hs he =>
    rw [g.owes, ← ho]
    exact .inl hk

/-- A write that starts in the turn was owed by the slot. -/
theorem Turned.write_owed {cfg : Config} {w : World} {key : Nat} {T : Task} {turn : Turn}
    (g : Turned cfg w key T turn) {u : Nat} {i : Intent} {v : String}
    (hm : .write u i v ∈ turn.events) :
    aheadOf (w.tasks key) = some (u, i, v) ∧ turn.events = [.write u i v] := by
  obtain ⟨-, ha, -, he⟩ := g.passes.write_ahead hm
  exact ⟨g.ahead.trans ha, he⟩

theorem mem_take_fx {w : World} {key : Nat} {turn : Turn} (he : ∀ e, .fx e ∉ turn.events)
    {e : Effect} :
    .fx e ∈ (w.take key turn).log ↔ .fx e ∈ w.log ∨ e ∈ turn.fx := by
  show .fx e ∈ w.log ++ (turn.fx.map .fx ++ turn.events) ↔ _
  simp [he e]

theorem mem_die_fx {w : World} {fx : List Effect} {n : Nat} {e : Effect} :
    .fx e ∈ (w.die fx n).log ↔ .fx e ∈ w.log ∨ e ∈ fx := by
  show .fx e ∈ w.log ++ fx.map .fx ↔ _
  simp

end World

/-! ### One life of the process -/

/-- The observer notes where the log stood when the process last started. -/
def marks (w : World) (a : Act) (w' : World) (mark : Nat) : Nat :=
  match a with
  | .start .. => w.log.length
  | .crash | .crashTask .. | .crashCall .. | .crashStart .. => w'.log.length
  | _ => mark

end Datad
