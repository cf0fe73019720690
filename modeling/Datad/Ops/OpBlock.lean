/-
  Datad/Ops/OpBlock.lean
  ======================
  **The `op` block** (`St::block`, `Engine::publish` of `ops/engine.rs`): what the
  interfaces show of the engine.

  Publication is scattered over the sections: `persist` publishes a transaction that
  goes on, `finish` one that has ended, and the acknowledgements publish themselves.
  `Told` is what all sections have in common: either the last value handed over shows
  the state they leave, or they change nothing that the block shows.

  `System` is the engine with its observer, which `set_observer` installs in two steps:
  the observer is set, then the state is published.
-/
import Datad.Ops.Deeds
import Datad.Ops.Exclusion

namespace Datad

open Transition

/-! ### The block -/

/-- `Txn::status` without the age, with what `ui::view` adds. -/
structure OpView where
  opId : String
  action : String
  item : String
  source : Source
  undo : Bool
  phase : Phase
  reason : Option Reason
  rollbackReason : Option Reason
  target : String
  old : String
  rollbackTo : String
  rollbackEnabled : Bool
  everMatched : Bool
  dataOk : Bool
  remainingMs : Option Nat
  ui : Value
deriving DecidableEq

structure OpBlock where
  rollbackEnabled : Bool
  active : Option OpView
  /-- With `acked` and `needs_ack`. -/
  last : Option (OpView × Bool × Bool)
  notice : Option String
deriving DecidableEq

def NOTICE_ROLLBACK_ON : String := "rollback_on"

namespace Txn

inductive Stay where
  | live | alert | hidden | brief | sticky
deriving DecidableEq

/-- How long a result stays on the screen. -/
def stay (t : Txn) : Stay :=
  if !t.phase.isFinal then .live
  else
    match t.phase, t.reason with
    | .rollbackFailed, _ => .alert
    | .cancelled, some .superseded => .hidden
    | .confirmed, some .verified => .brief
    | .confirmed, some .noVerify => .brief
    | .rolledBack, some .userRevert => .brief
    | _, _ => .sticky

def sticky (t : Txn) : Bool := decide (t.stay = .sticky) || decide (t.stay = .alert)

/-- The view of a transaction.  The texts of the interface are a function `ui` of the
    transaction and of whether its item was changed later; they do not depend on the time. -/
def view (ui : Txn → Bool → Value) (t : Txn) (later : Bool) (now : Nat) : OpView where
  opId := t.opId
  action := t.action
  item := t.item
  source := t.source
  undo := t.undo
  phase := t.phase
  reason := t.reason
  rollbackReason := t.rollbackReason
  target := t.target
  old := t.old
  rollbackTo := t.rollbackTo
  rollbackEnabled := t.rollbackEnabled
  everMatched := t.everMatched
  dataOk := t.dataOk
  remainingMs := t.remainingMs now
  ui := ui t later

end Txn

namespace St

/-- The item was changed by a later transaction (`St::ctx`). -/
def laterChange (st : St) (t : Txn) : Bool :=
  (st.active.any fun a => decide (a.opId ≠ t.opId) && decide (a.item = t.item)) ||
    ((st.recent.dropWhile fun r => decide (r.opId ≠ t.opId)).drop 1).any fun r =>
      decide (r.item = t.item)

def view (ui : Txn → Bool → Value) (st : St) (t : Txn) (now : Nat) : OpView :=
  t.view ui (st.laterChange t) now

def block (ui : Txn → Bool → Value) (rollback : Bool) (st : St) (now : Nat) : OpBlock where
  rollbackEnabled := rollback
  active := st.active.map fun t => st.view ui t now
  last := st.last.map fun l => (st.view ui l.txn now, l.acked, !l.acked && l.txn.sticky)
  notice := if rollback && !st.noticeAcked then some NOTICE_ROLLBACK_ON else none

end St

def OpView.timeless (v : OpView) : OpView := { v with remainingMs := none }

/-- The block without the remaining times. -/
def OpBlock.timeless (b : OpBlock) : OpBlock :=
  { b with
    active := b.active.map OpView.timeless
    last := b.last.map fun l => (l.1.timeless, l.2) }

/-- What the block shows of a state. -/
def St.face (st : St) : Option Txn × Option Last × List Txn × Bool :=
  (st.active, st.last, st.recent, st.noticeAcked)

theorem St.view_timeless (ui : Txn → Bool → Value) {st st' : St} (h : st.face = st'.face)
    (t : Txn) (now now' : Nat) :
    (st.view ui t now).timeless = (st'.view ui t now').timeless := by
  simp only [face, Prod.mk.injEq] at h
  have hlater : st.laterChange t = st'.laterChange t := by
    rw [laterChange, laterChange, h.1, h.2.2.1]
  rw [view, view, hlater]
  rfl

theorem St.block_timeless {ui : Txn → Bool → Value} {rollback : Bool} {st st' : St}
    (h : st.face = st'.face) (now now' : Nat) :
    (st.block ui rollback now).timeless = (st'.block ui rollback now').timeless := by
  have hview := fun t => view_timeless ui h t now now'
  simp only [face, Prod.mk.injEq] at h
  obtain ⟨ha, hl, -, hn⟩ := h
  simp only [block, OpBlock.timeless, Option.map_map, ha, hl, hn]
  congr 2
  · funext t
    exact hview t
  · funext l
    exact congrArg (fun v => (v, l.acked, !l.acked && l.txn.sticky)) (hview l.txn)

/-! ### What a section hands over -/

def Effect.published : Effect → Option St
  | .publish st => some st
  | _ => none

/-- The state that was published last. -/
def shown (fx : List Effect) : Option St := (fx.filterMap Effect.published).getLast?

theorem shown_append (fx fx' : List Effect) : shown (fx ++ fx') = (shown fx').or (shown fx) := by
  rw [shown, List.filterMap_append, List.getLast?_append]
  rfl

theorem shown_publish (fx : List Effect) (st : St) : shown (fx ++ [.publish st]) = some st := by
  rw [shown_append]
  rfl

theorem shown_eq_none {fx : List Effect} (h : ∀ e ∈ fx, e.published = none) :
    shown fx = none := by
  rw [shown, List.filterMap_eq_nil_iff.mpr h]
  rfl

/-- The last value handed over shows the state that is left; without one, nothing that
    the block shows has changed. -/
def Told (st st' : St) (fx : List Effect) : Prop := ((shown fx).getD st).face = st'.face

/-- The state that is left has been handed over. -/
def Shows (st' : St) (fx : List Effect) : Prop := ∃ p, shown fx = some p ∧ p.face = st'.face

theorem Shows.told {st' : St} {fx : List Effect} (h : Shows st' fx) (st : St) :
    Told st st' fx := by
  obtain ⟨p, hp, hface⟩ := h
  rw [Told, hp]
  exact hface

theorem Shows.append {st' : St} {fx' : List Effect} (h : Shows st' fx') (fx : List Effect) :
    Shows st' (fx ++ fx') := by
  obtain ⟨p, hp, hface⟩ := h
  refine ⟨p, ?_, hface⟩
  rw [shown_append, hp]
  rfl

theorem Told.quiet {st st' : St} {fx : List Effect} (hface : st'.face = st.face)
    (hfx : shown fx = none) : Told st st' fx := by
  rw [Told, hfx]
  exact hface.symm

theorem Told.then_quiet {st st₁ st' : St} {fx fx' : List Effect} (h : Told st st₁ fx)
    (hface : st'.face = st₁.face) (hfx : shown fx' = none) : Told st st' (fx ++ fx') := by
  rw [Told, shown_append, hfx, hface]
  exact h

namespace St

variable {st : St}

theorem persist_shows (hf : ∀ t, st.active = some t → t.phase.isFinal = false) (force : Bool) :
    Shows (st.persist force).1 (st.persist force).2 := by
  rw [persist]
  rcases ha : st.active with _ | t
  · exact ⟨st, rfl, rfl⟩
  · dsimp only
    rw [if_neg (Bool.eq_false_iff.mp (hf t ha))]
    split
    · exact ⟨st, rfl, by rw [face, face, ha]⟩
    · exact ⟨st, rfl, rfl⟩

theorem setActive_persist_shows {t : Txn} (hf : t.phase.isFinal = false) (force : Bool) :
    Shows ((st.setActive t).persist force).1 ((st.setActive t).persist force).2 := by
  refine persist_shows (fun u hu => ?_) force
  cases hu
  exact hf

theorem setActive_finish_shows {t : Txn} (hf : t.phase.isFinal = true) :
    Shows (st.setActive t).finish.1 (st.setActive t).finish.2 := by
  rw [finish_final (st.setActive_active t) hf]
  refine ⟨(st.setActive t).retire.1, ?_, rfl⟩
  exact shown_publish ((st.setActive t).retire.2 ++ [.clear]) _

/-- A beat: the transaction goes on, or ends. -/
theorem beat_shows (t : Txn) (force : Bool) :
    Shows ((st.setActive t).persist force).1.finish.1
      (((st.setActive t).persist force).2 ++ ((st.setActive t).persist force).1.finish.2) := by
  rcases hf : t.phase.isFinal with _ | _
  · have hopen : ((st.setActive t).persist force).1.finish =
        (((st.setActive t).persist force).1, []) := by
      refine finish_open fun u hu => ?_
      rw [((st.setActive t).persist_frame force).1] at hu
      cases hu
      exact hf
    rw [hopen, List.append_nil]
    exact setActive_persist_shows hf force
  · have hclear : (st.setActive t).persist force = (st.setActive t, [.clear]) := by
      rw [persist, setActive_active]
      exact if_pos hf
    rw [hclear]
    exact (setActive_finish_shows hf).append _

end St

/-! ### The sections -/

theorem shown_lines (lines : List Line) : shown (lines.map .append) = none := by
  apply shown_eq_none
  intro e he
  obtain ⟨line, -, rfl⟩ := List.mem_map.mp he
  rfl

section

variable {st st' : St} {fx : List Effect}

/-- While the active transaction is open, whatever becomes of it is handed over. -/
theorem Deed.told (h : Deed st st' fx)
    (hopen : ∀ t, st.active = some t → t.phase.isFinal = false) : Told st st' fx := by
  cases h with
  | idle => exact .quiet rfl rfl
  | persist => exact (St.persist_shows hopen true).told st
  | save t hf => exact (St.setActive_persist_shows (hf hopen) true).told st
  | close t hf => exact (St.setActive_finish_shows hf).told st
  | interrupt t hf source opId item what =>
    exact ((St.setActive_finish_shows hf).told st).then_quiet rfl rfl
  | beat t force => exact (St.beat_shows t force).told st
  | accept t hf => exact ((St.setActive_persist_shows hf true).append _).told st
  | publish => exact Shows.told ⟨st, rfl, rfl⟩ st
  | ack => exact Shows.told ⟨_, rfl, rfl⟩ st
  | noticeAck => exact Shows.told ⟨_, rfl, rfl⟩ st

/-- The block shows nothing of the session. -/
theorem Tends.told (h : Tends st st' fx) : Told st st' fx := by
  obtain ⟨session, lines, rfl, rfl, -⟩ := h
  exact .quiet rfl (shown_lines lines)

theorem Does.told (h : Does st st' fx)
    (hopen : ∀ t, st.active = some t → t.phase.isFinal = false) : Told st st' fx := by
  cases h with
  | deed h => exact h.told hopen
  | tends h => exact h.told
  | queues h hq =>
    obtain ⟨legacy, lines, rfl, rfl, -⟩ := hq
    exact (h.told hopen).then_quiet rfl (shown_lines lines)
  | owner => exact .quiet rfl rfl

end

/-- **Every turn of a task** hands over what it changes. -/
theorem Task.turn_told (cfg : Config) (bootId : String) (uid : Nat) {st : St} (hst : st.Ok)
    (draining : Bool) (i : Input) (task : Task) :
    Told st (task.turn cfg bootId uid st draining i).st
      (task.turn cfg bootId uid st draining i).fx :=
  (task.turn_does cfg bootId uid st draining i).told hst.open'

theorem Call.turn_told {st : St} (hst : st.Ok) (draining : Bool) (c : Call) :
    Told st (c.turn st draining).st (c.turn st draining).fx :=
  (c.turn_does st draining).told hst.open'

/-! ### The engine and its observer -/

structure Observer where
  /-- Publications reach it. -/
  attached : Bool := false
  /-- `set_observer` has returned. -/
  installed : Bool := false
  handed : Option OpBlock := none

structure System where
  world : World := {}
  observer : Observer := {}

namespace System

inductive Act where
  /-- A step of the engine; `now` is the time at which it publishes last. -/
  | world (a : Datad.Act) (now : Nat)
  /-- The first half of `set_observer`. -/
  | attach
  /-- The second half: `publish_now`. -/
  | announce (now : Nat)

/-- The effects of the locked section of an action. -/
def effects (cfg : Config) (w : World) : Datad.Act → List Effect
  | .task key i =>
      match w.tasks key with
      | some t => (w.turnOf cfg t i).fx
      | none => []
  | .call _ c => (c.turn w.st w.draining).fx
  | .start _ bootId now => (w.disk.start bootId now).2
  | _ => []

variable (ui : Txn → Bool → Value) (cfg : Config)

/-- The observer is gone with the process. -/
def observe (s : System) (a : Datad.Act) (up : Bool) (now : Nat) : Observer :=
  if up then
    match shown (effects cfg s.world a) with
    | some st =>
        if s.observer.attached then
          { s.observer with handed := some (st.block ui cfg.rollback now) }
        else s.observer
    | none => s.observer
  else {}

def next (s : System) : Act → Option System
  | .world a now =>
      (s.world.next cfg a).map fun w => { world := w, observer := s.observe ui cfg a w.up now }
  | .attach =>
      if s.world.up then some { s with observer := { s.observer with attached := true } }
      else none
  | .announce now =>
      if s.world.up && s.observer.attached then
        some
          { s with
            observer :=
              { s.observer with
                installed := true
                handed := some (s.world.st.block ui cfg.rollback now) } }
      else none

/-- The last value handed over is the block of the state, but for the remaining times. -/
def Follows (s : System) : Prop :=
  s.observer.installed = true →
    ∃ b, s.observer.handed = some b ∧
      ∀ now, b.timeless = (s.world.st.block ui cfg.rollback now).timeless

/-- What holds between two steps. -/
structure Sound (s : System) : Prop where
  ok : s.world.Ok
  down : s.world.up = false → s.observer = {}
  attached : s.observer.installed = true → s.observer.attached = true
  follows : s.Follows ui cfg

variable {ui cfg}

/-- A section that hands over what it changes keeps the observer up to date. -/
theorem Sound.told {s : System} (hs : s.Sound ui cfg) {a : Datad.Act} {w : World}
    (hw : w.Ok) (hu : w.up = true) (ht : Told s.world.st w.st (effects cfg s.world a))
    (now : Nat) : Sound ui cfg { world := w, observer := s.observe ui cfg a w.up now } := by
  have hobs : (s.observe ui cfg a w.up now).installed = s.observer.installed ∧
      (s.observe ui cfg a w.up now).attached = s.observer.attached := by
    rw [observe, if_pos hu]
    split
    · split
      · exact ⟨rfl, rfl⟩
      · exact ⟨rfl, rfl⟩
    · exact ⟨rfl, rfl⟩
  refine ⟨hw, fun hd => ?_, fun hi => ?_, fun hi => ?_⟩
  · rw [hu] at hd
    cases hd
  · rw [hobs.2]
    exact hs.attached (hobs.1 ▸ hi)
  · have hi : s.observer.installed = true := hobs.1 ▸ hi
    rw [Told] at ht
    rcases hshown : shown (effects cfg s.world a) with _ | st
    · rw [hshown] at ht
      obtain ⟨b, hb, hface⟩ := hs.follows hi
      refine ⟨b, ?_, fun now' => ?_⟩
      · simp only [observe, hshown, hu, if_true]
        exact hb
      · exact (hface now').trans (St.block_timeless ht now' now')
    · rw [hshown] at ht
      refine ⟨st.block ui cfg.rollback now, ?_, fun now' => St.block_timeless ht now now'⟩
      simp only [observe, hshown, hu, hs.attached hi, if_true]

/-- Without a process there is no observer. -/
theorem Sound.gone {s : System} {w : World} (hw : w.Ok) (hu : w.up = false) (a : Datad.Act)
    (now : Nat) : Sound ui cfg { world := w, observer := s.observe ui cfg a w.up now } := by
  have hobs : s.observe ui cfg a w.up now = {} := by
    rw [observe, hu]
    rfl
  rw [hobs]
  exact ⟨hw, fun _ => rfl, fun hi => (by cases hi), fun hi => (by cases hi)⟩

theorem Sound.world {s : System} (hs : s.Sound ui cfg) {a : Datad.Act} {w : World}
    (h : s.world.next cfg a = some w) (now : Nat) :
    Sound ui cfg { world := w, observer := s.observe ui cfg a w.up now } := by
  have hstep := World.next_step h
  have hw := hs.ok.step hstep
  cases hstep with
  | submit hu hk => exact hs.told hw hu (.quiet rfl rfl) now
  | @task key i t ht =>
    have heff : effects cfg s.world (.task key i) = (s.world.turnOf cfg t i).fx := by
      rw [effects, ht]
    refine hs.told hw (hs.ok.up ht) ?_ now
    rw [heff]
    exact t.turn_told cfg _ _ hs.ok.st _ i
  | @call key c hu hk =>
    refine hs.told hw hu ?_ now
    exact c.turn_told hs.ok.st s.world.draining
  | drop ht hd => exact hs.told hw (hs.ok.up ht) (.quiet rfl rfl) now
  | start hu =>
    -- nobody listens yet
    have hobs : ∀ a, s.observe ui cfg a true now = {} := by
      intro a
      rw [observe, if_pos rfl, hs.down hu]
      split
      · rfl
      · rfl
    refine ⟨hw, fun hd => (by cases hd), fun hi => ?_, fun hi => ?_⟩
    · rw [hobs] at hi
      cases hi
    · dsimp only at hi
      rw [hobs] at hi
      cases hi
  | takeover =>
    by_cases hu : s.world.up = true
    · exact hs.told (a := .takeover) hw hu (.quiet rfl rfl) now
    · exact Sound.gone hw (Bool.eq_false_iff.mpr hu) .takeover now
  | crash hu => exact Sound.gone hw rfl _ now
  | crashTask ht => exact Sound.gone hw rfl _ now
  | crashCall hu => exact Sound.gone hw rfl _ now
  | crashStart hu => exact Sound.gone hw rfl _ now

theorem Sound.step {s s' : System} {a : Act} (hs : s.Sound ui cfg)
    (h : s.next ui cfg a = some s') : s'.Sound ui cfg := by
  cases a with
  | world a now =>
    rw [next, Option.map_eq_some_iff] at h
    obtain ⟨w, hw, rfl⟩ := h
    exact hs.world hw now
  | attach =>
    rw [next] at h
    split at h
    · rename_i hu
      cases h
      refine ⟨hs.ok, fun hd => ?_, fun _ => rfl, hs.follows⟩
      rw [hu] at hd
      cases hd
    · cases h
  | announce now =>
    rw [next] at h
    split at h
    · rename_i hua
      rw [Bool.and_eq_true] at hua
      cases h
      refine ⟨hs.ok, fun hd => ?_, fun _ => hua.2, fun _ => ?_⟩
      · rw [hua.1] at hd
        cases hd
      · exact ⟨_, rfl, fun now' => St.block_timeless rfl now now'⟩
    · cases h

end System

/-- **The `op` block follows the engine.**  In every run, once the observer is installed,
    the last value it was handed is the block of the current state after every section. -/
theorem op_block_follows (ui : Txn → Bool → Value) (cfg : Config) {s : System}
    (h : Exec (System.next ui cfg) (fun _ _ => True) {} s) : s.Follows ui cfg := by
  refine (h.invariant (System.Sound ui cfg) (fun hs _ hn => hs.step hn) ?_).follows
  exact ⟨World.Ok.empty, fun _ => rfl, fun hi => (by cases hi), fun hi => (by cases hi)⟩

/-- A change is accepted under an observer and dropped for a safety write. -/
def observedRun : List System.Act :=
  [.world (.start 0 "boot" 5) 5, .attach, .announce 6] ++
    ((World.submitted 1 "a" ++ [Act.call 2 .preempt]).map fun a => .world a 7)

/-- The observer has seen the end of a change. -/
def System.sawEnd (s : System) : Bool :=
  s.observer.installed &&
    s.observer.handed.any fun b => b.last.any fun l => decide (l.1.phase = .cancelled)

theorem op_block_follows_preempt :
    ∃ s, Exec (System.next (fun _ _ => .null) World.sampleConfig) (fun _ _ => True) {} s ∧
      s.sawEnd = true ∧ s.Follows (fun _ _ => .null) World.sampleConfig := by
  have hrun : (run (System.next (fun _ _ => .null) World.sampleConfig) (fun _ _ => true) {}
      observedRun).any System.sawEnd = true := by decide +kernel
  obtain ⟨s, hs, hp⟩ := Exec.exists_of_run (fun _ _ _ => trivial) (.refl _) hrun
  exact ⟨s, hs, hp, op_block_follows _ _ hs⟩

end Datad
