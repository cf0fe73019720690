/-
  Datad/Ops/Readings.lean
  =======================
  **Readings that come too late** (`Engine::drive`, `Txn::step`).

  The driver reads and probes outside the lock.  It remembers the generation it saw
  before, and a reading is fed only to a transaction that still has it; so everything
  rests on each change of phase or intent raising the generation (`Ctl.Moves`), in
  memory, in the file and in the journal.

  An observer notes when each transaction last changed, and when the reading of each slot
  began.  That the generation belongs to the transaction the reading was taken for rests
  on `NoReuse`: the transaction is looked up by `op_id`.
-/
import Datad.Lib.Ghost
import Datad.Ops.Turns
import Datad.Ops.TxnConfirm
import Datad.Ops.WriteOnce

namespace Datad

open Transition

/-! ### Every change raises the generation -/

namespace Ctl

theorem Moves.generation_lt {c c' : Ctl} (h : Moves c c')
    (hne : c'.phase ≠ c.phase ∨ c'.intent ≠ c.intent) : c.generation < c'.generation := by
  apply Nat.lt_of_le_of_ne h.generation_le
  intro hg
  rw [h.eq_of_generation hg.symm] at hne
  exact hne.elim (absurd rfl) (absurd rfl)

end Ctl

namespace Sect

variable {who : Option String} {may : Bool} {fresh : Option Nat} {a' : Option Txn}
  {l : List Effect}

/-- What a section makes of the active transaction, or records of it, are moves. -/
theorem moves {t t' : Txn} (h : Sect who may fresh (some t) a' l) (hfresh : fresh ≠ some t.uid)
    (ht' : a' = some t' ∨ .append (.txn t') ∈ l) (hu : t'.uid = t.uid) :
    Ctl.Moves t.ctl t'.ctl := by
  generalize ha : some t = a at h
  cases h with
  | stay =>
    rcases ht' with h | h
    · rw [← ha] at h
      cases h
      exact .refl
    · cases h
  | resave =>
    cases ha
    rcases ht' with h | h
    · cases h
      exact .refl
    · simp at h
  | advance hi hm hid hf hl =>
    cases ha
    rcases ht' with h | h
    · cases h
      exact hm
    · rcases hl with rfl | ⟨rfl, -⟩
      · simp at h
      · cases h
  | landed hw hs hid hf =>
    cases ha
    rcases ht' with h | h
    · cases h
      exact .single hs
    · simp at h
  | @close _ u l hm hid hf hc hl =>
    cases ha
    rcases ht' with h | h
    · cases h
    · have hu : t' = u := by rcases hl with rfl | rfl <;> simpa using h
      rw [hu]
      exact hm
  | accept hn ho =>
    cases ha
    rcases ht' with h | h
    · cases h
      exact absurd (hn.trans (congrArg some hu)) hfresh
    · rcases List.mem_append.mp h with h | h
      · obtain ⟨u, hu, heq⟩ := List.mem_map.mp h
        cases Option.mem_toList.mp hu
        cases heq
        exact (t.cancel_moves rfl).1
      · simp at h

end Sect

/-- What a start records of the saved transaction are moves. -/
theorem Disk.start_recorded (d : Disk) (bootId : String) (now : Nat) {p t : Txn}
    (hp : d.pending = some p) (hpi : p.ctl.Inv) (hpf : p.phase.isFinal = false)
    (ht : .append (.txn t) ∈ (d.start bootId now).2) : Ctl.Moves p.ctl t.ctl := by
  have ht : .append (.txn t) ∈ trail (d.start bootId now).2 := mem_trail.mpr ⟨ht, rfl⟩
  have htake : trail (if d.takeover then [Effect.takeTakeover] else []) = [] := by
    cases d.takeover <;> rfl
  rw [start, hp] at ht
  dsimp only at ht
  generalize hr : (if d.takeover = true then p.cancel .takeover
    else (p.resume bootId now).1) = u at ht
  obtain ⟨⟨c, hs, hm⟩, -⟩ := Txn.restarted_moves hpi hpf d.takeover bootId now hr
  rw [List.append_assoc, trail_append, htake, List.nil_append] at ht
  rcases d.boot.started_active u with ⟨-, -, htr⟩ | ⟨-, -, htr⟩
  · rw [htr] at ht
    simp at ht
  · rw [htr] at ht
    have hu : t = u := by simpa using ht
    rw [hu]
    exact .head hs hm

/-! ### What a driver saw before it read -/

namespace Task

/-- The `op_id` a task looks its transaction up by, and the generation it saw. -/
def saw : Task → Option (String × Nat)
  | .rollback x _ _ g _ | .rollbackRead x _ _ g _ => some (x, g)
  | .sleep x g _ | .read x g _ | .probe x g _ | .feed x g _ => some (x, g)
  | _ => none

/-- The device is being read, or was. -/
def hasRead : Task → Bool
  | .read .. | .probe .. | .feed .. => true
  | _ => false

theorem works_of_saw {T : Task} {x : String} {g : Nat} (h : T.saw = some (x, g)) :
    T.works = some x := by
  cases T <;> simp_all [saw, works]

/-- Where the generation of a task comes from. -/
inductive Saw (st st' : St) (x : String) (g : Nat) : Task → Task → Prop where
  | keeps {T T' : Task} (h : T.saw = some (x, g)) (hr : T'.hasRead = true → T.hasRead = true) :
      Saw st st' x g T T'
  | reads {spec : Option Spec} (hst : st' = st) :
      Saw st st' x g (.sleep x g spec) (.read x g spec)
  | looks {T' : Task} {t : Txn} (hlive : st.live x = some t) (hg : g = t.generation)
      (hst : st' = st) (hr : T'.hasRead = false) : Saw st st' x g (.drive x) T'

theorem turn_saw (cfg : Config) (bootId : String) (uid : Nat) (st : St) (draining : Bool)
    (i : Input) (T : Task) {T' : Task} {x : String} {g : Nat}
    (h : (T.turn cfg bootId uid st draining i).task = some T') (hs : T'.saw = some (x, g)) :
    Saw st (T.turn cfg bootId uid st draining i).st x g T T' := by
  -- a task that works for nobody leaves none behind that does
  have hworks : T.works ≠ none := by
    intro hnone
    have hx : worksOf (T.turn cfg bootId uid st draining i).task = some x := by
      rw [h]
      exact works_of_saw hs
    cases T.turn_passes cfg bootId uid st draining i with
    | on hacc hw => cases hnone.symm.trans (hw x hx)
    | accept hacc hT hT' =>
      rw [h] at hT'
      cases hT'
      cases hs
    | decide hacc hst hT =>
      rw [hT] at hnone
      cases hnone
    | send hacc hst ha ha' ho hw => cases (hw.trans hnone).symm.trans hx
  cases T with
  | drive opId =>
    simp only [turn] at h ⊢
    split at h
    · cases h
      cases hs
    · rename_i t hl
      split at h
      · rename_i hr
        rw [if_pos hr]
        cases h
        cases hs
        exact .looks hl rfl rfl rfl
      · rename_i hr
        rw [if_neg hr]
        cases h
        cases hs
        exact .looks hl rfl rfl rfl
  | rollback opId u value generation spec =>
    simp only [turn] at h
    split at h
    · cases h
      cases hs
    · cases h
      split at hs
      · cases hs
        exact .keeps rfl (fun h => h)
      · cases hs
  | rollbackRead opId u value generation spec =>
    simp only [turn] at h
    split at h
    · cases h
      cases hs
    · cases h
      cases hs
    · cases h
      cases hs
      exact .keeps rfl (fun h => h)
  | sleep opId generation spec =>
    cases h
    split at hs
    · cases hs
    · rename_i hw
      cases hs
      rw [if_neg hw]
      exact .reads rfl
  | read opId generation spec =>
    have hread : (Task.read opId generation spec).hasRead = true := rfl
    simp only [turn] at h
    split at h
    · split at h
      · cases h
        cases hs
      · split at h
        · cases h
          cases hs
          exact .keeps rfl fun _ => hread
        · cases h
          cases hs
          exact .keeps rfl fun _ => hread
    · cases h
      cases hs
      exact .keeps rfl fun _ => hread
  | probe opId generation reading =>
    cases h
    cases hs
    exact .keeps rfl fun _ => rfl
  | feed opId generation reading =>
    simp only [turn] at h
    split at h
    · cases h
      cases hs
    · cases h
      cases hs
  | submitBack req opId u result =>
    cases h
    split at hs
    · cases hs
    · cases hs
  | submitWrite req opId u =>
    cases h
    cases hs
  | submitWait req opId u =>
    cases h
    cases hs
  | rollbackWrite opId u value =>
    cases h
    cases hs
  | rollbackWait opId u =>
    cases h
    cases hs
  | rollbackSkip opId u =>
    cases h
    cases hs
  | _ => exact absurd rfl hworks

end Task

namespace World

/-- The transaction is in memory, or in the file while the process is down. -/
def Holds (w : World) (t : Txn) : Prop :=
  if w.up then w.st.active = some t else w.disk.pending = some t

/-- The end of the transaction is recorded in a step. -/
def Records (w w' : World) (t : Txn) : Prop := .fx (.append (.txn t)) ∈ w'.log.drop w.log.length

theorem mem_drop_log {l es : List Event} {e : Event} : e ∈ (l ++ es).drop l.length ↔ e ∈ es := by
  rw [List.drop_left]

/-- What is recorded in a step that only has effects is one of them. -/
theorem Records.mem {w w' : World} {t : Txn} {fx : List Effect} (h : w.Records w' t)
    (hlog : w'.log = w.log ++ fx.map .fx) : .append (.txn t) ∈ fx := by
  rw [Records, hlog] at h
  obtain ⟨e, hmem, he⟩ := List.mem_map.mp (mem_drop_log.mp h)
  cases he
  exact hmem

theorem resumed_moves {w : World} (hok : w.Ok) (bootId : String) (now : Nat) {t t' : Txn}
    (ht : w.disk.pending = some t) (ht' : (w.disk.start bootId now).1.active = some t') :
    Ctl.Moves t.ctl t'.ctl := by
  obtain ⟨p, hp, -, c, hstep, hmoves⟩ := (hok.resumed bootId now).2.source ht'
  rw [ht] at hp
  cases hp
  exact .head hstep hmoves

/-- **Every step moves the transaction**, also a crash or a restart. -/
theorem Step.moves {cfg : Config} {w w' : World} {a : Act} (hok : w.Ok) (hs : Step cfg w a w')
    {t t' : Txn} (ht : w.Holds t) (ht' : w'.Holds t' ∨ w.Records w' t')
    (hu : t'.uid = t.uid) : Ctl.Moves t.ctl t'.ctl := by
  have hfresh : ∀ turn : Turn, w.st.active = some t → turn.fresh w.nextUid ≠ some t.uid := by
    intro turn hact h
    have hlt := (hok.active hact).fresh
    rw [(Turn.fresh_eq_some h).1] at hlt
    exact Nat.lt_irrefl _ hlt
  cases hs.kind hok with
  | @turn key T turn hup g =>
    rw [Holds, if_pos hup] at ht
    obtain ⟨who, may, hshift⟩ := g.shift
    have hsect := hshift.sect
    rw [ht] at hsect
    refine hsect.moves (hfresh turn ht) ?_ hu
    rcases ht' with h | h
    · exact .inl (by simpa [Holds, take, hup] using h)
    · rw [Records] at h
      have hmem := mem_drop_log.mp h
      simp only [List.mem_append, List.mem_map, Event.fx.injEq, exists_eq_right, g.events,
        or_false] at hmem
      exact .inr (mem_trail.mpr ⟨hmem, rfl⟩)
  | @die turn hup hfx hshift hf =>
    rw [Holds, if_pos hup] at ht
    obtain ⟨who, may, hshift⟩ := hshift
    have hsect := hshift.sect
    rw [ht] at hsect
    have hsub := hfx.filter Effect.onTrail
    rcases ht' with h | h
    · have hpend : pendingAfter w.disk.pending (trail (w.lastFx cfg a)) = some t' := by
        rw [← Disk.applyAll_pending]
        simpa [Holds, die] using h
      rcases @Sect.crash _ _ _ _ _ w.disk.pending _ _ hsect hsub with hq | hq | hq
      · have hmir := hok.mirror hup
        rw [ht, ← hq] at hmir
        have hpend' : pendingAfter w.disk.pending (List.filter Effect.onTrail (w.lastFx cfg a)) =
          some t' := hpend
        rw [hpend'] at hmir
        cases hmir with
        | some hc hid he => rw [hc]
      · cases hq.symm.trans hpend
      · exact hsect.moves (hfresh turn ht) (.inl (hq.symm.trans hpend)) hu
    · have hmem := hfx.mem (h.mem rfl)
      exact hsect.moves (hfresh turn ht) (.inr (mem_trail.mpr ⟨hmem, rfl⟩)) hu
  | @start key bootId now ha hup =>
    rw [Holds, if_neg (by simp [hup])] at ht
    rcases ht' with h | h
    · exact resumed_moves hok bootId now ht (by simpa [Holds] using h)
    · exact w.disk.start_recorded bootId now ht (hok.saved t ht).inv (hok.saved t ht).open'
        (h.mem rfl)
  | @dieStart bootId now hup hfx =>
    rw [Holds, if_neg (by simp [hup])] at ht
    have hsub := hfx.filter Effect.onTrail
    rcases ht' with h | h
    · have hpend : pendingAfter w.disk.pending (trail (w.lastFx cfg a)) = some t' := by
        rw [← Disk.applyAll_pending]
        simpa [Holds, die] using h
      rcases pendingAfter_cases (trail (w.lastFx cfg a)) w.disk.pending with hq | ⟨-, hq⟩ |
        ⟨u, hmem, hq⟩
      · rw [hq, ht] at hpend
        cases hpend
        exact .refl
      · cases hq.symm.trans hpend
      · cases hq.symm.trans hpend
        have hact := (hok.resumed bootId now).2.saved (hsub.mem hmem)
        exact resumed_moves hok bootId now ht hact
    · exact w.disk.start_recorded bootId now ht (hok.saved t ht).inv (hok.saved t ht).open'
        (hfx.mem (h.mem rfl))
  | takeover =>
    rcases ht' with h | h
    · have hsame : w.Holds t' := h
      unfold Holds at ht hsame
      split at ht
      · rename_i hup
        rw [if_pos hup, ht] at hsame
        cases hsame
        exact .refl
      · rename_i hup
        rw [if_neg hup, ht] at hsame
        cases hsame
        exact .refl
    · simp [Records] at h

/-! ### The observer -/

structure Readings where
  step : Nat := 0
  /-- The step in which the phase or the intent of each transaction last changed. -/
  changed : Nat → Nat := fun _ => 0
  /-- The step in which the device read of each slot began. -/
  begun : Nat → Nat := fun _ => 0
  /-- The transaction that it was begun for. -/
  taken : Nat → Option Nat := fun _ => none

/-- The phase and the intent of a transaction, if it is active. -/
def stand (w : World) (uid : Nat) : Option (Phase × Option Intent) :=
  (w.st.active.filter fun t => decide (t.uid = uid)).map fun t => (t.phase, t.intent)

/-- The slot whose device read begins in a step, and the `op_id` it looks up. -/
def begins (w : World) (a : Act) (w' : World) : Option (Nat × String) :=
  match a with
  | .task key _ =>
      match w.tasks key, w'.tasks key with
      | some (.sleep x _ _), some (.read ..) => some (key, x)
      | _, _ => none
  | _ => none

def note (w : World) (a : Act) (w' : World) (g : Readings) : Readings :=
  let step := g.step + 1
  let changed := fun u => if w'.stand u = w.stand u then g.changed u else step
  match w.begins a w' with
  | some (key, x) =>
      { step, changed
        begun := Function.update g.begun key step
        taken := Function.update g.taken key ((w.st.live x).map (·.uid)) }
  | none => { g with step, changed }

/-- The transaction and the reading that the next turn of the slot feeds to it. -/
def feeds (w : World) (key : Nat) : Option (Txn × Reading) :=
  match w.tasks key with
  | some (.feed x n (some r)) =>
      match w.st.live x with
      | some t => if t.generation = n then some (t, r) else none
      | none => none
  | _ => none

theorem feeds_eq_some {w : World} {key : Nat} {t : Txn} {r : Reading}
    (h : w.feeds key = some (t, r)) :
    ∃ x, w.tasks key = some (.feed x t.generation (some r)) ∧ w.st.live x = some t := by
  unfold feeds at h
  split at h
  · rename_i x n r' hT
    split at h
    · rename_i t' hl
      split at h
      · rename_i hn
        cases h
        exact ⟨x, by rw [hT, hn], hl⟩
      · cases h
    · cases h
  · cases h

/-! ### What keeps old readings out -/

/-- A task saw no generation its transaction does not have yet; and if the transaction
    still has it, the reading began after its last change, and for it. -/
structure Fenced (w : World) (g : Readings) : Prop where
  past : ∀ u, g.changed u ≤ g.step
  fence : ∀ k T x n t, w.tasks k = some T → T.saw = some (x, n) → w.st.live x = some t →
    n ≤ t.generation ∧ (T.hasRead = true → t.generation = n →
      g.changed t.uid < g.begun k ∧ g.taken k = some t.uid)

section Step

variable {cfg : Config} {w w' : World} {a : Act} {g : Readings}

theorem note_changed (u : Nat) : (note w a w' g).changed u =
    if w'.stand u = w.stand u then g.changed u else g.step + 1 := by
  unfold note
  dsimp only
  split
  · rfl
  · rfl

theorem note_step : (note w a w' g).step = g.step + 1 := by
  unfold note
  dsimp only
  split
  · rfl
  · rfl

theorem note_begun {key : Nat} {x : String} (h : w.begins a w' = some (key, x)) :
    (note w a w' g).begun key = g.step + 1 ∧
      (note w a w' g).taken key = (w.st.live x).map (·.uid) := by
  simp [note, h]

/-- The reading of another slot, or one that goes on. -/
theorem note_other {k : Nat} (h : ∀ x, w.begins a w' ≠ some (k, x)) :
    (note w a w' g).begun k = g.begun k ∧ (note w a w' g).taken k = g.taken k := by
  unfold note
  dsimp only
  split
  · rename_i key x hb
    have hne : k ≠ key := by
      rintro rfl
      exact h x hb
    exact ⟨Function.update_of_ne hne _ _, Function.update_of_ne hne _ _⟩
  · exact ⟨rfl, rfl⟩

theorem Fenced.past' (h : w.Fenced g) (a : Act) (w' : World) (u : Nat) :
    (note w a w' g).changed u ≤ (note w a w' g).step := by
  rw [note_changed, note_step]
  have := h.past u
  split
  · omega
  · omega

theorem Fenced.empty : Fenced {} {} := ⟨fun _ => Nat.le_refl _, by simp⟩

/-- With no reading under way there is nothing to keep out. -/
theorem Fenced.quiet (h : w.Fenced g) (hq : ∀ k T, w'.tasks k = some T → T.saw = none) :
    w'.Fenced (note w a w' g) := by
  refine ⟨h.past' a w', fun k T x n t hT hs => ?_⟩
  rw [hq k T hT] at hs
  cases hs

theorem stand_of_live {x : String} {t : Txn} (h : w.st.live x = some t) :
    w.stand t.uid = some (t.phase, t.intent) := by
  simp [stand, (St.live_eq_some.mp h).1, Option.filter]

/-- A transaction with the generation it had stands where it stood. -/
theorem Fenced.kept (h : w.Fenced g) (hok : w.Ok) (hs : Step cfg w a w') (hup : w.up = true)
    (hup' : w'.up = true) {k n : Nat} {T T' : Task} {x : String} {t t' : Txn}
    (hT : w.tasks k = some T) (hsaw : T.saw = some (x, n)) (ht : w.st.live x = some t)
    (ht' : w'.st.live x = some t') (hu : t'.uid = t.uid)
    (hread : T'.hasRead = true → T.hasRead = true)
    (hb : T'.hasRead = true → ∀ y, w.begins a w' ≠ some (k, y)) :
    n ≤ t'.generation ∧ (T'.hasRead = true → t'.generation = n →
      (note w a w' g).changed t'.uid < (note w a w' g).begun k ∧
        (note w a w' g).taken k = some t'.uid) := by
  have hmoves : Ctl.Moves t.ctl t'.ctl := by
    refine hs.moves hok ?_ (.inl ?_) hu
    · simpa [Holds, hup] using (St.live_eq_some.mp ht).1
    · simpa [Holds, hup'] using (St.live_eq_some.mp ht').1
  obtain ⟨hle, hfresh⟩ := h.fence k T x n t hT hsaw ht
  have hgen : t.generation ≤ t'.generation := hmoves.generation_le
  refine ⟨Nat.le_trans hle hgen, fun hr hn => ?_⟩
  have hsame : t'.generation = t.generation := by omega
  have hctl := hmoves.eq_of_generation hsame
  have hstand : w'.stand t.uid = w.stand t.uid := by
    rw [← hu, stand_of_live ht', hu, stand_of_live ht]
    exact congrArg (fun c : Ctl => some (c.phase, c.intent)) hctl
  obtain ⟨hchanged, htaken⟩ := hfresh (hread hr) (by omega)
  obtain ⟨hbegun, htaken'⟩ := note_other (g := g) (hb hr)
  rw [hu, note_changed, if_pos hstand, hbegun, htaken']
  exact ⟨hchanged, htaken⟩

/-- The transaction a task looks up is no new one. -/
theorem live_before {key k : Nat} {T : Task} {may : Bool} {turn : Turn}
    (hg : Goes w key T may turn) {x : String} {t' : Txn} (ht' : turn.st.live x = some t')
    (hk : worksOf (w.tasks k) = some x) : ∃ t, w.st.live x = some t ∧ t'.uid = t.uid := by
  obtain ⟨hact, hx⟩ := St.live_eq_some.mp ht'
  rcases hg.shift.sect.source hact with ⟨t, ht, hid⟩ | hfresh
  · refine ⟨t, St.live_eq_some.mpr ⟨ht, ?_⟩, congrArg Txn.Ident.uid hid⟩
    rw [← hx]
    exact (congrArg Txn.Ident.opId hid).symm
  · obtain ⟨-, hacc⟩ := Turn.fresh_eq_some hfresh
    obtain ⟨hone, -⟩ := hg.accepted hacc hact
    rw [← hx] at hk
    exact absurd hk (hg.reuse hone k t' hact)

theorem works_of_task {k n : Nat} {T : Task} {x : String} (hT : w.tasks k = some T)
    (hs : T.saw = some (x, n)) : worksOf (w.tasks k) = some x := by
  rw [hT]
  exact Task.works_of_saw hs

/-- **A turn keeps old readings out**, if no `op_id` is taken again. -/
theorem Fenced.take {key : Nat} {T : Task} {may : Bool} {turn : Turn} (h : w.Fenced g)
    (hok : w.Ok) (hup : w.up = true) (hg : Goes w key T may turn)
    (hs : Step cfg w a (w.take key turn))
    (hslot : ∀ T' x n, turn.task = some T' → T'.saw = some (x, n) →
      w.tasks key = some T ∧ Task.Saw w.st turn.st x n T T')
    (hbegins : ∀ k y, w.begins a (w.take key turn) = some (k, y) →
      k = key ∧ ∃ n spec, w.tasks key = some (.sleep y n spec))
    (hreads : ∀ x n spec, w.tasks key = some (.sleep x n spec) →
      turn.task = some (.read x n spec) → w.begins a (w.take key turn) = some (key, x)) :
    (w.take key turn).Fenced (note w a (w.take key turn) g) := by
  refine ⟨h.past' a _, fun k T' x n t' hT' hsaw hafter => ?_⟩
  have ht' : turn.st.live x = some t' := hafter
  by_cases hk : k = key
  · subst hk
    rw [Goes.at_key] at hT'
    obtain ⟨hT, hfrom⟩ := hslot T' x n hT' hsaw
    cases hfrom with
    | keeps hsaw₀ hr =>
      obtain ⟨t, ht, hu⟩ := live_before hg ht' (works_of_task hT hsaw₀)
      refine h.kept hok hs hup hup hT hsaw₀ ht ht' hu hr fun hread y hb => ?_
      obtain ⟨-, m, spec, hsleep⟩ := hbegins k y hb
      rw [hT] at hsleep
      cases hsleep
      cases hr hread
    | @reads spec hst =>
      rw [hst] at ht'
      obtain ⟨hle, -⟩ := h.fence k _ x n t' hT rfl ht'
      refine ⟨hle, fun _ _ => ?_⟩
      obtain ⟨hbegun, htaken⟩ := note_begun (g := g) (hreads x n spec hT hT')
      have hstand : (w.take k turn).stand t'.uid = w.stand t'.uid := by
        show (turn.st.active.filter _).map _ = _
        rw [hst]
        rfl
      rw [note_changed, if_pos hstand, hbegun, htaken, ht']
      exact ⟨Nat.lt_succ_of_le (h.past t'.uid), rfl⟩
    | looks hlive hgen hst hr =>
      rw [hst, hlive] at ht'
      cases ht'
      refine ⟨Nat.le_of_eq hgen, fun hread => ?_⟩
      rw [hr] at hread
      cases hread
  · rw [Goes.at_other hk] at hT'
    obtain ⟨t, ht, hu⟩ := live_before hg ht' (works_of_task hT' hsaw)
    refine h.kept hok hs hup hup hT' hsaw ht ht' hu (fun hr => hr) fun _ y hb => ?_
    exact hk (hbegins k y hb).1

/-- A step that is no turn of a task begins no reading. -/
theorem begins_eq_some {k : Nat} {y : String} (h : w.begins a w' = some (k, y)) :
    ∃ i n spec, a = .task k i ∧ w.tasks k = some (.sleep y n spec) := by
  cases a with
  | task key i =>
    simp only [begins] at h
    split at h
    · rename_i hT _
      cases h
      exact ⟨i, _, _, rfl, hT⟩
    · cases h
  | _ => cases h

theorem Fenced.step (h : w.Fenced g) (hok : w.Ok) (hr : NoReuse cfg w a)
    (hs : Step cfg w a w') : w'.Fenced (note w a w' g) := by
  have hstep := hs
  have hempty {w₀ : World} (h₀ : w₀.tasks = fun _ => none) : ∀ k T, w₀.tasks k = some T →
      T.saw = none := by
    intro k T hT
    rw [h₀] at hT
    cases hT
  cases hs with
  | @submit key req fresh hu hk =>
    rw [← take_idle] at hstep ⊢
    refine h.take hok hu (.submit hk _ _) hstep (fun T' x n hT hsaw => ?_) (fun k y hb => ?_)
      fun x n spec hT => ?_
    · cases hT
      cases hsaw
    · obtain ⟨i, n, spec, heq, -⟩ := begins_eq_some hb
      cases heq
    · rw [hk] at hT
      cases hT
  | @task key i T ht =>
    refine h.take hok (hok.up ht) (.task hok ht _ hr) hstep (fun T' x n hT hsaw => ?_)
      (fun k y hb => ?_) fun x n spec hT hT' => ?_
    · exact ⟨ht, Task.turn_saw cfg w.bootId w.nextUid w.st w.draining i T hT hsaw⟩
    · obtain ⟨i', n, spec, heq, hT⟩ := begins_eq_some hb
      cases heq
      exact ⟨rfl, n, spec, hT⟩
    · have hafter : (w.take key (w.turnOf cfg T i)).tasks key = some (.read x n spec) :=
        Goes.at_key.trans hT'
      simp only [begins, hT, hafter]
  | @call key c hu hk =>
    have hworks := (c.turn_free w.st w.draining).1
    refine h.take hok hu (.call w hk _) hstep (fun T' x n hT hsaw => ?_) (fun k y hb => ?_)
      fun x n spec hT => ?_
    · rw [hT] at hworks
      cases hworks.symm.trans (Task.works_of_saw hsaw)
    · obtain ⟨i, n, spec, heq, -⟩ := begins_eq_some hb
      cases heq
    · rw [hk] at hT
      cases hT
  | @drop key T ht hd =>
    rw [← take_idle] at hstep ⊢
    refine h.take hok (hok.up ht) (.drop ht hd) hstep (fun T' x n hT hsaw => ?_)
      (fun k y hb => ?_) fun x n spec hT hT' => ?_
    · cases hT
    · obtain ⟨i, n, spec, heq, -⟩ := begins_eq_some hb
      cases heq
    · cases hT'
  | start hu =>
    apply h.quiet
    intro k T hT
    have hT : startTasks _ _ k = some T := hT
    rw [startTasks, setTask] at hT
    split at hT
    · obtain ⟨t, -, rfl⟩ := Option.map_eq_some_iff.mp hT
      rfl
    · cases hT
  | takeover =>
    refine ⟨h.past' _ _, fun k T x n t hT hsaw ht => ?_⟩
    obtain ⟨hle, hfresh⟩ := h.fence k T x n t hT hsaw ht
    refine ⟨hle, fun hread hn => ?_⟩
    have hstand : ({ w with disk := { w.disk with takeover := true } } : World).stand t.uid =
        w.stand t.uid := rfl
    rw [note_changed, if_pos hstand]
    exact hfresh hread hn
  | crash hu => exact h.quiet (hempty rfl)
  | crashTask ht => exact h.quiet (hempty rfl)
  | crashCall hu => exact h.quiet (hempty rfl)
  | crashStart hu => exact h.quiet (hempty rfl)

end Step

/-! ### Readings that are fed -/

/-- **Readings are never stale.**  In every run each change of phase or intent raises the
    generation, in memory, in the file and in the journal.  In every run that takes no
    `op_id` again while a task works for it, a reading that is fed to a transaction began
    after the last change of its phase or intent, and for this transaction. -/
theorem readings_fresh (cfg : Config) :
    (∀ w a w', Exec (next cfg) (fun _ _ => True) {} w → next cfg w a = some w' →
      ∀ t t', w.Holds t → w'.Holds t' ∨ w.Records w' t' → t'.uid = t.uid →
        t'.phase ≠ t.phase ∨ t'.intent ≠ t.intent → t.generation < t'.generation) ∧
    ∀ w g, Exec (watched (next cfg) note) (fun p a => NoReuse cfg p.1 a) ({}, {}) (w, g) →
      ∀ key t r, w.feeds key = some (t, r) →
        g.changed t.uid < g.begun key ∧ g.taken key = some t.uid := by
  constructor
  · intro w a w' h hn t t' ht ht' hu hne
    have hok : w.Ok := h.invariant _ (fun hok _ hs => hok.step (next_step hs)) .empty
    exact ((next_step hn).moves hok ht ht' hu).generation_lt hne
  · intro w g h key t r hfeeds
    obtain ⟨x, hT, ht⟩ := feeds_eq_some hfeeds
    have hinv := h.invariant (fun p : World × Readings => p.1.Ok ∧ p.1.Fenced p.2)
      (fun {p p' a} hp hr hs => by
        obtain ⟨hnext, hnote⟩ := watched_eq_some.mp hs
        rw [hnote]
        exact ⟨hp.1.step (next_step hnext), hp.2.step hp.1 hr (next_step hnext)⟩)
      ⟨.empty, .empty⟩
    exact (hinv.2.fence key _ x t.generation t hT rfl ht).2 rfl rfl

/-- What the device says while only the probe is missing. -/
def unprobedReading (value : String) : Reading :=
  { Txn.sampleConfirming with
    value := some value, sim := ⟨"89860000000000000001", 1⟩, probe := none }

/-- The driver of the change in this slot reads the device and probes. -/
def probing (key : Nat) : List Act :=
  [.task key {}, .task key {}, .task key { now := 9, reading := .ok (unprobedReading "Only_LTE") }]

theorem readings_fresh_probed : ∃ w g t r,
    Exec (watched (next sampleConfig) note) (fun p a => NoReuse sampleConfig p.1 a) ({}, {})
        (w, g) ∧
      w.feeds 1 = some (t, r) ∧ g.changed t.uid < g.begun 1 := by
  have hrun : (run (next sampleConfig) settled firstAccepted
      (applied 1 ++ probing 1 ++ [.task 1 { probe := true }])).any
        (fun w => (w.feeds 1).isSome) = true := by decide +kernel
  obtain ⟨w, hw, hp⟩ := Exec.exists_of_run (fun _ _ h => .of_settled h)
    (firstAccepted_exec.mono fun _ _ h => h.1) hrun
  obtain ⟨⟨t, r⟩, hfeeds⟩ := Option.isSome_iff_exists.mp hp
  obtain ⟨g, hg⟩ := hw.watch ({} : Readings)
  exact ⟨w, g, t, r, hg, hfeeds, ((readings_fresh sampleConfig).2 w g hg 1 t r hfeeds).1⟩

/-- The change `a` is kept while its driver probes; `a` is submitted and written again
    after the engine forgot it. -/
def staleRun : List Act :=
  .start 0 "boot" 5 :: submitted 1 "a" ++ applied 1 ++ probing 1 ++ [.call 4 (.keep "a")] ++
    forgetting ++ submitted 2 "a" ++ applied 2 ++ [.task 1 { now := 20, probe := true }]

/-- Then the second change is fed the reading of the first, from before its write. -/
theorem reused_opId_fed_stale_reading : ∃ w g t r,
    Exec (watched (next sampleConfig) note) (fun _ _ => True) ({}, {}) (w, g) ∧
      w.feeds 1 = some (t, r) ∧ g.begun 1 < g.changed t.uid ∧ g.taken 1 ≠ some t.uid := by
  have hrun : (run (watched (next sampleConfig) note) (fun _ _ => true) ({}, {}) staleRun).any
      (fun p => (p.1.feeds 1).any fun f =>
        decide (p.2.begun 1 < p.2.changed f.1.uid ∧ p.2.taken 1 ≠ some f.1.uid)) = true := by
    decide +kernel
  obtain ⟨⟨w, g⟩, hw, hp⟩ := Exec.exists_of_run (fun _ _ _ => trivial) (.refl _) hrun
  obtain ⟨⟨t, r⟩, hfeeds, hlate⟩ := Option.any_eq_true _ _ |>.mp hp
  exact ⟨w, g, t, r, hw, hfeeds, of_decide_eq_true hlate⟩

end World

end Datad
