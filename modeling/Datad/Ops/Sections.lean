/-
  Datad/Ops/Sections.lean
  =======================
  **What a locked section can do to the active transaction.**

  The engine has some twenty locked sections, but towards the transaction that
  holds the lock there are six things one of them can do: nothing, save it again,
  move it on while no write is open, take note that its write came back, end it,
  or accept a new one.  `Sect` is that list, with what each does to `pending.json`
  and to the journal; the theorems below put every section of `Datad.Ops.Engine`
  on it.  Everything later about runs of the engine rests on this list and not on
  the sections themselves.
-/
import Datad.Ops.World
import Datad.Ops.TxnInvariant

namespace Datad

/-! ### The trail of a section -/

/-- Effects on `pending.json`, and the lines that record the end of a transaction. -/
def Effect.onTrail : Effect → Bool
  | .save _ | .clear | .append (.txn _) => true
  | _ => false

def trail (fx : List Effect) : List Effect := fx.filter Effect.onTrail

@[simp] theorem trail_nil : trail [] = [] := rfl

@[simp] theorem trail_append (fx fx' : List Effect) :
    trail (fx ++ fx') = trail fx ++ trail fx' := List.filter_append ..

theorem mem_trail {fx : List Effect} {e : Effect} :
    e ∈ trail fx ↔ e ∈ fx ∧ e.onTrail = true := List.mem_filter

theorem trail_eq_nil {fx : List Effect} (h : ∀ e ∈ fx, e.onTrail = false) : trail fx = [] := by
  apply List.filter_eq_nil_iff.mpr
  intro e he
  rw [h e he]
  decide

/-- What a section does to the active transaction, with its trail.  `who` is the
    transaction whose write the section takes note of, `may` says whether the section
    ends a transaction even while its write is open, and `fresh` is the number a
    newly accepted one gets, if the section accepts one. -/
inductive Sect (who : Option String) (may : Bool) (fresh : Option Nat) :
    Option Txn → Option Txn → List Effect → Prop where
  | stay (a : Option Txn) : Sect who may fresh a a []
  | resave (t : Txn) : Sect who may fresh (some t) (some t) [.save t]
  | advance {t t' : Txn} {l : List Effect} (hi : t.intent = none)
      (hm : Ctl.Moves t.ctl t'.ctl) (hid : t'.ident = t.ident)
      (hf : t'.phase.isFinal = false)
      (hl : l = [.save t'] ∨ l = [] ∧ t'.ctl = t.ctl) : Sect who may fresh (some t) (some t') l
  | landed {t t' : Txn} (hw : who = some t.opId) (hs : Ctl.Step t.ctl t'.ctl)
      (hid : t'.ident = t.ident) (hf : t'.phase.isFinal = false) :
      Sect who may fresh (some t) (some t') [.save t']
  | close {t t' : Txn} {l : List Effect} (hm : Ctl.Moves t.ctl t'.ctl)
      (hid : t'.ident = t.ident) (hf : t'.phase.isFinal = true)
      (hc : t.intent = none ∨ may = true)
      (hl : l = [.append (.txn t'), .clear] ∨ l = [.clear, .append (.txn t'), .clear]) :
      Sect who may fresh (some t) none l
  | accept {a : Option Txn} {n : NewTxn} {now : Nat} (hu : fresh = some n.uid)
      (ho : ∀ t, a = some t → t.item = n.item ∧ (t.phase = .verifying ∨ t.phase = .rollingBack) ∧
        t.intent = none ∧ n.source.mayOverride = true) :
      Sect who may fresh a (some (Txn.new n now).beginApply)
        ((a.toList.map fun t => .append (.txn (t.cancel .superseded))) ++
          [.save (Txn.new n now).beginApply])

/-! ### The state between sections -/

/-- What holds of the engine's state whenever nobody is inside the lock. -/
structure St.Ok (st : St) : Prop where
  inv : ∀ t, st.active = some t → t.ctl.Inv
  open' : ∀ t, st.active = some t → t.phase.isFinal = false
  alone : st.active.isSome = true → st.session = none
  recent : ∀ t ∈ st.recent, t.phase.isFinal = true

theorem St.Ok.empty : St.Ok {} :=
  ⟨by simp, by simp, by simp, by simp⟩

/-- A section as a whole: what it does to the active transaction, and that it
    respects the session and the ended transactions. -/
structure Shift (who : Option String) (may : Bool) (fresh : Option Nat) (st st' : St)
    (fx : List Effect) : Prop where
  sect : Sect who may fresh st.active st'.active (trail fx)
  session : st'.session.isSome = true → st.session.isSome = true ∨ st'.active = none
  active : st'.active.isSome = true → st.active.isSome = true ∨ st'.session = none
  recent : ∀ t ∈ st'.recent, t ∈ st.recent ∨ t.phase.isFinal = true

namespace Sect

variable {who : Option String} {may : Bool} {fresh : Option Nat} {a a' : Option Txn}
  {l : List Effect}

theorem inv (h : Sect who may fresh a a' l) (ha : ∀ t, a = some t → t.ctl.Inv) :
    ∀ t, a' = some t → t.ctl.Inv := by
  intro t ht
  cases h with
  | stay => exact ha t ht
  | resave => exact ha t ht
  | advance hi hm hid hf hl =>
    rw [← Option.some.inj ht]
    exact (ha _ rfl).moves hm
  | landed hw hs hid hf =>
    rw [← Option.some.inj ht]
    exact (ha _ rfl).step hs
  | close => cases ht
  | accept hu ho =>
    rw [← Option.some.inj ht]
    exact Txn.started_inv _ _ true

theorem nonfinal (h : Sect who may fresh a a' l) (ha : ∀ t, a = some t → t.phase.isFinal = false) :
    ∀ t, a' = some t → t.phase.isFinal = false := by
  intro t ht
  cases h with
  | stay => exact ha t ht
  | resave => exact ha t ht
  | advance hi hm hid hf hl => rw [← Option.some.inj ht]; exact hf
  | landed hw hs hid hf => rw [← Option.some.inj ht]; exact hf
  | close => cases ht
  | accept hu ho => rw [← Option.some.inj ht]; rfl

end Sect

theorem St.Ok.shift {who : Option String} {may : Bool} {fresh : Option Nat} {st st' : St}
    {fx : List Effect} (h : st.Ok) (hs : Shift who may fresh st st' fx) : st'.Ok := by
  refine ⟨hs.sect.inv h.inv, hs.sect.nonfinal h.open', ?_, ?_⟩
  · intro ha
    rcases hs.active ha with h₁ | h₁
    · by_contra hne
      rcases hs.session (Option.isSome_iff_ne_none.mpr hne) with h₂ | h₂
      · rw [h.alone h₁] at h₂; cases h₂
      · rw [h₂] at ha; cases ha
    · exact h₁
  · intro t ht
    rcases hs.recent t ht with h₁ | h₁
    · exact h.recent t h₁
    · exact h₁

namespace Shift

variable {who : Option String} {may : Bool} {fresh : Option Nat} {st st₁ st' : St}
  {fx fx' : List Effect}

/-- A section that leaves the transactions alone. -/
theorem of_stay (ha : st'.active = st.active) (hs : st'.session.isSome = true →
      st.session.isSome = true ∨ st'.active = none)
    (hr : st'.recent = st.recent) (hfx : trail fx = []) : Shift who may fresh st st' fx := by
  refine ⟨?_, hs, ?_, ?_⟩
  · rw [hfx, ha]; exact .stay _
  · intro h; rw [ha] at h; exact .inl h
  · intro t ht; rw [hr] at ht; exact .inl ht

theorem refl (st : St) (hfx : trail fx = []) : Shift who may fresh st st fx :=
  of_stay rfl .inl rfl hfx

/-- A section that goes on with something that concerns no transaction. -/
theorem after (h : Shift who may fresh st st₁ fx) (ha : st'.active = st₁.active)
    (hs : st'.session = st₁.session) (hr : st'.recent = st₁.recent)
    (hfx : trail fx' = []) : Shift who may fresh st st' (fx ++ fx') := by
  constructor
  · rw [ha, trail_append, hfx, List.append_nil]; exact h.sect
  · rw [hs, ha]; exact h.session
  · rw [hs, ha]; exact h.active
  · rw [hr]; exact h.recent

end Shift

/-! ### Saving and ending -/

namespace St

@[simp] theorem setActive_active (st : St) (t : Txn) : (st.setActive t).active = some t := rfl
@[simp] theorem setActive_session (st : St) (t : Txn) : (st.setActive t).session = st.session := rfl
@[simp] theorem setActive_recent (st : St) (t : Txn) : (st.setActive t).recent = st.recent := rfl

theorem live_eq_some {st : St} {opId : String} {t : Txn} :
    st.live opId = some t ↔ st.active = some t ∧ t.opId = opId := by
  rw [live]
  rcases st.active with _ | a
  · simp
  · simp only [Option.some.injEq]
    split
    · rename_i h
      constructor
      · intro he; rw [← Option.some.inj he]; exact ⟨rfl, h⟩
      · rintro ⟨rfl, -⟩; rfl
    · rename_i h
      constructor
      · intro he; cases he
      · rintro ⟨rfl, ho⟩; exact absurd ho h

theorem persist_frame (st : St) (force : Bool) :
    (st.persist force).1.active = st.active ∧ (st.persist force).1.session = st.session ∧
      (st.persist force).1.recent = st.recent := by
  rw [persist]
  split
  · exact ⟨rfl, rfl, rfl⟩
  · split
    · exact ⟨rfl, rfl, rfl⟩
    · split <;> exact ⟨rfl, rfl, rfl⟩

theorem persist_trail_none {st : St} (ha : st.active = none) (force : Bool) :
    trail (st.persist force).2 = [] := by
  rw [persist]
  rw [ha]
  rfl

theorem persist_trail_final {st : St} {t : Txn} (ha : st.active = some t)
    (hf : t.phase.isFinal = true) (force : Bool) : trail (st.persist force).2 = [.clear] := by
  rw [persist]
  rw [ha]
  dsimp only
  rw [if_pos hf]
  rfl

theorem persist_trail {st : St} {t : Txn} (ha : st.active = some t)
    (hf : t.phase.isFinal = false) (force : Bool) :
    trail (st.persist force).2 = [.save t] ∨
      trail (st.persist force).2 = [] ∧ force = false := by
  rw [persist]
  rw [ha]
  dsimp only
  rw [if_neg (Bool.eq_false_iff.mp hf)]
  split
  · exact .inl rfl
  · rename_i h
    refine .inr ⟨rfl, ?_⟩
    cases force
    · rfl
    · exact absurd rfl h

theorem persist_trail_forced {st : St} {t : Txn} (ha : st.active = some t)
    (hf : t.phase.isFinal = false) : trail (st.persist true).2 = [.save t] := by
  rcases persist_trail ha hf true with h | ⟨-, h⟩
  · exact h
  · cases h

theorem mem_remember {st : St} {t u : Txn} (h : u ∈ (st.remember t).recent) :
    u ∈ st.recent ∨ u = t := by
  rw [remember] at h
  rcases List.mem_append.mp h with h | h
  · split at h
    · exact .inl (List.mem_of_mem_drop h)
    · exact .inl h
  · exact .inr (List.mem_singleton.mp h)

theorem retire_active {st : St} {t : Txn} (ha : st.active = some t) :
    (st.retire).1.active = none ∧ (st.retire).1.session = st.session ∧
      (∀ u ∈ (st.retire).1.recent, u ∈ st.recent ∨ u = t) ∧
      (st.retire).2 = [.append (.txn t), .saveLast ⟨t, false⟩] := by
  rw [retire]
  rw [ha]
  exact ⟨rfl, rfl, fun u hu => mem_remember hu, rfl⟩

theorem finish_open {st : St} (hf : ∀ t, st.active = some t → t.phase.isFinal = false) :
    st.finish = (st, []) := by
  rw [finish]
  rcases ha : st.active with _ | t
  · rfl
  · dsimp only
    rw [if_neg (Bool.eq_false_iff.mp (hf t ha))]

theorem finish_final {st : St} {t : Txn} (ha : st.active = some t)
    (hf : t.phase.isFinal = true) :
    st.finish = ((st.retire).1, (st.retire).2 ++ [.clear, .publish (st.retire).1]) := by
  rw [finish]
  rw [ha]
  dsimp only
  rw [if_pos hf]

end St

namespace Shift

variable {who : Option String} {may : Bool} {fresh : Option Nat} {st : St} {t t' : Txn}

/-- Put a final transaction in place and release the lock. -/
theorem finish_final (ha : st.active = some t) (hm : Ctl.Moves t.ctl t'.ctl)
    (hid : t'.ident = t.ident) (hf : t'.phase.isFinal = true)
    (hc : t.intent = none ∨ may = true) :
    Shift who may fresh st (st.setActive t').finish.1 (st.setActive t').finish.2 := by
  obtain ⟨hact, hses, hrec, hfx⟩ := St.retire_active (st.setActive_active t')
  rw [St.finish_final (st.setActive_active t') hf]
  constructor
  · rw [ha, hact, hfx]
    exact .close hm hid hf hc (.inl rfl)
  · intro _; exact .inr hact
  · intro h; rw [hact] at h; cases h
  · intro u hu
    rcases hrec u hu with h | h
    · exact .inl h
    · exact .inr (h ▸ hf)

/-- Put a transaction in place that is not final and save it. -/
theorem persist_open (ha : st.active = some t) (force : Bool)
    (hs : Sect who may fresh (some t) (some t') (trail ((st.setActive t').persist force).2)) :
    Shift who may fresh st ((st.setActive t').persist force).1
      ((st.setActive t').persist force).2 := by
  obtain ⟨hact, hses, hrec⟩ := (st.setActive t').persist_frame force
  constructor
  · rw [ha, hact]; exact hs
  · intro h; rw [hses] at h; exact .inl h
  · intro _; rw [ha]; exact .inl rfl
  · intro u hu; rw [hrec] at hu; exact .inl hu

/-- Save again whatever is active. -/
theorem persist_again (hst : st.Ok) :
    Shift who may fresh st (st.persist true).1 (st.persist true).2 := by
  obtain ⟨hact, hses, hrec⟩ := st.persist_frame true
  rcases ha : st.active with _ | t
  · refine of_stay hact ?_ hrec (St.persist_trail_none ha true)
    rw [hses]; exact .inl
  · have h := @persist_open who may fresh st t t ha true
    have hst' : st.setActive t = st := by
      unfold St.setActive; rw [← ha]
    rw [hst'] at h
    apply h
    rw [St.persist_trail_forced ha (hst.open' t ha)]
    exact .resave t

end Shift

/-! ### The sections -/

namespace Txn

/-- While a write is open, beats leave the transaction as it is. -/
theorem onReading_intent {t : Txn} (hf : t.phase.isFinal = false) (hi : t.intent ≠ none)
    (r : Reading) (now : Nat) : (t.onReading r now).1 = t := by
  have hg : (!t.waiting || t.intent.isSome) = true := by
    rw [Option.isSome_iff_ne_none.mpr hi, Bool.or_true]
  rw [onReading]
  rw [if_neg (Bool.eq_false_iff.mp hf), if_pos hg]

theorem onTick_intent {t : Txn} (hf : t.phase.isFinal = false) (hi : t.intent ≠ none)
    (now : Nat) : (t.onTick now).1 = t := by
  have hg : (!t.waiting || t.intent.isSome) = true := by
    rw [Option.isSome_iff_ne_none.mpr hi, Bool.or_true]
  rw [onTick]
  rw [if_neg (Bool.eq_false_iff.mp hf), if_pos hg]

/-- The result of the write moves the transaction, or it was not waiting for one. -/
theorem applied_step (t : Txn) (o : Applied) (now : Nat) :
    t.applied o now = t ∨
      Ctl.Step t.ctl (t.applied o now).ctl ∧ (t.applied o now).phase.isFinal = false := by
  rw [applied]
  split
  · exact .inl rfl
  · rename_i h
    exact .inr ⟨.written t.ctl (not_not.mp h), rfl⟩

theorem rollbackSent_step (t : Txn) (now : Nat) :
    t.rollbackSent now = t ∨
      Ctl.Step t.ctl (t.rollbackSent now).ctl ∧
        (t.rollbackSent now).phase.isFinal = false := by
  rw [rollbackSent]
  split
  · exact .inl rfl
  · rename_i h
    have hp : t.phase = .rollingBack := not_not.mp h
    refine .inr ⟨.sent t.ctl hp, ?_⟩
    show t.phase.isFinal = false
    rw [hp]; rfl

theorem revert_open {t t' : Txn} {n : Next} (h : t.revert = .ok (t', n)) :
    t.intent = none ∧ t'.phase.isFinal = false := by
  obtain ⟨-, hi, rfl⟩ := revert_eq h
  exact ⟨hi, rfl⟩

theorem keep_final {t t' : Txn} (h : t.keep = .ok t') :
    t.intent = none ∧ t'.phase.isFinal = true := by
  obtain ⟨-, hi, rfl⟩ := keep_eq h
  exact ⟨hi, rfl⟩

theorem cancel_final (t : Txn) (why : Reason) : (t.cancel why).phase.isFinal = true := by
  rw [cancel]
  split
  · rename_i h; exact h
  · rfl

end Txn

namespace St

variable {st : St} {may : Bool} {fresh : Option Nat} {opId : String}

theorem landed_shift (hst : st.Ok) {t t' : Txn} (hl : st.live opId = some t)
    (hid : t'.ident = t.ident)
    (hs : t' = t ∨ Ctl.Step t.ctl t'.ctl ∧ t'.phase.isFinal = false) :
    Shift (some opId) may fresh st ((st.setActive t').persist true).1
      ((st.setActive t').persist true).2 := by
  obtain ⟨ha, ho⟩ := live_eq_some.mp hl
  have hf : t'.phase.isFinal = false := by
    rcases hs with h | h
    · rw [h]; exact hst.open' t ha
    · exact h.2
  apply Shift.persist_open ha true
  rw [persist_trail_forced (st.setActive_active t') hf]
  rcases hs with h | h
  · rw [h]; exact .resave t
  · exact .landed (by rw [ho]) h.1 hid hf

theorem wrote_shift (hst : st.Ok) (result : Except WriteError Value) (now : Nat) :
    Shift (some opId) may fresh st (st.wrote opId result now).1 (st.wrote opId result now).2.1 := by
  rw [wrote]
  rcases hl : st.live opId with _ | t
  · exact Shift.persist_again hst
  · exact landed_shift hst hl (t.applied_moves _ now).2 (t.applied_step _ now)

theorem rollbackSent_shift (hst : st.Ok) (now : Nat) :
    Shift (some opId) may fresh st (st.rollbackSent opId now).1 (st.rollbackSent opId now).2 := by
  rw [rollbackSent]
  rcases hl : st.live opId with _ | t
  · exact .refl st rfl
  · exact landed_shift hst hl (t.rollbackSent_moves now).2 (t.rollbackSent_step now)

theorem cancel_shift {who : Option String} {t : Txn} (ha : st.active = some t) {why : Reason}
    (hw : why.cancels = true) :
    Shift who true fresh st (st.setActive (t.cancel why)).finish.1
      (st.setActive (t.cancel why)).finish.2 :=
  Shift.finish_final ha (t.cancel_moves hw).1 (t.cancel_moves hw).2 (t.cancel_final why) (.inr rfl)

theorem rollbackCheck_shift {who : Option String} (reading : Except String Reading) :
    Shift who true fresh st (st.rollbackCheck opId reading).1
      (st.rollbackCheck opId reading).2.1 := by
  rw [rollbackCheck]
  rcases hl : st.live opId with _ | t
  · exact .refl st rfl
  · dsimp only
    split
    · exact .refl st rfl
    · exact cancel_shift (live_eq_some.mp hl).1 rfl
    · exact .refl st rfl

/-- The beat of a transaction that is still the one it was taken for. -/
theorem beat_shift {who : Option String} (hst : st.Ok) {t t' : Txn} (ha : st.active = some t)
    (hm : Ctl.Moves t.ctl t'.ctl) (hid : t'.ident = t.ident)
    (hi : t.intent ≠ none → t' = t) {force : Bool}
    (hforce : force = false → t'.ctl = t.ctl) :
    Shift who may fresh st ((st.setActive t').persist force).1.finish.1
      (((st.setActive t').persist force).2 ++ ((st.setActive t').persist force).1.finish.2) := by
  obtain ⟨hact, hses, hrec⟩ := (st.setActive t').persist_frame force
  rcases hf : t'.phase.isFinal with _ | _
  · have hfin : ((st.setActive t').persist force).1.finish
        = (((st.setActive t').persist force).1, []) := by
      refine finish_open ?_
      intro u hu
      rw [hact] at hu
      rw [← Option.some.inj hu]; exact hf
    rw [hfin, List.append_nil]
    refine Shift.persist_open ha force ?_
    by_cases hn : t.intent = none
    · refine .advance hn hm hid hf ?_
      rcases persist_trail (st.setActive_active t') hf force with h | ⟨h, h'⟩
      · exact .inl h
      · exact .inr ⟨h, hforce h'⟩
    · rw [hi hn]
      rcases persist_trail (st.setActive_active t) (hst.open' t ha) force with h | ⟨h, -⟩
      · rw [h]; exact .resave t
      · rw [h]; exact .stay _
  · have hpers : (st.setActive t').persist force = (st.setActive t', [.clear]) := by
      rw [persist]
      rw [setActive_active]
      dsimp only
      rw [if_pos hf]
    have hc : t.intent = none := by
      by_contra hn
      rw [hi hn, hst.open' t ha] at hf
      cases hf
    obtain ⟨hs, h1, h2, h3⟩ := @Shift.finish_final who may fresh st t t' ha hm hid hf (.inl hc)
    rw [hpers]
    refine ⟨?_, h1, h2, h3⟩
    have hfin := finish_final (st.setActive_active t') hf
    obtain ⟨hact', -, -, hfx⟩ := retire_active (st.setActive_active t')
    dsimp only
    rw [ha, hfin, hact', hfx]
    exact .close hm hid hf (.inl hc) (.inr rfl)

theorem feed_shift {who : Option String} (hst : st.Ok) (generation : Nat)
    (reading : Option Reading) (now : Nat) :
    Shift who may fresh st (st.feed opId generation reading now).1
      (st.feed opId generation reading now).2 := by
  rw [feed]
  rcases hl : st.live opId with _ | t
  · exact .refl st rfl
  · dsimp only
    obtain ⟨ha, -⟩ := live_eq_some.mp hl
    have hf := hst.open' t ha
    split
    · exact .refl st rfl
    · rename_i hg
      have hg : t.generation = generation := not_not.mp hg
      have hforce : ∀ {t' : Txn}, Ctl.Moves t.ctl t'.ctl →
          decide (t'.generation ≠ generation) = false → t'.ctl = t.ctl := by
        intro t' hm hd
        apply hm.eq_of_generation
        have : t'.generation = generation := not_not.mp (of_decide_eq_false hd)
        exact this.trans hg.symm
      rcases reading with _ | r
      · exact beat_shift hst ha (t.onTick_moves now).1 (t.onTick_moves now).2
          (fun hi => Txn.onTick_intent hf hi now) (hforce (t.onTick_moves now).1)
      · exact beat_shift hst ha (t.onReading_moves r now).1 (t.onReading_moves r now).2
          (fun hi => Txn.onReading_intent hf hi r now) (hforce (t.onReading_moves r now).1)

theorem revert_shift {who : Option String} :
    Shift who may fresh st (st.revert opId).1 (st.revert opId).2.1 := by
  rw [revert]
  rcases hl : st.live opId with _ | t
  · exact .refl st rfl
  · dsimp only
    obtain ⟨ha, -⟩ := live_eq_some.mp hl
    rcases hr : t.revert with e | ⟨t', n⟩
    · exact .refl st rfl
    · obtain ⟨hm, hid⟩ := Txn.revert_moves hr
      obtain ⟨hi, hf⟩ := Txn.revert_open hr
      apply Shift.persist_open ha true
      rw [persist_trail_forced (st.setActive_active t') hf]
      exact .advance hi hm hid hf (.inl rfl)

theorem keep_shift {who : Option String} :
    Shift who may fresh st (st.keep opId).1 (st.keep opId).2.1 := by
  rw [keep]
  rcases hl : st.live opId with _ | t
  · exact .refl st rfl
  · dsimp only
    obtain ⟨ha, -⟩ := live_eq_some.mp hl
    rcases hk : t.keep with e | t'
    · exact .refl st rfl
    · obtain ⟨hm, hid⟩ := Txn.keep_moves hk
      exact Shift.finish_final ha hm hid (Txn.keep_final hk).2 (.inl (Txn.keep_final hk).1)

theorem cancelActive_shift {who : Option String} {why : Reason} (hw : why.cancels = true) :
    Shift who true fresh st (st.cancelActive why).1 (st.cancelActive why).2 := by
  rw [cancelActive]
  rcases ha : st.active with _ | t
  · exact .refl st rfl
  · exact cancel_shift ha hw

theorem cancelActive_active (st : St) (why : Reason) : (st.cancelActive why).1.active = none := by
  rw [cancelActive]
  rcases ha : st.active with _ | t
  · exact ha
  · dsimp only
    rw [finish_final rfl (t.cancel_final why)]
    exact (retire_active rfl).1

/-- Journal lines about legacy requests concern no transaction. -/
theorem trail_legacy (l : List LegacyReq) (result : String) (reason : Option String) :
    trail (l.map fun r => .append (.legacy r result reason)) = [] := by
  apply trail_eq_nil
  intro e he
  obtain ⟨r, -, rfl⟩ := List.mem_map.mp he
  rfl

theorem preempt_shift {who : Option String} : Shift who true fresh st st.preempt.1 st.preempt.2 :=
  (cancelActive_shift rfl).after rfl rfl rfl (trail_legacy _ _ _)

theorem otherWrite_shift {who : Option String} (source : Source) :
    Shift who source.isUser fresh st (st.otherWrite source).1 (st.otherWrite source).2.1 := by
  rw [otherWrite]
  rcases ha : st.active with _ | t
  · exact .refl st rfl
  · dsimp only
    split
    · exact .refl st rfl
    · rename_i hu
      rw [Bool.not_eq_true, Bool.not_eq_false'] at hu
      rw [hu]
      exact cancelActive_shift rfl

theorem interrupt_shift {who : Option String} (source : Source) (what : String) :
    Shift who true fresh st (st.interrupt source what).1 (st.interrupt source what).2.1 := by
  rw [interrupt]
  rcases ha : st.active with _ | t
  · exact .refl st rfl
  · exact (cancelActive_shift rfl).after rfl rfl rfl rfl

theorem legacyGate_shift {who : Option String} (item : Option String) (safety : Bool) :
    Shift who safety fresh st (st.legacyGate item safety).1 (st.legacyGate item safety).2.1 := by
  unfold legacyGate
  split
  · rename_i hs
    rw [hs]
    exact preempt_shift
  · rcases item with _ | item
    · exact .refl st rfl
    · dsimp only
      split
      · exact .refl st rfl
      · rcases ha : st.active with _ | t
        · exact .refl st rfl
        · dsimp only
          split
          · rename_i hg
            have hi : t.intent = none := by
              simpa using (Bool.and_eq_true_iff.mp hg).2
            unfold cancelActive
            rw [ha]
            exact Shift.finish_final ha (t.cancel_moves rfl).1 (t.cancel_moves rfl).2
              (t.cancel_final .superseded) (.inl hi)
          · exact .refl st rfl

theorem dropLegacy_shift {who : Option String} (why : String) :
    Shift who may fresh st (st.dropLegacy why).1 (st.dropLegacy why).2 :=
  .of_stay rfl .inl rfl (trail_legacy _ _ _)

theorem enqueueLegacy_shift {who : Option String} (item action : String) (params : Value)
    (now : Nat) :
    Shift who may fresh st (st.enqueueLegacy item action params now).1
      (st.enqueueLegacy item action params now).2 := by
  refine .of_stay rfl .inl rfl ?_
  rw [enqueueLegacy]
  rw [trail_append, trail_legacy]
  rfl

theorem popLegacy_shift {who : Option String} (cfg : Config) (now : Nat) :
    Shift who may fresh st (st.popLegacy cfg now).1 (st.popLegacy cfg now).2.1 := by
  rw [popLegacy]
  split
  · exact .refl st rfl
  · dsimp only
    split <;> exact .of_stay rfl .inl rfl (trail_legacy _ _ _)

theorem putBackLegacy_shift {who : Option String} (r : LegacyReq) :
    Shift who may fresh st (st.putBackLegacy r) [] := by
  rw [putBackLegacy]
  split
  · exact .refl st rfl
  · exact .of_stay rfl .inl rfl rfl

/-- Reaping touches nothing but the session, which it can only end. -/
theorem reapSession_frame (st : St) (now : Nat) :
    (st.reapSession now).1.active = st.active ∧ (st.reapSession now).1.recent = st.recent ∧
      trail (st.reapSession now).2 = [] ∧
      ((st.reapSession now).1.session = st.session ∨
        (st.reapSession now).1.session = none) := by
  rw [reapSession]
  rcases hs : st.session with _ | s
  · exact ⟨rfl, rfl, rfl, .inr hs⟩
  · dsimp only
    split
    · exact ⟨rfl, rfl, rfl, .inr rfl⟩
    · split
      · exact ⟨rfl, rfl, rfl, .inr rfl⟩
      · exact ⟨rfl, rfl, rfl, .inl hs⟩

/-- The session sections reap first; then they change the session only. -/
theorem session_shift {who : Option String} {st' : St} {fx : List Effect} (now : Nat)
    (ha : st'.active = (st.reapSession now).1.active)
    (hr : st'.recent = (st.reapSession now).1.recent)
    (hs : st'.session.isSome = true →
      (st.reapSession now).1.session.isSome = true ∨ st'.active = none)
    (hfx : trail fx = trail (st.reapSession now).2) : Shift who may fresh st st' fx := by
  obtain ⟨hact, hrec, htr, hses⟩ := st.reapSession_frame now
  refine .of_stay (ha.trans hact) ?_ (hr.trans hrec) (hfx.trans htr)
  intro h
  rcases hs h with h₁ | h₁
  · rcases hses with h₂ | h₂
    · rw [h₂] at h₁; exact .inl h₁
    · rw [h₂] at h₁; cases h₁
  · exact .inr h₁

theorem reapSession_shift {who : Option String} (now : Nat) :
    Shift who may fresh st (st.reapSession now).1 (st.reapSession now).2 :=
  session_shift now rfl rfl .inl rfl

theorem sessionOpen_shift {who : Option String} (source : Source) (id : String) (now : Nat) :
    Shift who may fresh st (st.sessionOpen source id now).1 (st.sessionOpen source id now).2.1 := by
  rw [sessionOpen]
  dsimp only
  split
  · exact session_shift now rfl rfl .inl rfl
  · split
    · exact session_shift now rfl rfl .inl rfl
    · rename_i ha
      refine session_shift now rfl rfl (fun _ => .inr ha) ?_
      rw [trail_append]
      exact List.append_nil _

theorem sessionRenew_shift {who : Option String} (id : String) (now : Nat) :
    Shift who may fresh st (st.sessionRenew id now).1 (st.sessionRenew id now).2.1 := by
  rw [sessionRenew]
  dsimp only
  split
  · rename_i s hs
    split
    · exact session_shift now rfl rfl (fun _ => .inl (by rw [hs]; rfl)) rfl
    · exact session_shift now rfl rfl .inl rfl
  · exact session_shift now rfl rfl .inl rfl

theorem sessionClose_shift {who : Option String} (id : String) (result : Option String)
    (now : Nat) :
    Shift who may fresh st (st.sessionClose id result now).1
      (st.sessionClose id result now).2.1 := by
  rw [sessionClose]
  dsimp only
  split
  · split
    · refine session_shift now rfl rfl (fun h => by cases h) ?_
      rw [trail_append]
      exact List.append_nil _
    · exact session_shift now rfl rfl .inl rfl
  · exact session_shift now rfl rfl .inl rfl

theorem sessionGate_shift {who : Option String} (action : String) (session : Option String)
    (now : Nat) :
    Shift who may fresh st (st.sessionGate action session now).1
      (st.sessionGate action session now).2.1 := by
  rw [sessionGate]
  dsimp only
  split
  · rename_i s hs
    split
    · exact session_shift now rfl rfl (fun _ => .inl (by rw [hs]; rfl)) rfl
    · split <;> exact session_shift now rfl rfl .inl rfl
  · split <;> exact session_shift now rfl rfl .inl rfl

theorem ack_shift {who : Option String} (source : Source) :
    Shift who may fresh st (st.ack opId source).1 (st.ack opId source).2.1 := by
  rw [ack]
  rcases hl : st.last with _ | l
  · exact .refl st rfl
  · dsimp only
    split
    · exact .refl st rfl
    · split
      · exact .refl st rfl
      · exact .of_stay rfl .inl rfl rfl

theorem noticeAck_shift {who : Option String} (source : Source) :
    Shift who may fresh st (st.noticeAck source).1 (st.noticeAck source).2 := by
  rw [noticeAck]
  split
  · exact .refl st rfl
  · exact .of_stay rfl .inl rfl rfl

/-! ### Acceptance -/

variable {uid : Nat}

theorem overridable_iff (t : Txn) (req : Request) :
    overridable t req = true ↔ t.item = req.spec.item ∧ req.source.mayOverride = true ∧
      (t.phase = .verifying ∨ t.phase = .rollingBack) ∧ t.intent = none := by
  simp only [overridable, Bool.and_eq_true, Bool.or_eq_true, decide_eq_true_eq,
    Option.isNone_iff_eq_none, and_assoc]

/-- What `submit` has checked when it goes on. -/
theorem refuse_none {req : Request} (h : st.refuse req opId = none) :
    st.find opId = none ∧ st.session = none ∧
      ∀ t, st.active = some t → overridable t req = true := by
  rw [refuse] at h
  split at h
  · cases h
  · rename_i hfind
    split at h
    · cases h
    · rename_i hses
      refine ⟨hfind, hses, ?_⟩
      intro t ht
      rw [ht] at h
      dsimp only at h
      split at h
      · rename_i ho; exact ho
      · cases h

theorem supersede_frame (st : St) :
    st.supersede.1.active = none ∧ st.supersede.1.session = st.session ∧
      (∀ t ∈ st.supersede.1.recent, t ∈ st.recent ∨ t.phase.isFinal = true) ∧
      trail st.supersede.2 =
        st.active.toList.map fun t => .append (.txn (t.cancel .superseded)) := by
  rw [supersede]
  rcases ha : st.active with _ | t
  · exact ⟨ha, rfl, fun t => .inl, rfl⟩
  · have hf := t.cancel_final .superseded
    obtain ⟨hact, hses, hrec, hfx⟩ := retire_active (st.setActive_active (t.cancel .superseded))
    dsimp only
    refine ⟨hact, hses, ?_, ?_⟩
    · intro u hu
      rcases hrec u hu with h | h
      · exact .inl h
      · exact .inr (h ▸ hf)
    · rw [hfx]; rfl

/-- The transaction `accept` puts in place. -/
def acceptedTxn (cfg : Config) (st : St) (req : Request) (opId : String) (uid : Nat)
    (c : Capture) (bootId : String) (now : Nat) : Txn :=
  (Txn.new (st.newTxn cfg req opId uid c bootId) now).beginApply

theorem accept_active (cfg : Config) (req : Request) (c : Capture) (bootId : String) (now : Nat) :
    (st.accept cfg req opId uid c bootId now).1.active =
      some (st.acceptedTxn cfg req opId uid c bootId now) :=
  ((st.supersede.1.setActive (st.acceptedTxn cfg req opId uid c bootId now)).persist_frame true).1

theorem accept_trail (cfg : Config) (req : Request) (c : Capture) (bootId : String) (now : Nat) :
    trail (st.accept cfg req opId uid c bootId now).2 =
      (st.active.toList.map fun t => .append (.txn (t.cancel .superseded))) ++
        [.save (st.acceptedTxn cfg req opId uid c bootId now)] := by
  obtain ⟨-, -, -, htr⟩ := st.supersede_frame
  rw [← htr, ← persist_trail_forced
    (st.supersede.1.setActive_active (st.acceptedTxn cfg req opId uid c bootId now)) rfl,
    ← trail_append]
  rfl

theorem accept_shift {who : Option String} (cfg : Config) {req : Request} (c : Capture)
    (bootId : String) (now : Nat) (h : st.refuse req opId = none) :
    Shift who may (some uid) st (st.accept cfg req opId uid c bootId now).1
      (st.accept cfg req opId uid c bootId now).2 := by
  obtain ⟨-, hses, hov⟩ := refuse_none h
  obtain ⟨hact, hses', hrec, -⟩ := st.supersede_frame
  obtain ⟨hact₁, hses₁, hrec₁⟩ :=
    (st.supersede.1.setActive (st.acceptedTxn cfg req opId uid c bootId now)).persist_frame true
  have hsession : (st.accept cfg req opId uid c bootId now).1.session = none :=
    (hses₁.trans hses').trans hses
  refine ⟨?_, ?_, fun _ => .inr hsession, ?_⟩
  · rw [accept_active, accept_trail]
    refine .accept rfl ?_
    intro t ht
    obtain ⟨h1, h2, h3, h4⟩ := (overridable_iff t req).mp (hov t ht)
    exact ⟨h1, h3, h4, h2⟩
  · intro hs; rw [hsession] at hs; cases hs
  · intro t ht
    exact hrec t (hrec₁ ▸ ht)

end St

/-! ### Turns -/

/-- The transaction whose write a turn of this task takes note of. -/
def Task.lands : Task → Option String
  | .submitBack _ opId _ _ | .rollbackWait opId _ | .rollbackSkip opId _ => some opId
  | _ => none

/-- The turns that end a transaction although its write is open. -/
def Task.cancels : Task → Bool
  | .rollbackRead .. => true
  | _ => false

def Call.cancels : Call → Bool
  | .preempt | .interrupt .. => true
  | .otherWrite source => source.isUser
  | .legacyGate _ safety => safety
  | _ => false

/-- The number of the transaction accepted in a turn, if one is. -/
def Turn.fresh (turn : Turn) (uid : Nat) : Option Nat :=
  match turn.accepted with
  | 0 => none
  | _ + 1 => some uid

theorem Turn.fresh_eq_some {turn : Turn} {n m : Nat} (h : turn.fresh n = some m) :
    m = n ∧ 0 < turn.accepted := by
  rw [Turn.fresh] at h
  split at h
  · cases h
  · rename_i hacc
    exact ⟨(Option.some.inj h).symm, by omega⟩

/-- **Every turn of a task is one of the six things a section can do.** -/
theorem Task.turn_shift (cfg : Config) (bootId : String) (uid : Nat) {st : St} (hst : st.Ok)
    (draining : Bool) (i : Input) (task : Task) :
    Shift task.lands task.cancels ((task.turn cfg bootId uid st draining i).fresh uid) st
      (task.turn cfg bootId uid st draining i).st
      (task.turn cfg bootId uid st draining i).fx := by
  cases task with
  | submit req opId =>
    simp only [Task.turn]
    split <;> exact .refl st rfl
  | submitRead req opId =>
    simp only [Task.turn]
    split
    · exact .refl st rfl
    · split
      · exact .refl st rfl
      · rename_i h
        exact St.accept_shift cfg _ bootId i.now h
  | submitWrite req opId u => exact .refl st rfl
  | submitWait req opId u =>
    have howner : ∀ reached : Bool, trail (if reached then
        [Effect.setOwner req.spec.item req.source req.undo req.target opId] else []) = [] := by
      intro reached; cases reached <;> rfl
    exact .refl st (howner _)
  | submitBack req opId u result => exact St.wrote_shift hst result i.now
  | drive opId =>
    simp only [Task.turn]
    split
    · exact .refl st rfl
    · split <;> exact .refl st rfl
  | rollback opId u value generation spec =>
    simp only [Task.turn]
    split
    · exact .refl st rfl
    · exact .persist_again hst
  | rollbackRead opId u value generation spec =>
    have h := @St.rollbackCheck_shift st none opId none i.reading
    simp only [Task.turn]
    split <;> exact h
  | rollbackWrite opId u value => exact .refl st rfl
  | rollbackWait opId u => exact St.rollbackSent_shift hst i.now
  | rollbackSkip opId u => exact St.rollbackSent_shift hst i.now
  | sleep opId generation spec => exact .refl st rfl
  | read opId generation spec =>
    simp only [Task.turn]
    split
    · split
      · exact .refl st rfl
      · split <;> exact .refl st rfl
    · exact .refl st rfl
  | probe opId generation reading => exact .refl st rfl
  | feed opId generation reading =>
    simp only [Task.turn]
    split
    · exact .refl st rfl
    · exact St.feed_shift hst generation reading i.now
  | kick => exact .refl st rfl
  | drain =>
    have h := @St.popLegacy_shift st false none none cfg i.now
    simp only [Task.turn]
    split <;> exact h
  | drainRun r =>
    simp only [Task.turn]
    split <;> exact .refl st rfl
  | drainBack r => exact St.putBackLegacy_shift r
  | drainLower => exact .refl st rfl
  | drainMore => exact .refl st rfl
  | drainRetry => exact .refl st rfl
  | timer id => exact St.reapSession_shift i.now

theorem Call.turn_shift (st : St) (draining : Bool) (c : Call) :
    Shift none c.cancels none st (c.turn st draining).st (c.turn st draining).fx := by
  cases c with
  | revert opId => exact St.revert_shift
  | keep opId => exact St.keep_shift
  | preempt => exact St.preempt_shift
  | otherWrite source => exact St.otherWrite_shift source
  | interrupt source what => exact St.interrupt_shift source what
  | legacyGate item safety => exact St.legacyGate_shift item safety
  | enqueueLegacy item action params now => exact St.enqueueLegacy_shift item action params now
  | clearLegacy why => exact St.dropLegacy_shift why
  | sessionOpen source id now => exact St.sessionOpen_shift source id now
  | sessionRenew id now => exact St.sessionRenew_shift id now
  | sessionClose id result now => exact St.sessionClose_shift id result now
  | sessionGate action session now => exact St.sessionGate_shift action session now
  | ack opId source => exact St.ack_shift source
  | noticeAck source => exact St.noticeAck_shift source
  | publishNow => exact .refl st rfl

end Datad
