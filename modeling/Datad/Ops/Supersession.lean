/-
  Datad/Ops/Supersession.lean
  ===========================
  **Chains of overriding changes.**

  A user may override a change before it is confirmed, and override that one again.
  Each new transaction takes over the rollback target of the one it supersedes, so
  that a rollback restores the value from before the first of them, which is the last
  one known to work, and not an unconfirmed value in between.

  The observer keeps a chronicle of the accepted transactions and of what each of them
  superseded.  A transaction counts as accepted once it is saved: a process that dies
  before that has not accepted it.
-/
import Datad.Ops.WriteAhead
import Datad.Ops.Turns
import Datad.Lib.Ghost
import Mathlib.Data.List.Chain

namespace Datad

open Transition

/-- A transaction as it was accepted, and the one that was active before. -/
structure Acceptance where
  txn : Txn
  superseded : Option Txn
deriving DecidableEq

/-- What a turn accepts. -/
def Turn.news (turn : Turn) (before : Option Txn) : List Acceptance :=
  if turn.accepted = 0 then [] else turn.st.active.toList.map fun t => ⟨t, before⟩

def chronicle (cfg : Config) (w : World) (a : Act) (_ : World) (hist : List Acceptance) :
    List Acceptance :=
  hist ++
    match a with
    | .task key i =>
        match w.tasks key with
        | some T => (w.turnOf cfg T i).news w.st.active
        | none => []
    | .crashTask key i n =>
        match w.tasks key with
        | some T =>
            ((w.turnOf cfg T i).news w.st.active).filter fun e =>
              decide (.save e.txn ∈ (w.turnOf cfg T i).fx.take n)
        | none => []
    | _ => []

/-- The second was accepted by a `submit` that superseded the first. -/
def Supersedes (e e' : Acceptance) : Prop := ∃ t, e'.superseded = some t ∧ t.uid = e.txn.uid

/-- The end of this transaction as superseded stands in the log. -/
def EndedSuperseded (l : List Event) (u : Nat) : Prop :=
  ∃ t : Txn, .fx (.append (.txn t)) ∈ l ∧ t.uid = u ∧ t.phase = .cancelled ∧
    t.reason = some .superseded

theorem EndedSuperseded.append {l : List Event} {u : Nat} (h : EndedSuperseded l u)
    (l' : List Event) : EndedSuperseded (l ++ l') u := by
  obtain ⟨t, hm, hu, hp, hr⟩ := h
  exact ⟨t, List.mem_append_left _ hm, hu, hp, hr⟩

/-- The overridden transaction ends in the section that accepts the new one. -/
theorem EndedSuperseded.of_trail {l : List Event} {a : Option Txn} {fx : List Effect} {t t' : Txn}
    (htr : trail fx = (a.toList.map fun t => .append (.txn (t.cancel .superseded))) ++ [.save t'])
    (ht : a = some t) (hf : t.phase.isFinal = false) (hl : ∀ e, e ∈ fx → .fx e ∈ l) :
    EndedSuperseded l t.uid := by
  have hw : Reason.superseded.cancels = true := rfl
  have hcancel : t.cancel .superseded = (t.finish .cancelled .superseded).1 := by
    rw [Txn.cancel, if_neg (Bool.eq_false_iff.mp hf)]
  refine ⟨t.cancel .superseded, hl _ (mem_trail.mp ?_).1,
    congrArg Txn.Ident.uid (t.cancel_moves hw).2, ?_, ?_⟩
  · rw [htr, ht]
    exact List.mem_cons_self
  · rw [hcancel]
    rfl
  · rw [hcancel]
    rfl

/-- A superseded transaction hands on its rollback target. -/
theorem St.acceptedTxn_rollbackTo (cfg : Config) (st : St) (req : Request) (opId : String)
    (uid : Nat) (c : Capture) (bootId : String) (now : Nat) :
    (st.acceptedTxn cfg req opId uid c bootId now).rollbackTo =
      (st.active.map Txn.rollbackTo).getD c.old := by
  rcases ha : st.active with _ | t
  · simp only [acceptedTxn, newTxn, Txn.new, Txn.beginApply, ha]
    rfl
  · simp only [acceptedTxn, newTxn, Txn.new, Txn.beginApply, ha]
    rfl

namespace World

/-- The chronicle accounts for what is active, saved and about to be written. -/
structure Chronicled (w : World) (hist : List Acceptance) : Prop where
  issued : ∀ {e}, e ∈ hist → e.txn.uid < w.nextUid
  uniq : ∀ {e e'}, e ∈ hist → e' ∈ hist → e.txn.uid = e'.txn.uid → e = e'
  active : ∀ {t}, w.st.active = some t → ∃ e ∈ hist, e.txn.ident = t.ident
  pending : ∀ {p}, w.disk.pending = some p → ∃ e ∈ hist, e.txn.ident = p.ident
  first : ∀ {e}, e ∈ hist → e.superseded = none → e.txn.rollbackTo = e.txn.old
  superseded : ∀ {e t}, e ∈ hist → e.superseded = some t → e.txn.rollbackTo = t.rollbackTo ∧
    ∃ e' ∈ hist, e'.txn.ident = t.ident
  ended : ∀ {e t}, e ∈ hist → e.superseded = some t → EndedSuperseded w.log t.uid
  gone : ∀ {e t}, e ∈ hist → e.superseded = some t → t.uid < w.nextUid ∧
    (∀ a, w.st.active = some a → a.uid ≠ t.uid) ∧ ∀ p, w.disk.pending = some p → p.uid ≠ t.uid
  ahead : ∀ {k u v}, aheadOf (w.tasks k) = some (u, .rollback, v) →
    ∃ e ∈ hist, e.txn.uid = u ∧ e.txn.rollbackTo = v
  wrote : ∀ {u v}, .write u .rollback v ∈ w.log →
    ∃ e ∈ hist, e.txn.uid = u ∧ e.txn.rollbackTo = v

theorem Chronicled.empty : Chronicled {} [] :=
  ⟨fun h => (by cases h), fun h => (by cases h), fun h => (by cases h), fun h => (by cases h),
    fun h => (by cases h), fun h => (by cases h), fun h => (by cases h), fun h => (by cases h),
    fun h => (by cases h), fun h => (by cases h)⟩

/-- What an accepting turn adds to the chronicle. -/
theorem Turned.news {cfg : Config} {w : World} {key : Nat} {T : Task} {turn : Turn}
    (g : Turned cfg w key T turn) :
    (turn.accepted = 0 ∧ turn.news w.st.active = []) ∨
      ∃ t', turn.st.active = some t' ∧ turn.news w.st.active = [⟨t', w.st.active⟩] ∧
        t'.uid = w.nextUid ∧ turn.accepted = 1 ∧
        (w.st.active = none → t'.rollbackTo = t'.old) ∧
        (∀ t, w.st.active = some t → t'.rollbackTo = t.rollbackTo) ∧
        trail turn.fx = (w.st.active.toList.map fun t => .append (.txn (t.cancel .superseded))) ++
          [.save t'] := by
  by_cases hacc : turn.accepted = 0
  · exact .inl ⟨hacc, if_pos hacc⟩
  · obtain ⟨req, x, c, now, hT, href, hst, hfx⟩ := g.accepts hacc
    have ht' : turn.st.active = some (w.st.acceptedTxn cfg req x w.nextUid c w.bootId now) := by
      rw [hst, St.accept_active]
    have hone : turn.accepted = 1 := by
      cases g.passes with
      | on h0 => exact absurd h0 hacc
      | accept h1 => exact h1
      | decide h0 => exact absurd h0 hacc
      | send h0 => exact absurd h0 hacc
    refine .inr ⟨_, ht', ?_, rfl, hone, ?_, ?_, ?_⟩
    · rw [Turn.news, if_neg hacc, ht']
      rfl
    · intro hnone
      rw [St.acceptedTxn_rollbackTo, hnone]
      rfl
    · intro t ht
      rw [St.acceptedTxn_rollbackTo, ht]
      rfl
    · rw [hfx]
      exact St.accept_trail ..

/-- The transaction was known before the step, and the step accepts none, or the step
    accepts it. -/
def Traced (w : World) (new : List Acceptance) (t : Txn) : Prop :=
  (new = [] ∧ ∃ t₀, (w.st.active = some t₀ ∨ w.disk.pending = some t₀) ∧ t.ident = t₀.ident) ∨
    ∃ e ∈ new, e.txn = t

/-- What a step has to show to keep the chronicle. -/
structure Writes (w w' : World) (new : List Acceptance) : Prop where
  grows : w.nextUid ≤ w'.nextUid
  fresh : ∀ {e}, e ∈ new → new = [e] ∧ e.superseded = w.st.active ∧ e.txn.uid = w.nextUid ∧
    w.nextUid < w'.nextUid ∧ (w.st.active = none → e.txn.rollbackTo = e.txn.old) ∧
    ∀ t, w.st.active = some t → e.txn.rollbackTo = t.rollbackTo ∧ EndedSuperseded w'.log t.uid
  ended : ∀ {u}, EndedSuperseded w.log u → EndedSuperseded w'.log u
  active : ∀ {t}, w'.st.active = some t → Traced w new t
  pending : ∀ {p}, w'.disk.pending = some p → Traced w new p
  ahead : ∀ {k u v}, aheadOf (w'.tasks k) = some (u, .rollback, v) →
    (∃ k', aheadOf (w.tasks k') = some (u, .rollback, v)) ∨
      ∃ t, w.st.active = some t ∧ t.uid = u ∧ t.rollbackTo = v
  wrote : ∀ {u v}, .write u .rollback v ∈ w'.log → .write u .rollback v ∈ w.log ∨
    ∃ k, aheadOf (w.tasks k) = some (u, .rollback, v)

namespace Chronicled

variable {w w' : World} {hist new : List Acceptance}

theorem known (h : w.Chronicled hist) {t : Txn}
    (ht : w.st.active = some t ∨ w.disk.pending = some t) :
    ∃ e ∈ hist, e.txn.ident = t.ident := by
  rcases ht with ht | ht
  · exact h.active ht
  · exact h.pending ht

theorem traced (h : w.Chronicled hist) {t : Txn} (ht : w.Traced new t) :
    ∃ e ∈ hist ++ new, e.txn.ident = t.ident := by
  rcases ht with ⟨-, t₀, ht₀, hid⟩ | ⟨e, he, rfl⟩
  · obtain ⟨e, he, heq⟩ := h.known ht₀
    exact ⟨e, List.mem_append_left _ he, heq.trans hid.symm⟩
  · exact ⟨e, List.mem_append_right _ he, rfl⟩

/-- A superseded transaction does not come back. -/
theorem traced_gone (h : w.Chronicled hist) (hw : Writes w w' new) {e : Acceptance} {t a : Txn}
    (he : e ∈ hist ++ new) (ho : e.superseded = some t) (ha : w.Traced new a) : a.uid ≠ t.uid := by
  rcases List.mem_append.mp he with he | he
  · obtain ⟨hlt, hact, hpend⟩ := h.gone he ho
    rcases ha with ⟨-, t₀, ht₀, hid⟩ | ⟨e', he', rfl⟩
    · have huid : a.uid = t₀.uid := congrArg Txn.Ident.uid hid
      rw [huid]
      rcases ht₀ with ht₀ | ht₀
      · exact hact t₀ ht₀
      · exact hpend t₀ ht₀
    · obtain ⟨-, -, huid, -⟩ := hw.fresh he'
      omega
  · obtain ⟨hone, hover, huid, -⟩ := hw.fresh he
    have hlt : t.uid < w.nextUid := by
      rw [ho] at hover
      obtain ⟨e₀, he₀, hid⟩ := h.active hover.symm
      have := h.issued he₀
      have : e₀.txn.uid = t.uid := congrArg Txn.Ident.uid hid
      omega
    rcases ha with ⟨hnil, -⟩ | ⟨e', he', rfl⟩
    · rw [hnil] at he; cases he
    · obtain ⟨-, -, huid', -⟩ := hw.fresh he'
      omega

theorem source (h : w.Chronicled hist) {u : Nat} {v : String}
    (ha : (∃ k, aheadOf (w.tasks k) = some (u, .rollback, v)) ∨
      ∃ t, w.st.active = some t ∧ t.uid = u ∧ t.rollbackTo = v) :
    ∃ e ∈ hist ++ new, e.txn.uid = u ∧ e.txn.rollbackTo = v := by
  rcases ha with ⟨k, hk⟩ | ⟨t, ht, hu, hv⟩
  · obtain ⟨e, he, hu, hv⟩ := h.ahead hk
    exact ⟨e, List.mem_append_left _ he, hu, hv⟩
  · obtain ⟨e, he, hid⟩ := h.active ht
    refine ⟨e, List.mem_append_left _ he, ?_, ?_⟩
    · exact (congrArg Txn.Ident.uid hid).trans hu
    · exact (congrArg Txn.Ident.rollbackTo hid).trans hv

/-- **A step that writes the chronicle keeps it.** -/
theorem kept (h : w.Chronicled hist) (hw : Writes w w' new) : w'.Chronicled (hist ++ new) := by
  constructor
  · intro e he
    rcases List.mem_append.mp he with he | he
    · exact Nat.lt_of_lt_of_le (h.issued he) hw.grows
    · obtain ⟨-, -, huid, hlt, -⟩ := hw.fresh he
      omega
  · intro e e' he he' huid
    rcases List.mem_append.mp he with he | he
    · rcases List.mem_append.mp he' with he' | he'
      · exact h.uniq he he' huid
      · have := h.issued he
        obtain ⟨-, -, hu', -⟩ := hw.fresh he'
        omega
    · obtain ⟨hone, -, hu, -⟩ := hw.fresh he
      rcases List.mem_append.mp he' with he' | he'
      · have := h.issued he'
        omega
      · rw [hone] at he'
        exact (List.mem_singleton.mp he').symm
  · exact fun ht => h.traced (hw.active ht)
  · exact fun hp => h.traced (hw.pending hp)
  · intro e he ho
    rcases List.mem_append.mp he with he | he
    · exact h.first he ho
    · obtain ⟨-, hover, -, -, hfirst, -⟩ := hw.fresh he
      exact hfirst (hover.symm.trans ho)
  · intro e t he ho
    rcases List.mem_append.mp he with he | he
    · obtain ⟨hr, e', he', hid⟩ := h.superseded he ho
      exact ⟨hr, e', List.mem_append_left _ he', hid⟩
    · obtain ⟨-, hover, -, -, -, hsup⟩ := hw.fresh he
      have hact := hover.symm.trans ho
      obtain ⟨e', he', hid⟩ := h.active hact
      exact ⟨(hsup t hact).1, e', List.mem_append_left _ he', hid⟩
  · intro e t he ho
    rcases List.mem_append.mp he with he | he
    · exact hw.ended (h.ended he ho)
    · obtain ⟨-, hover, -, -, -, hsup⟩ := hw.fresh he
      exact (hsup t (hover.symm.trans ho)).2
  · intro e t he ho
    refine ⟨?_, fun a ha => h.traced_gone hw he ho (hw.active ha),
      fun p hp => h.traced_gone hw he ho (hw.pending hp)⟩
    rcases List.mem_append.mp he with he | he
    · exact Nat.lt_of_lt_of_le (h.gone he ho).1 hw.grows
    · obtain ⟨-, hover, -, -, -, -⟩ := hw.fresh he
      obtain ⟨e₀, he₀, hid⟩ := h.active (hover.symm.trans ho)
      have := h.issued he₀
      have : e₀.txn.uid = t.uid := congrArg Txn.Ident.uid hid
      have := hw.grows
      omega
  · exact fun hk => h.source (hw.ahead hk)
  · intro u v hm
    rcases hw.wrote hm with hm | hk
    · obtain ⟨e, he, hu, hv⟩ := h.wrote hm
      exact ⟨e, List.mem_append_left _ he, hu, hv⟩
    · exact h.source (.inl hk)

end Chronicled

/-! ### Steps -/

theorem Writes.turn {cfg : Config} {w : World} {key : Nat} {T : Task} {turn : Turn}
    (hok : w.Ok) (hok' : (w.take key turn).Ok) (hup : w.up = true)
    (g : Turned cfg w key T turn) :
    Writes w (w.take key turn) (turn.news w.st.active) := by
  obtain ⟨who, may, hs⟩ := g.shift
  have hactive : ∀ {t}, turn.st.active = some t → w.Traced (turn.news w.st.active) t := by
    intro t ht
    rcases g.news with ⟨hacc, hnil⟩ | ⟨t', ht', hnews, -⟩
    · refine .inl ⟨hnil, ?_⟩
      rcases hs.sect.source ht with ⟨t₀, ht₀, hid⟩ | hfresh
      · exact ⟨t₀, .inl ht₀, hid⟩
      · have := (Turn.fresh_eq_some hfresh).2
        omega
    · refine .inr ⟨⟨t', w.st.active⟩, ?_, Option.some.inj (ht'.symm.trans ht)⟩
      rw [hnews]
      exact List.mem_singleton.mpr rfl
  constructor
  · exact Nat.le_add_right ..
  · intro e he
    rcases g.news with ⟨-, hnil⟩ | ⟨t', ht', hnews, hu, hacc, hfirst, hover, htr⟩
    · rw [hnil] at he; cases he
    · rw [hnews] at he
      rw [List.mem_singleton.mp he]
      refine ⟨hnews, rfl, hu, ?_, hfirst, ?_⟩
      · show w.nextUid < w.nextUid + turn.accepted
        omega
      · intro t ht
        refine ⟨hover t ht, .of_trail htr ht (hok.st.open' t ht) ?_⟩
        exact fun e hm => (mem_take_fx g.events).mpr (.inr hm)
  · exact fun h => h.append _
  · exact hactive
  · intro p hp
    obtain ⟨t, hact, -, hid, he⟩ := (hok'.mirror hup).active hp
    rcases hactive hact with ⟨hnil, t₀, ht₀, hid₀⟩ | ⟨e, he', rfl⟩
    · exact .inl ⟨hnil, t₀, ht₀, hid.trans hid₀⟩
    · -- a transaction just accepted has its write ahead and is in the file as it is
      refine .inr ⟨e, he', (he ?_).symm⟩
      rcases g.news with ⟨-, hnil⟩ | ⟨t', ht', hnews, -, hacc, -⟩
      · rw [hnil] at he'; cases he'
      · cases g.passes with
        | on h0 => omega
        | accept _ _ _ _ ht₁ _ _ hi =>
          have heq := Option.some.inj (ht₁.symm.trans hact)
          rw [← heq, hi]
          exact nofun
        | decide h0 => omega
        | send h0 => omega
  · intro k u v hk
    by_cases hkey : k = key
    · rw [hkey, Goes.at_key] at hk
      cases g.passes with
      | on hacc hw ho ha hl hk' he => exact .inl ⟨key, g.ahead.trans (ha _ hk)⟩
      | accept hacc hT hT' he ht' hu hx hi hv => rw [hT'] at hk; cases hk
      | decide hacc hst hT hT' he ht hi =>
        rw [hT'] at hk
        cases hk
        exact .inr ⟨_, ht, rfl, rfl⟩
      | send hacc hst ha ha' ho hw hl hs he => rw [ha'] at hk; cases hk
    · rw [Goes.at_other hkey] at hk
      exact .inl ⟨k, hk⟩
  · intro u v hm
    rcases Goes.mem_log.mp hm with hm | hm
    · exact .inl hm
    · exact .inr ⟨key, (g.write_owed hm).1⟩

/-- The process dies: what it saved was known, or is accepted. -/
theorem Writes.die {w : World} {fx : List Effect} {n : Nat} {new : List Acceptance}
    (hfresh : ∀ {e}, e ∈ new → new = [e] ∧ e.superseded = w.st.active ∧
      e.txn.uid = w.nextUid ∧ 0 < n ∧ (w.st.active = none → e.txn.rollbackTo = e.txn.old) ∧
      ∀ t, w.st.active = some t → e.txn.rollbackTo = t.rollbackTo ∧
        EndedSuperseded (w.die fx n).log t.uid)
    (hpend : ∀ {p}, pendingAfter w.disk.pending (trail fx) = some p → w.Traced new p) :
    Writes w (w.die fx n) new := by
  constructor
  · exact Nat.le_add_right ..
  · intro e he
    obtain ⟨hone, hover, hu, hn, hrest⟩ := hfresh he
    exact ⟨hone, hover, hu, Nat.lt_add_of_pos_right hn, hrest⟩
  · exact fun h => h.append _
  · exact fun h => (by cases h)
  · intro p hp
    have hp : (w.disk.applyAll fx).pending = some p := hp
    rw [Disk.applyAll_pending] at hp
    exact hpend hp
  · exact fun h => (by cases h)
  · intro u v hm
    have hm : .write u .rollback v ∈ w.log ++ fx.map Event.fx := hm
    exact .inl (by simpa using hm)

/-- A death in a section that accepts nothing. -/
theorem Writes.dieQuiet {w : World} {who : Option String} {may : Bool} {st : St}
    {fx fx' : List Effect} (hs : Shift who may none w.st st fx) (hfx : fx' <+: fx) :
    Writes w (w.die fx' 0) [] := by
  refine .die (fun he => (by cases he)) ?_
  intro p hp
  refine .inl ⟨rfl, ?_⟩
  have hpt : trail fx' <+: trail fx := hfx.filter _
  rcases @Sect.crash _ _ _ _ _ w.disk.pending _ _ hs.sect hpt with hq | hq | hq
  · exact ⟨p, .inr (hq.symm.trans hp), rfl⟩
  · rw [hq] at hp; cases hp
  · rcases hs.sect.source (hq.symm.trans hp) with ⟨t₀, ht₀, hid⟩ | hfresh
    · exact ⟨t₀, .inl ht₀, hid⟩
    · cases hfresh

/-- A death in the middle of a turn: a transaction counts as accepted if it was saved. -/
theorem Writes.dieTurn {cfg : Config} {w : World} {key : Nat} {T : Task} {turn : Turn}
    (hok : w.Ok) (g : Turned cfg w key T turn) {fx : List Effect} (hfx : fx <+: turn.fx) :
    Writes w (w.die fx turn.accepted)
      ((turn.news w.st.active).filter fun e => decide (.save e.txn ∈ fx)) := by
  obtain ⟨who, may, hs⟩ := g.shift
  rcases g.news with ⟨hacc, hnil⟩ | ⟨t', ht', hnews, hu, hacc, hfirst, hover, htr⟩
  · rw [hnil, hacc]
    rw [Turn.fresh, hacc] at hs
    exact .dieQuiet hs hfx
  · have hpt : trail fx <+: trail turn.fx := hfx.filter _
    rw [hnews]
    by_cases hm : .save t' ∈ fx
    · -- the save comes last, so everything before it happened too
      have hwhole : trail fx = trail turn.fx := by
        rw [htr] at hpt ⊢
        rcases List.prefix_concat_iff.mp hpt with heq | hshort
        · exact heq
        · have := hshort.mem (mem_trail.mpr ⟨hm, rfl⟩)
          simp at this
      rw [List.filter_eq_self.mpr (by simpa using hm)]
      refine .die ?_ ?_
      · intro e he
        rw [List.mem_singleton.mp he]
        refine ⟨rfl, rfl, hu, by omega, hfirst, ?_⟩
        intro t ht
        refine ⟨hover t ht, .of_trail (hwhole.trans htr) ht (hok.st.open' t ht) ?_⟩
        exact fun e hm => mem_die_fx.mpr (.inr hm)
      · intro p hp
        rw [hwhole, htr, pendingAfter, List.foldl_append] at hp
        exact .inr ⟨_, List.mem_singleton.mpr rfl, Option.some.inj hp⟩
    · rw [List.filter_eq_nil_iff.mpr (by simpa using hm)]
      refine .die (fun he => (by cases he)) ?_
      intro p hp
      refine .inl ⟨rfl, p, .inr ?_, rfl⟩
      rcases pendingAfter_cases (trail fx) w.disk.pending with hq | ⟨hc, -⟩ | ⟨t, ht, -⟩
      · exact hq.symm.trans hp
      · have := hpt.mem hc
        rw [htr] at this
        simp at this
      · have := hs.sect.saved (hpt.mem ht)
        rw [ht'] at this
        rw [Option.some.inj this] at hm
        exact absurd (mem_trail.mp ht).1 hm

/-- The process starts, or dies while it does: nothing is accepted. -/
theorem Writes.dieStart {w : World} (hok : w.Ok) {bootId : String} {now : Nat}
    {fx : List Effect} (hfx : fx <+: (w.disk.start bootId now).2) :
    Writes w (w.die fx 0) [] := by
  refine .die (fun he => (by cases he)) ?_
  intro p hp
  refine .inl ⟨rfl, ?_⟩
  have hpt : trail fx <+: trail (w.disk.start bootId now).2 := hfx.filter _
  rcases pendingAfter_cases (trail fx) w.disk.pending with hq | ⟨-, hq⟩ | ⟨t, ht, hq⟩
  · exact ⟨p, .inr (hq.symm.trans hp), rfl⟩
  · rw [hq] at hp; cases hp
  · have hres := (hok.resumed bootId now).2
    obtain ⟨q, hq', hid, -⟩ := hres.source (hres.saved (hpt.mem ht))
    rw [← Option.some.inj (hq.symm.trans hp)]
    exact ⟨q, .inr hq', hid⟩

theorem Writes.start {w : World} (hok : w.Ok) (key : Nat) (bootId : String) (now : Nat) :
    Writes w
      { w with
        up := true
        bootId := bootId
        st := (w.disk.start bootId now).1
        draining := false
        disk := w.disk.applyAll (w.disk.start bootId now).2
        tasks := startTasks (w.disk.start bootId now).1 key
        log := w.log ++ (w.disk.start bootId now).2.map .fx } [] := by
  have hdie := @Writes.dieStart w hok bootId now _ (List.prefix_refl _)
  refine ⟨hdie.grows, fun he => (by cases he), hdie.ended, ?_, hdie.pending, ?_, hdie.wrote⟩
  · intro t ht
    obtain ⟨q, hq, hid, -⟩ := (hok.resumed bootId now).2.source ht
    exact .inl ⟨rfl, q, .inr hq, hid⟩
  · intro k u v hk
    have hk : aheadOf (startTasks (w.disk.start bootId now).1 key k) = some (u, .rollback, v) := hk
    rw [(startTasks_free _ key k).2] at hk
    cases hk

/-- **Every step keeps the chronicle.** -/
theorem Chronicled.step {cfg : Config} {w w' : World} {a : Act} {hist : List Acceptance}
    (hok : w.Ok) (h : w.Chronicled hist) (hs : Step cfg w a w') :
    w'.Chronicled (chronicle cfg w a w' hist) := by
  have hok' := hok.step hs
  apply h.kept
  cases hs with
  | submit hu hk =>
    rw [← take_idle] at hok' ⊢
    exact Writes.turn hok hok' hu (.submit cfg hk _ _)
  | @task key i T ht =>
    simp only [ht]
    exact Writes.turn hok hok' (hok.up ht) (.task hok ht i)
  | @call key c hu hk =>
    have hw := Writes.turn hok hok' hu (.call cfg w hk c)
    rw [Turn.news, if_pos (call_fresh c w.st w.draining w.nextUid).1] at hw
    exact hw
  | drop ht hd =>
    rw [← take_idle] at hok' ⊢
    exact Writes.turn hok hok' (hok.up ht) (.drop cfg ht hd)
  | start hu => exact .start hok _ _ _
  | takeover =>
    refine ⟨Nat.le_refl _, fun he => (by cases he), id, ?_, ?_, ?_, .inl⟩
    · exact fun ht => .inl ⟨rfl, _, .inl ht, rfl⟩
    · exact fun hp => .inl ⟨rfl, _, .inr hp, rfl⟩
    · exact fun hk => .inl ⟨_, hk⟩
  | crash hu => exact @Writes.dieQuiet w none false _ _ _ (.refl w.st rfl) (List.prefix_refl _)
  | @crashTask key i n T ht =>
    simp only [ht]
    exact Writes.dieTurn hok (.task hok ht i) (List.take_prefix ..)
  | @crashCall c n hu =>
    have hshift := call_shift c w
    rw [(call_fresh c w.st w.draining w.nextUid).2] at hshift
    exact .dieQuiet hshift (List.take_prefix ..)
  | crashStart hu => exact .dieStart hok (List.take_prefix ..)

theorem Chronicled.exec {cfg : Config} {w : World} {hist : List Acceptance}
    (h : Exec (watched (next cfg) (chronicle cfg)) (fun _ _ => True) ({}, []) (w, hist)) :
    w.Chronicled hist := by
  refine (h.invariant (fun s => s.1.Ok ∧ s.1.Chronicled s.2) ?_ ⟨.empty, .empty⟩).2
  rintro ⟨v, hist⟩ ⟨v', hist'⟩ a ⟨hv, hc⟩ - hs
  obtain ⟨hs, hhist⟩ := watched_eq_some.mp hs
  refine ⟨hv.step (next_step hs), ?_⟩
  rw [hhist]
  exact hc.step hv (next_step hs)

/-! ### Chains -/

namespace Chronicled

variable {w : World} {hist : List Acceptance} {e e' : Acceptance}

theorem inherits (h : w.Chronicled hist) (he : e ∈ hist) (he' : e' ∈ hist)
    (hs : Supersedes e e') : e'.txn.rollbackTo = e.txn.rollbackTo := by
  obtain ⟨t, ho, hu⟩ := hs
  obtain ⟨hr, e₀, he₀, hid⟩ := h.superseded he' ho
  have huid : e₀.txn.uid = t.uid := congrArg Txn.Ident.uid hid
  have heq : e₀ = e := h.uniq he₀ he (huid.trans hu)
  have hroll : e₀.txn.rollbackTo = t.rollbackTo := congrArg Txn.Ident.rollbackTo hid
  rw [hr, ← hroll, heq]

/-- The whole chain restores what its first member restores. -/
theorem chain_rollbackTo (h : w.Chronicled hist) (c : List Acceptance) :
    ∀ e₁, List.IsChain Supersedes (e₁ :: c) → (∀ e ∈ e₁ :: c, e ∈ hist) →
      ∀ e ∈ e₁ :: c, e.txn.rollbackTo = e₁.txn.rollbackTo := by
  induction c with
  | nil =>
    intro e₁ _ _ e he
    rw [List.mem_singleton.mp he]
  | cons e₂ c ih =>
    intro e₁ hc hm e he
    obtain ⟨hs, hc'⟩ := List.isChain_cons_cons.mp hc
    rcases List.mem_cons.mp he with rfl | he
    · rfl
    · have hm' : ∀ e ∈ e₂ :: c, e ∈ hist := fun e he => hm e (List.mem_cons_of_mem _ he)
      rw [ih e₂ hc' hm' e he]
      exact h.inherits (hm e₁ List.mem_cons_self) (hm' e₂ List.mem_cons_self) hs

/-- Every member of the chain but the last was overridden by a member. -/
theorem chain_overridden (c : List Acceptance) :
    ∀ e₁, List.IsChain Supersedes (e₁ :: c) → ∀ e ∈ (e₁ :: c).dropLast,
      ∃ e' ∈ c, Supersedes e e' := by
  induction c with
  | nil => intro e₁ _ e he; cases he
  | cons e₂ c ih =>
    intro e₁ hc e he
    obtain ⟨hs, hc'⟩ := List.isChain_cons_cons.mp hc
    rcases List.mem_cons.mp he with rfl | he
    · exact ⟨e₂, List.mem_cons_self, hs⟩
    · obtain ⟨e', he', hs'⟩ := ih e₂ hc' e he
      exact ⟨e', List.mem_cons_of_mem _ he', hs'⟩

end Chronicled

/-- **A chain of overriding changes restores the first value.**  In every state of every
    run and for every chain of accepted transactions each of which superseded the one
    before: all of them restore what the first one restores, which is the value it
    captured if it superseded nothing itself; all but the last ended as superseded and
    are neither active nor saved; and every rollback write of a member, started or about
    to start, carries that value. -/
theorem chain_restores_first {cfg : Config} {w : World} {hist : List Acceptance}
    (h : Exec (watched (next cfg) (chronicle cfg)) (fun _ _ => True) ({}, []) (w, hist))
    {e₁ : Acceptance} {c : List Acceptance} (hc : List.IsChain Supersedes (e₁ :: c))
    (hm : ∀ e ∈ e₁ :: c, e ∈ hist) :
    (e₁.superseded = none → e₁.txn.rollbackTo = e₁.txn.old) ∧
    (∀ e ∈ e₁ :: c, e.txn.rollbackTo = e₁.txn.rollbackTo) ∧
    (∀ e ∈ (e₁ :: c).dropLast, EndedSuperseded w.log e.txn.uid ∧
      (∀ t, w.st.active = some t → t.uid ≠ e.txn.uid) ∧
      ∀ p, w.disk.pending = some p → p.uid ≠ e.txn.uid) ∧
    ∀ e ∈ e₁ :: c, ∀ v,
      .write e.txn.uid .rollback v ∈ w.log ∨
          (∃ k, aheadOf (w.tasks k) = some (e.txn.uid, .rollback, v)) →
        v = e₁.txn.rollbackTo := by
  have hch := Chronicled.exec h
  have hroll := hch.chain_rollbackTo c e₁ hc hm
  refine ⟨hch.first (hm e₁ List.mem_cons_self), hroll, ?_, ?_⟩
  · intro e he
    obtain ⟨e', he', t, ho, hu⟩ := Chronicled.chain_overridden c e₁ hc e he
    have hmem := hm e' (List.mem_cons_of_mem _ he')
    obtain ⟨-, hact, hpend⟩ := hch.gone hmem ho
    rw [← hu]
    exact ⟨hch.ended hmem ho, hact, hpend⟩
  · intro e he v hv
    obtain ⟨e', he', hu, hv'⟩ : ∃ e' ∈ hist, e'.txn.uid = e.txn.uid ∧ e'.txn.rollbackTo = v := by
      rcases hv with hv | ⟨k, hk⟩
      · exact hch.wrote hv
      · exact hch.ahead hk
    have heq := hch.uniq he' (hm e he) hu
    rw [← hv', heq, hroll e he]

/-- A change of the network mode, applied, while the device reports this mode. -/
def overriding (key : Nat) (opId mode : String) : List Act :=
  [.submit key (sampleRequest opId) opId, .task key {},
    .task key { reading := .ok (Txn.sampleReading mode "89860000000000000001") }] ++ applied key

/-- Three changes, each overriding the one before. -/
def overridingRun : List Act :=
  .start 0 "boot" 5 :: overriding 1 "a" "WL_AND_5G" ++ overriding 2 "b" "Only_LTE" ++
    overriding 3 "c" "Only_5G"

/-- Does the second acceptance supersede the first? -/
def supersedes (e e' : Acceptance) : Bool := e'.superseded.any fun t => decide (t.uid = e.txn.uid)

theorem supersedes_iff {e e' : Acceptance} : supersedes e e' = true ↔ Supersedes e e' := by
  rw [supersedes, Option.any_eq_true]
  simp only [decide_eq_true_eq, Supersedes]

/-- A test of a chronicle of three. -/
def ofThree (p : Acceptance → Acceptance → Acceptance → Bool) : List Acceptance → Bool
  | [e₁, e₂, e₃] => p e₁ e₂ e₃
  | _ => false

theorem ofThree_eq_true {p : Acceptance → Acceptance → Acceptance → Bool} {l : List Acceptance}
    (h : ofThree p l = true) : ∃ e₁ e₂ e₃, l = [e₁, e₂, e₃] ∧ p e₁ e₂ e₃ = true := by
  unfold ofThree at h
  split at h
  · exact ⟨_, _, _, rfl, h⟩
  · cases h

/-- The second and the third of three changes are a chain too.  The third restores what
    the first captured, and not what the second did. -/
theorem inner_chain_restores_outer :
    ∃ w hist e₂ e₃,
      Exec (watched (next sampleConfig) (chronicle sampleConfig)) (fun _ _ => True) ({}, [])
        (w, hist) ∧
      List.IsChain Supersedes [e₂, e₃] ∧ (∀ e ∈ [e₂, e₃], e ∈ hist) ∧
      e₃.txn.rollbackTo ≠ e₂.txn.old := by
  have hrun : (run (watched (next sampleConfig) (chronicle sampleConfig)) (fun _ _ => true)
      ({}, []) overridingRun).any (fun s =>
        ofThree (fun _ e₂ e₃ => supersedes e₂ e₃ && decide (e₃.txn.rollbackTo ≠ e₂.txn.old))
          s.2) = true := by decide +kernel
  obtain ⟨⟨w, hist⟩, hw, hp⟩ := Exec.exists_of_run (fun _ _ _ => trivial) (.refl _) hrun
  obtain ⟨e₁, e₂, e₃, hhist, hp⟩ := ofThree_eq_true hp
  have hhist : hist = [e₁, e₂, e₃] := hhist
  rw [Bool.and_eq_true, decide_eq_true_eq] at hp
  refine ⟨w, hist, e₂, e₃, hw, ?_, ?_, hp.2⟩
  · exact List.isChain_cons_cons.mpr ⟨supersedes_iff.mp hp.1, .singleton _⟩
  · intro e he
    rw [hhist]
    exact List.mem_cons_of_mem _ he

/-- Three changes, each overriding the one before: the last restores what the first
    captured, and the two others are over. -/
theorem overridden_changes_over :
    ∃ w hist e₁ e₂ e₃,
      Exec (watched (next sampleConfig) (chronicle sampleConfig)) (fun _ _ => True) ({}, [])
        (w, hist) ∧
      List.IsChain Supersedes [e₁, e₂, e₃] ∧ e₁.superseded = none ∧
      e₃.txn.rollbackTo = e₁.txn.rollbackTo ∧ e₁.txn.rollbackTo = e₁.txn.old ∧
      EndedSuperseded w.log e₁.txn.uid ∧ EndedSuperseded w.log e₂.txn.uid := by
  have hrun : (run (watched (next sampleConfig) (chronicle sampleConfig)) (fun _ _ => true)
      ({}, []) overridingRun).any (fun s =>
        ofThree (fun e₁ e₂ e₃ => supersedes e₁ e₂ && supersedes e₂ e₃ && e₁.superseded.isNone)
          s.2) = true := by decide +kernel
  obtain ⟨⟨w, hist⟩, hw, hp⟩ := Exec.exists_of_run (fun _ _ _ => trivial) (.refl _) hrun
  obtain ⟨e₁, e₂, e₃, hhist, hp⟩ := ofThree_eq_true hp
  have hhist : hist = [e₁, e₂, e₃] := hhist
  simp only [Bool.and_eq_true, supersedes_iff, Option.isNone_iff_eq_none] at hp
  have hc : List.IsChain Supersedes [e₁, e₂, e₃] :=
    List.isChain_cons_cons.mpr
      ⟨hp.1.1, List.isChain_cons_cons.mpr ⟨hp.1.2, .singleton _⟩⟩
  obtain ⟨hfirst, hroll, hover, -⟩ :=
    chain_restores_first hw hc (by rw [hhist]; exact fun _ => id)
  refine ⟨w, hist, e₁, e₂, e₃, hw, hc, hp.2, hroll e₃ (by simp), hfirst hp.2, ?_, ?_⟩
  · exact (hover e₁ (by simp)).1
  · exact (hover e₂ (by simp)).1

end World

end Datad
