/-
  Datad/Ops/WorldInvariant.lean
  =============================
  **`pending.json` mirrors the active transaction.**

  The engine saves a transaction whenever its phase changes and removes the file
  when it ends, so between two sections the file and the memory agree (`Mirror`).
  A crash inside a section leaves the file as it was, as it was meant to be, or
  empty (`Sect.crash`).  From this follows what every state of the system
  satisfies, over every crash and restart (`World.Ok`).
-/
import Datad.Ops.Sections

namespace Datad

open Transition

/-! ### The file -/

/-- `pending.json` after a list of effects. -/
def pendingAfter (p : Option Txn) (fx : List Effect) : Option Txn :=
  fx.foldl (fun p e =>
    match e with
    | .save t => some t
    | .clear => none
    | _ => p) p

@[simp] theorem pendingAfter_nil (p : Option Txn) : pendingAfter p [] = p := rfl

theorem pendingAfter_trail (fx : List Effect) :
    ∀ p : Option Txn, pendingAfter p (trail fx) = pendingAfter p fx := by
  induction fx with
  | nil => intro p; rfl
  | cons e fx ih =>
    intro p
    cases e with
    | save t => exact ih (some t)
    | clear => exact ih none
    | append line =>
      cases line with
      | txn t => exact ih p
      | ack => exact ih p
      | noticeAck => exact ih p
      | interrupt => exact ih p
      | legacy => exact ih p
      | session => exact ih p
    | saveLast l => exact ih p
    | saveNotice => exact ih p
    | takeTakeover => exact ih p
    | setOwner => exact ih p
    | publish st => exact ih p

theorem pendingAfter_cases (fx : List Effect) :
    ∀ p : Option Txn, pendingAfter p fx = p ∨ .clear ∈ fx ∧ pendingAfter p fx = none ∨
      ∃ t, .save t ∈ fx ∧ pendingAfter p fx = some t := by
  induction fx with
  | nil => intro p; exact .inl rfl
  | cons e fx ih =>
    intro p
    have hstep : pendingAfter p (e :: fx) = pendingAfter (pendingAfter p [e]) fx := rfl
    rw [hstep]
    rcases ih (pendingAfter p [e]) with h | ⟨hm, h⟩ | ⟨t, hm, h⟩
    · rw [h]
      cases e with
      | save t => exact .inr (.inr ⟨t, List.mem_cons_self, rfl⟩)
      | clear => exact .inr (.inl ⟨List.mem_cons_self, rfl⟩)
      | _ => exact .inl rfl
    · exact .inr (.inl ⟨List.mem_cons_of_mem _ hm, h⟩)
    · exact .inr (.inr ⟨t, List.mem_cons_of_mem _ hm, h⟩)

theorem Disk.apply_pending (d : Disk) (e : Effect) :
    (d.apply e).pending = pendingAfter d.pending [e] := by
  cases e <;> rfl

theorem Disk.applyAll_pending (fx : List Effect) :
    ∀ d : Disk, (d.applyAll fx).pending = pendingAfter d.pending (trail fx) := by
  induction fx with
  | nil => intro d; rfl
  | cons e fx ih =>
    intro d
    rw [pendingAfter_trail]
    show ((d.apply e).applyAll fx).pending = pendingAfter (pendingAfter d.pending [e]) fx
    rw [ih, pendingAfter_trail, d.apply_pending e]

theorem trail_take (fx : List Effect) (n : Nat) : trail (fx.take n) <+: trail fx :=
  (List.take_prefix n fx).filter _

/-! ### Memory and file -/

/-- The file holds the active transaction: the same identity and control state,
    and while a write is open every field of it. -/
inductive Mirror : Option Txn → Option Txn → Prop where
  | none : Mirror none none
  | some {t p : Txn} (hc : p.ctl = t.ctl) (hid : p.ident = t.ident)
      (he : t.intent ≠ .none → p = t) : Mirror (some t) (some p)

theorem Mirror.refl (a : Option Txn) : Mirror a a := by
  rcases a with _ | t
  · exact .none
  · exact .some rfl rfl fun _ => rfl

/-- What the file holds is active. -/
theorem Mirror.active {a q : Option Txn} (h : Mirror a q) {p : Txn} (hp : q = .some p) :
    ∃ t, a = .some t ∧ p.ctl = t.ctl ∧ p.ident = t.ident ∧ (t.intent ≠ .none → p = t) := by
  cases h with
  | none => cases hp
  | some hc hid he =>
    rw [← Option.some.inj hp]
    exact ⟨_, rfl, hc, hid, he⟩

/-- What is active the file holds. -/
theorem Mirror.file {a q : Option Txn} (h : Mirror a q) {t : Txn} (ht : a = .some t) :
    ∃ p, q = .some p ∧ p.ctl = t.ctl ∧ p.ident = t.ident ∧ (t.intent ≠ .none → p = t) := by
  cases h with
  | none => cases ht
  | some hc hid he =>
    rw [← Option.some.inj ht]
    exact ⟨_, rfl, hc, hid, he⟩

namespace Sect

variable {who : Option String} {may : Bool} {fresh : Option Nat} {a a' p : Option Txn}
  {l l' : List Effect}

theorem mirror (h : Sect who may fresh a a' l) (hp : Mirror a p) :
    Mirror a' (pendingAfter p l) := by
  cases h with
  | stay => exact hp
  | resave t => exact .refl _
  | @advance t t' l hi hm hid hf hl =>
    rcases hl with rfl | ⟨rfl, hctl⟩
    · exact .refl _
    · rcases hp with _ | ⟨hc, hid', he⟩
      refine .some (hc.trans hctl.symm) (hid'.trans hid.symm) ?_
      intro hn
      have : t'.intent = t.intent := congrArg Ctl.intent hctl
      exact absurd (this.trans hi) hn
  | landed hw hs hid hf => exact .refl _
  | close hm hid hf hc hl =>
    rcases hl with rfl | rfl
    · exact .none
    · exact .none
  | accept hu ho =>
    rw [pendingAfter, List.foldl_append]
    exact .refl _

/-- What a section saves is what it leaves active. -/
theorem saved (h : Sect who may fresh a a' l) {t : Txn} (ht : .save t ∈ l) : a' = some t := by
  cases h with
  | stay => cases ht
  | resave u =>
    cases List.mem_singleton.mp ht
    rfl
  | advance hi hm hid hf hl =>
    rcases hl with rfl | ⟨rfl, -⟩
    · cases List.mem_singleton.mp ht
      rfl
    · cases ht
  | landed hw hs hid hf =>
    cases List.mem_singleton.mp ht
    rfl
  | close hm hid hf hc hl => rcases hl with rfl | rfl <;> simp at ht
  | accept hu ho =>
    rcases List.mem_append.mp ht with h | h
    · obtain ⟨u, -, hu⟩ := List.mem_map.mp h
      cases hu
    · cases List.mem_singleton.mp h
      rfl

/-- The transaction left active is the one before, or the one just accepted. -/
theorem source (h : Sect who may fresh a a' l) {t' : Txn} (ht' : a' = some t') :
    (∃ t, a = some t ∧ t'.ident = t.ident) ∨ fresh = some t'.uid := by
  cases h with
  | stay => exact .inl ⟨t', ht', rfl⟩
  | resave t => exact .inl ⟨t', ht', rfl⟩
  | advance hi hm hid hf hl =>
    cases ht'
    exact .inl ⟨_, rfl, hid⟩
  | landed hw hs hid hf =>
    cases ht'
    exact .inl ⟨_, rfl, hid⟩
  | close => cases ht'
  | accept hu ho =>
    cases ht'
    exact .inr hu

/-- The end of a transaction in a section: it was the active one, and what is
    active afterwards is new. -/
theorem ended (h : Sect who may fresh a a' l) {t' : Txn} (ht' : .append (.txn t') ∈ l) :
    ∃ t, a = some t ∧ t'.ident = t.ident ∧ (t.intent = none ∨ may = true) ∧
      ∀ t'', a' = some t'' → fresh = some t''.uid := by
  cases h with
  | stay => cases ht'
  | resave u => simp at ht'
  | advance hi hm hid hf hl => rcases hl with rfl | ⟨rfl, -⟩ <;> simp at ht'
  | landed hw hs hid hf => simp at ht'
  | @close u u' l hm hid hf hc hl =>
    have hu : t' = u' := by rcases hl with rfl | rfl <;> simpa using ht'
    rw [hu]
    exact ⟨u, rfl, hid, hc, fun _ h => (nomatch h)⟩
  | accept hu ho =>
    obtain ⟨t, ht, hcancel⟩ : ∃ t, a = some t ∧ t' = t.cancel .superseded := by
      rcases List.mem_append.mp ht' with hm | hm
      · obtain ⟨t, ht, heq⟩ := List.mem_map.mp hm
        cases heq
        exact ⟨t, Option.mem_toList.mp ht, rfl⟩
      · simp at hm
    have hw : Reason.superseded.cancels = true := rfl
    refine ⟨t, ht, ?_, .inl (ho t ht).2.2.1, ?_⟩
    · rw [hcancel]
      exact (t.cancel_moves hw).2
    · intro t'' ht''
      rw [← Option.some.inj ht'']
      exact hu

/-- A crash inside the section: the file is as before, as after, or gone. -/
theorem crash (h : Sect who may fresh a a' l) (hl' : l' <+: l) :
    pendingAfter p l' = p ∨ pendingAfter p l' = none ∨ pendingAfter p l' = a' := by
  rcases pendingAfter_cases l' p with h₁ | ⟨-, h₁⟩ | ⟨t, ht, h₁⟩
  · exact .inl h₁
  · exact .inr (.inl h₁)
  · rw [h.saved (hl'.mem ht)]
    exact .inr (.inr h₁)

end Sect

/-! ### Starting -/

/-- What `start` makes of the file: nothing was saved, the transaction goes on
    (moved by at least one step), or it ended. -/
inductive Resumed : Option Txn → Option Txn → List Effect → Prop where
  | none : Resumed none none []
  | live {p t : Txn} (hm : ∃ c, Ctl.Step p.ctl c ∧ Ctl.Moves c t.ctl) (hid : t.ident = p.ident)
      (hf : t.phase.isFinal = false) : Resumed (some p) (some t) [.save t]
  | ended {p t : Txn} (hid : t.ident = p.ident) (hf : t.phase.isFinal = true) :
      Resumed (some p) .none [.clear, .append (.txn t), .clear]

namespace Resumed

variable {p a : Option Txn} {l : List Effect}

theorem mirror (h : Resumed p a l) : Mirror a (pendingAfter p l) := by
  cases h with
  | none => exact .none
  | live hm hid hf => exact .refl _
  | ended hid hf => exact .none

theorem source (h : Resumed p a l) {t : Txn} (ht : a = some t) :
    ∃ q, p = some q ∧ t.ident = q.ident ∧ ∃ c, Ctl.Step q.ctl c ∧ Ctl.Moves c t.ctl := by
  cases h with
  | none => cases ht
  | live hm hid hf =>
    cases ht
    exact ⟨_, rfl, hid, hm⟩
  | ended hid hf => cases ht

theorem saved (h : Resumed p a l) {t : Txn} (ht : .save t ∈ l) : a = some t := by
  cases h with
  | none => cases ht
  | live hm hid hf =>
    cases List.mem_singleton.mp ht
    rfl
  | ended hid hf => simp at ht

theorem recorded (h : Resumed p a l) {t : Txn} (ht : .append (.txn t) ∈ l) :
    a = .none ∧ ∃ q, p = some q ∧ t.uid = q.uid := by
  cases h with
  | none => cases ht
  | live hm hid hf => simp at ht
  | @ended q u hid hf =>
    have ht : t = u := by simpa using ht
    rw [ht]
    exact ⟨rfl, _, rfl, congrArg Txn.Ident.uid hid⟩

end Resumed

/-- The locked section of `start`, for the transaction it decided on. -/
theorem St.Ok.started {st : St} (hst : st.Ok) (hs : st.session = none) {t : Txn}
    (hinv : t.ctl.Inv) : ((st.setActive t).persist true).1.finish.1.Ok := by
  obtain ⟨hact, hses, hrec⟩ := (st.setActive t).persist_frame true
  rcases hf : t.phase.isFinal with _ | _
  · have hopen : ∀ u, ((st.setActive t).persist true).1.active = some u → u = t := by
      intro u hu
      rw [hact] at hu
      exact (Option.some.inj hu).symm
    rw [St.finish_open fun u hu => by rw [hopen u hu]; exact hf]
    refine ⟨?_, ?_, fun _ => hses.trans hs, ?_⟩
    · intro u hu; rw [hopen u hu]; exact hinv
    · intro u hu; rw [hopen u hu]; exact hf
    · intro u hu; rw [hrec] at hu; exact hst.recent u hu
  · rw [St.finish_final hact hf]
    obtain ⟨hact', hses', hrec', -⟩ := St.retire_active hact
    constructor
    · intro u hu; rw [hact'] at hu; cases hu
    · intro u hu; rw [hact'] at hu; cases hu
    · intro h; rw [hact'] at h; cases h
    · intro u hu
      rcases hrec' u hu with h | h
      · rw [hrec] at h; exact hst.recent u h
      · rw [h]; exact hf

theorem St.started_active (st : St) (t : Txn) :
    t.phase.isFinal = false ∧ ((st.setActive t).persist true).1.finish.1.active = some t ∧
        trail (((st.setActive t).persist true).2 ++
          ((st.setActive t).persist true).1.finish.2) = [.save t] ∨
    t.phase.isFinal = true ∧ ((st.setActive t).persist true).1.finish.1.active = none ∧
        trail (((st.setActive t).persist true).2 ++
          ((st.setActive t).persist true).1.finish.2) = [.clear, .append (.txn t), .clear] := by
  obtain ⟨hact, -, -⟩ := (st.setActive t).persist_frame true
  rcases hf : t.phase.isFinal with _ | _
  · refine .inl ⟨rfl, ?_⟩
    rw [St.finish_open fun u hu => by
      rw [hact] at hu
      rw [← Option.some.inj hu]; exact hf]
    rw [List.append_nil]
    exact ⟨hact, St.persist_trail_forced rfl hf⟩
  · refine .inr ⟨rfl, ?_⟩
    obtain ⟨hact', -, -, hfx⟩ := St.retire_active hact
    rw [St.finish_final hact hf, trail_append, hfx, St.persist_trail_final rfl hf]
    exact ⟨hact', rfl⟩

/-- What a start makes of a saved transaction: at least one move. -/
theorem Txn.restarted_moves {p : Txn} (hpi : p.ctl.Inv) (hpf : p.phase.isFinal = false)
    (takeover : Bool) (bootId : String) (now : Nat) {t : Txn}
    (ht : (if takeover then p.cancel .takeover else (p.resume bootId now).1) = t) :
    (∃ c, Ctl.Step p.ctl c ∧ Ctl.Moves c t.ctl) ∧ t.ident = p.ident := by
  rw [← ht]
  split
  · refine ⟨?_, (p.cancel_moves rfl).2⟩
    have hc : (p.cancel .takeover).ctl = p.ctl.ended .cancelled .takeover := by
      rw [Txn.cancel]
      rw [if_neg (Bool.eq_false_iff.mp hpf)]
      rfl
    rw [hc]
    exact ⟨_, .close p.ctl hpf rfl (by decide), .refl⟩
  · exact Txn.resume_progress bootId now hpi hpf

theorem Disk.start_spec (d : Disk) (bootId : String) (now : Nat)
    (hinv : ∀ p, d.pending = some p → p.ctl.Inv)
    (hopen : ∀ p, d.pending = some p → p.phase.isFinal = false) :
    (d.start bootId now).1.Ok ∧
      Resumed d.pending (d.start bootId now).1.active (trail (d.start bootId now).2) := by
  have htake : trail (if d.takeover then [Effect.takeTakeover] else []) = [] := by
    cases d.takeover <;> rfl
  have hboot : d.boot.Ok := ⟨by simp [boot], by simp [boot], by simp [boot], by simp [boot]⟩
  rw [start]
  rcases hp : d.pending with _ | p
  · refine ⟨hboot, ?_⟩
    dsimp only
    rw [htake]
    exact .none
  · dsimp only
    have hpi := hinv p hp
    have hpf := hopen p hp
    generalize ht : (if d.takeover = true then p.cancel .takeover
      else (p.resume bootId now).1) = t
    obtain ⟨⟨c, hs, hm⟩, hid⟩ := Txn.restarted_moves hpi hpf d.takeover bootId now ht
    refine ⟨hboot.started rfl ((hpi.step hs).moves hm), ?_⟩
    rw [List.append_assoc, trail_append, htake, List.nil_append]
    rcases d.boot.started_active t with ⟨hf, hact, htr⟩ | ⟨hf, hact, htr⟩
    · rw [hact, htr]
      exact .live ⟨c, hs, hm⟩ hid hf
    · rw [hact, htr]
      exact .ended hid hf

/-! ### Steps of the system -/

namespace World

/-- The `submit` tasks that stand at an await. -/
def droppable : Task → Bool
  | .submitRead .. | .submitWait .. => true
  | _ => false

/-- `World.next`, read as a relation: one constructor an action. -/
inductive Step (cfg : Config) (w : World) : Act → World → Prop where
  | submit {key : Nat} {req : Request} {fresh : String} (hu : w.up = true)
      (hk : w.tasks key = none) :
      Step cfg w (.submit key req fresh)
        { w with tasks := setTask w.tasks key (some (.submit req (req.opId.getD fresh))) }
  | task {key : Nat} {i : Input} {t : Task} (ht : w.tasks key = some t) :
      Step cfg w (.task key i) (w.take key (w.turnOf cfg t i))
  | call {key : Nat} {c : Call} (hu : w.up = true) (hk : w.tasks key = none) :
      Step cfg w (.call key c) (w.take key (c.turn w.st w.draining))
  | drop {key : Nat} {t : Task} (ht : w.tasks key = some t) (hd : droppable t = true) :
      Step cfg w (.drop key) { w with tasks := setTask w.tasks key none }
  | start {key : Nat} {bootId : String} {now : Nat} (hu : w.up = false) :
      Step cfg w (.start key bootId now)
        { w with
          up := true
          bootId := bootId
          st := (w.disk.start bootId now).1
          draining := false
          disk := w.disk.applyAll (w.disk.start bootId now).2
          tasks := startTasks (w.disk.start bootId now).1 key
          log := w.log ++ (w.disk.start bootId now).2.map .fx }
  | takeover : Step cfg w .takeover { w with disk := { w.disk with takeover := true } }
  | crash (hu : w.up = true) : Step cfg w .crash (w.die [] 0)
  | crashTask {key : Nat} {i : Input} {n : Nat} {t : Task} (ht : w.tasks key = some t) :
      Step cfg w (.crashTask key i n)
        (w.die ((w.turnOf cfg t i).fx.take n) (w.turnOf cfg t i).accepted)
  | crashCall {c : Call} {n : Nat} (hu : w.up = true) :
      Step cfg w (.crashCall c n) (w.die ((c.turn w.st w.draining).fx.take n) 0)
  | crashStart {bootId : String} {now n : Nat} (hu : w.up = false) :
      Step cfg w (.crashStart bootId now n) (w.die ((w.disk.start bootId now).2.take n) 0)

theorem next_step {cfg : Config} {w w' : World} {a : Act} (h : next cfg w a = some w') :
    Step cfg w a w' := by
  cases a with
  | submit key req fresh =>
    simp only [next] at h
    split at h
    · rename_i hg
      rw [← Option.some.inj h]
      exact .submit hg.1 (Option.isNone_iff_eq_none.mp hg.2)
    · cases h
  | task key i =>
    simp only [next] at h
    split at h
    · rename_i t ht
      rw [← Option.some.inj h]
      exact .task ht
    · cases h
  | call key c =>
    simp only [next] at h
    split at h
    · rename_i hg
      rw [← Option.some.inj h]
      exact .call hg.1 (Option.isNone_iff_eq_none.mp hg.2)
    · cases h
  | drop key =>
    simp only [next] at h
    split at h
    · rename_i ht
      rw [← Option.some.inj h]
      exact .drop ht rfl
    · rename_i ht
      rw [← Option.some.inj h]
      exact .drop ht rfl
    · cases h
  | start key bootId now =>
    simp only [next] at h
    split at h
    · cases h
    · rename_i hu
      rw [← Option.some.inj h]
      exact .start (Bool.eq_false_iff.mpr hu)
  | takeover =>
    rw [← Option.some.inj h]
    exact .takeover
  | crash =>
    simp only [next] at h
    split at h
    · rename_i hu
      rw [← Option.some.inj h]
      exact .crash hu
    · cases h
  | crashTask key i n =>
    simp only [next] at h
    split at h
    · rename_i t ht
      rw [← Option.some.inj h]
      exact .crashTask ht
    · cases h
  | crashCall c n =>
    simp only [next] at h
    split at h
    · rename_i hu
      rw [← Option.some.inj h]
      exact .crashCall hu
    · cases h
  | crashStart bootId now n =>
    simp only [next] at h
    split at h
    · cases h
    · rename_i hu
      rw [← Option.some.inj h]
      exact .crashStart (Bool.eq_false_iff.mpr hu)

/-! ### What holds in every state -/

/-- A transaction as it may stand in `pending.json`. -/
structure Saved (n : Nat) (p : Txn) : Prop where
  inv : p.ctl.Inv
  open' : p.phase.isFinal = false
  fresh : p.uid < n

structure Ok (w : World) : Prop where
  st : w.st.Ok
  down : w.up = false → w.st.active = none ∧ ∀ k, w.tasks k = none
  mirror : w.up = true → Mirror w.st.active w.disk.pending
  saved : ∀ p, w.disk.pending = some p → Saved w.nextUid p

theorem Ok.empty : Ok {} :=
  ⟨.empty, fun _ => ⟨rfl, fun _ => rfl⟩, fun h => (nomatch h), fun _ h => (nomatch h)⟩

theorem Ok.up {w : World} (h : w.Ok) {key : Nat} {t : Task} (ht : w.tasks key = some t) :
    w.up = true := by
  by_contra hu
  have := (h.down (Bool.eq_false_iff.mpr hu)).2 key
  rw [ht] at this
  cases this

/-- The active transaction is as well formed as a saved one. -/
theorem Ok.active {w : World} (h : w.Ok) {t : Txn} (ht : w.st.active = some t) :
    Saved w.nextUid t := by
  refine ⟨h.st.inv t ht, h.st.open' t ht, ?_⟩
  rcases hu : w.up with _ | _
  · have := (h.down hu).1
    rw [ht] at this
    cases this
  · obtain ⟨p, hp, -, hid, -⟩ := (h.mirror hu).file ht
    have huid : p.uid = t.uid := congrArg Txn.Ident.uid hid
    rw [← huid]
    exact (h.saved p hp).fresh

theorem Saved.mono {n m : Nat} (hnm : n ≤ m) {p : Txn} (h : Saved n p) : Saved m p :=
  ⟨h.inv, h.open', Nat.lt_of_lt_of_le h.fresh hnm⟩

/-- A turn leaves a well-formed transaction active. -/
theorem Ok.turn {w : World} (h : w.Ok) {who : Option String} {may : Bool} {turn : Turn}
    (hs : Shift who may (turn.fresh w.nextUid) w.st turn.st turn.fx) {t' : Txn}
    (ht' : turn.st.active = some t') : Saved (w.nextUid + turn.accepted) t' := by
  have hst := h.st.shift hs
  refine ⟨hst.inv t' ht', hst.open' t' ht', ?_⟩
  rcases hs.sect.source ht' with ⟨t, ht, hid⟩ | hfresh
  · have huid : t'.uid = t.uid := congrArg Txn.Ident.uid hid
    have := (h.active ht).fresh
    omega
  · have := Turn.fresh_eq_some hfresh
    omega

/-- What mirrors a well-formed active transaction is well formed. -/
theorem Saved.of_mirror {n : Nat} {a q : Option Txn} (hm : Mirror a q)
    (ha : ∀ t, a = some t → Saved n t) {p : Txn} (hp : q = some p) : Saved n p := by
  obtain ⟨t, ht, hc, hid, -⟩ := hm.active hp
  obtain ⟨h1, h2, h3⟩ := ha t ht
  have huid := congrArg Txn.Ident.uid hid
  refine ⟨by rw [hc]; exact h1, ?_, lt_of_eq_of_lt huid h3⟩
  exact (congrArg (fun c : Ctl => c.phase.isFinal) hc).trans h2

theorem Ok.take {w : World} (h : w.Ok) (hu : w.up = true) {who : Option String} {may : Bool}
    {key : Nat} {turn : Turn} (hs : Shift who may (turn.fresh w.nextUid) w.st turn.st turn.fx) :
    (w.take key turn).Ok := by
  have hmirror : Mirror turn.st.active (w.disk.applyAll turn.fx).pending := by
    rw [Disk.applyAll_pending]
    exact hs.sect.mirror (h.mirror hu)
  refine ⟨h.st.shift hs, ?_, fun _ => hmirror, ?_⟩
  · intro hd
    have hd : w.up = false := hd
    rw [hu] at hd
    cases hd
  · intro p hp
    exact .of_mirror hmirror (fun t ht => h.turn hs ht) hp

theorem Ok.die {w : World} (h : w.Ok) {fx : List Effect} {n : Nat}
    (hq : pendingAfter w.disk.pending (trail fx) = w.disk.pending ∨
      pendingAfter w.disk.pending (trail fx) = none ∨
      ∃ t, pendingAfter w.disk.pending (trail fx) = some t ∧ Saved (w.nextUid + n) t) :
    (w.die fx n).Ok := by
  refine ⟨.empty, fun _ => ⟨rfl, fun _ => rfl⟩, fun hd => (nomatch hd), ?_⟩
  intro p hp
  have hp : (w.disk.applyAll fx).pending = some p := hp
  rw [Disk.applyAll_pending] at hp
  rcases hq with hq | hq | ⟨t, hq, ht⟩
  · rw [hq] at hp
    exact (h.saved p hp).mono (Nat.le_add_right _ _)
  · rw [hq] at hp; cases hp
  · rw [hq] at hp
    rw [← Option.some.inj hp]
    exact ht

/-- A crash inside a turn. -/
theorem Ok.dieTurn {w : World} (h : w.Ok) {who : Option String} {may : Bool} {turn : Turn} (n : Nat)
    (hs : Shift who may (turn.fresh w.nextUid) w.st turn.st turn.fx) :
    (w.die (turn.fx.take n) turn.accepted).Ok := by
  apply h.die
  rcases @Sect.crash _ _ _ _ _ w.disk.pending _ _ hs.sect (trail_take turn.fx n) with hq | hq | hq
  · exact .inl hq
  · exact .inr (.inl hq)
  · rcases ht : turn.st.active with _ | t
    · rw [ht] at hq; exact .inr (.inl hq)
    · rw [ht] at hq; exact .inr (.inr ⟨t, hq, h.turn hs ht⟩)

theorem turnOf_shift (cfg : Config) {w : World} (h : w.st.Ok) (t : Task) (i : Input) :
    Shift t.lands t.cancels ((w.turnOf cfg t i).fresh w.nextUid) w.st (w.turnOf cfg t i).st
      (w.turnOf cfg t i).fx :=
  t.turn_shift cfg w.bootId w.nextUid h w.draining i

/-- The calls accept nothing. -/
theorem call_fresh (c : Call) (st : St) (draining : Bool) (n : Nat) :
    (c.turn st draining).accepted = 0 ∧ (c.turn st draining).fresh n = none := by
  cases c <;> exact ⟨rfl, rfl⟩

theorem call_shift (c : Call) (w : World) :
    Shift none c.cancels ((c.turn w.st w.draining).fresh w.nextUid) w.st (c.turn w.st w.draining).st
      (c.turn w.st w.draining).fx := by
  rw [(call_fresh c w.st w.draining w.nextUid).2]
  exact c.turn_shift w.st w.draining

/-- What `start` leaves active, if anything, is the saved transaction. -/
theorem Ok.resumed {w : World} (h : w.Ok) (bootId : String) (now : Nat) :
    (w.disk.start bootId now).1.Ok ∧
      Resumed w.disk.pending (w.disk.start bootId now).1.active
        (trail (w.disk.start bootId now).2) :=
  w.disk.start_spec bootId now (fun p hp => (h.saved p hp).inv) fun p hp => (h.saved p hp).open'

theorem Ok.start {w : World} (h : w.Ok) (bootId : String) (now : Nat) {t : Txn}
    (ht : (w.disk.start bootId now).1.active = some t) : Saved w.nextUid t := by
  obtain ⟨hst, hr⟩ := h.resumed bootId now
  obtain ⟨p, hp, hid, -⟩ := hr.source ht
  have huid : t.uid = p.uid := congrArg Txn.Ident.uid hid
  exact ⟨hst.inv t ht, hst.open' t ht, by rw [huid]; exact (h.saved p hp).fresh⟩

/-- **Every step keeps the system well formed.** -/
theorem Ok.step {cfg : Config} {w w' : World} {a : Act} (h : w.Ok) (hs : Step cfg w a w') :
    w'.Ok := by
  cases hs with
  | submit hu hk =>
    exact ⟨h.st, fun hd => absurd hu (by rw [hd]; decide), h.mirror, h.saved⟩
  | task ht => exact h.take (h.up ht) (turnOf_shift cfg h.st _ _)
  | call hu hk => exact h.take hu (call_shift _ w)
  | drop ht hd =>
    exact ⟨h.st, fun hd => absurd (h.up ht) (by rw [hd]; decide), h.mirror, h.saved⟩
  | @start key bootId now hu =>
    obtain ⟨hst, hr⟩ := h.resumed bootId now
    have hmirror : Mirror (w.disk.start bootId now).1.active
        (w.disk.applyAll (w.disk.start bootId now).2).pending := by
      rw [Disk.applyAll_pending]
      exact hr.mirror
    exact ⟨hst, fun hd => (nomatch hd), fun _ => hmirror,
      fun p hp => .of_mirror hmirror (fun t ht => h.start bootId now ht) hp⟩
  | takeover => exact ⟨h.st, h.down, h.mirror, h.saved⟩
  | crash hu => exact h.die (.inl rfl)
  | crashTask ht => exact h.dieTurn _ (turnOf_shift cfg h.st _ _)
  | @crashCall c n hu =>
    have := h.dieTurn n (call_shift c w)
    rw [(call_fresh c w.st w.draining w.nextUid).1] at this
    exact this
  | @crashStart bootId now n hu =>
    apply h.die
    rcases pendingAfter_cases (trail ((w.disk.start bootId now).2.take n)) w.disk.pending
      with hq | ⟨-, hq⟩ | ⟨t, ht, hq⟩
    · exact .inl hq
    · exact .inr (.inl hq)
    · have ht' := (h.resumed bootId now).2.saved ((trail_take _ n).mem ht)
      exact .inr (.inr ⟨t, hq, h.start bootId now ht'⟩)

theorem Ok.exec {cfg : Config} {ok : World → Act → Prop} {w₀ w : World} (h₀ : w₀.Ok)
    (h : Exec (next cfg) ok w₀ w) : w.Ok :=
  h.invariant Ok (fun hw _ hs => hw.step (next_step hs)) h₀

end World

end Datad
