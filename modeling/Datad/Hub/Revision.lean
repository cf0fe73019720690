/-
  Datad/Hub/Revision.lean
  =======================
  **Revisions and sequence numbers.**  The log of all events tells the state of the
  hub: how often a block was published is its revision, and the last event of a block
  carries its stale flag and the data it published.  So consecutive events of a block
  differ, an event that takes a block to stale repeats the data before it, and one that
  brings it back carries the reply just read.
-/
import Datad.Hub.Feed

namespace Datad.Hub

open Trace

/-- The events of one block. -/
def history (name : String) (l : List Event) : List BlockEvent :=
  l.filterMap fun
    | .block e => if e.name = name then some e else none
    | .heartbeat _ => none

/-- The stale flag the log says: blocks start stale. -/
def staleAfter (name : String) (l : List Event) : Bool :=
  (history name l).getLast?.elim true (·.stale)

theorem history_append (name : String) (l l' : List Event) :
    history name (l ++ l') = history name l ++ history name l' :=
  List.filterMap_append

theorem history_block_self (e : BlockEvent) : history e.name [.block e] = [e] := by
  simp [history]

theorem history_block_ne {name : String} {e : BlockEvent} (h : e.name ≠ name) :
    history name [.block e] = [] := by
  simp [history, h]

theorem staleAfter_eq {name : String} {l : List Event} {e : BlockEvent}
    (he : e ∈ (history name l).getLast?) : staleAfter name l = e.stale := by
  rw [staleAfter, Option.mem_def.mp he]
  rfl

theorem exists_of_staleAfter {name : String} {l : List Event}
    (h : staleAfter name l = false) : ∃ e ∈ (history name l).getLast?, e.stale = false := by
  rcases hlast : (history name l).getLast? with _ | e
  · rw [staleAfter, hlast] at h
    cases h
  · rw [staleAfter, hlast] at h
    exact ⟨e, rfl, h⟩

/-- A block and its events. -/
structure Face.Logged (f : Face) (l : List Event) : Prop where
  revision : f.revision = (history f.name l).length
  stale : f.stale = staleAfter f.name l
  data : ∀ e ∈ (history f.name l).getLast?, f.published = some e.data

/-- The hub and its log. -/
structure Logged (l : List Event) (g : Inner) : Prop where
  names : (names g).Nodup
  sound : Sound g
  faces : ∀ b ∈ g.blocks, b.face.Logged l

variable {fresh : Nat → Value → Prop} {beat : Prop} {g g' : Inner} {o : Option Event}
  {l : List Event} {i : Nat} {b b' : Block}

/-! ### One publication -/

/-- A block that publishes has published before or does so now. -/
theorem Turns.published (ht : Turns fresh i b b') (hb : b.Sound) (hb' : b'.Sound) :
    b'.published = some b'.view.data := by
  have hsome : b'.published.isSome := by
    cases ht with
    | toStale h h' hp => exact hp ▸ (hb h).2
    | toFresh h h' d hp hd => simp [hp]
    | change h h' hp => exact (hb' h').2
  obtain ⟨d, hd⟩ := Option.isSome_iff_exists.mp hsome
  simp [Block.view, hd]

theorem Face.Logged.publish (hl : b.face.Logged l) (hname : b'.spec.name = b.spec.name)
    (hrev : b'.revision = b.revision + 1) (hpub : b'.published = some b'.view.data)
    (seq : Nat) : b'.face.Logged (l ++ [.block ⟨b'.view, seq⟩]) := by
  have hhist : history b'.face.name (l ++ [.block ⟨b'.view, seq⟩]) =
      history b.face.name l ++ [⟨b'.view, seq⟩] := by
    rw [history_append]
    congr 1
    · exact congrArg (history · l) hname
    · exact history_block_self ⟨b'.view, seq⟩
  constructor
  · rw [hhist, List.length_append, ← hl.revision]
    exact hrev
  · rw [staleAfter, hhist, List.getLast?_concat]
    rfl
  · rw [hhist, List.getLast?_concat]
    intro e he
    obtain rfl := Option.mem_some_iff.mp he
    exact hpub

theorem Face.Logged.other {f : Face} (hl : f.Logged l) {l' : List Event}
    (hother : history f.name l' = []) : f.Logged (l ++ l') := by
  have hhist : history f.name (l ++ l') = history f.name l := by
    rw [history_append, hother, List.append_nil]
  constructor
  · rw [hhist]; exact hl.revision
  · rw [staleAfter, hhist]; exact hl.stale
  · rw [hhist]; exact hl.data

theorem Logged.micro (h : Logged l g) (hm : Micro fresh beat g o g') :
    Logged (l ++ o.toList) g' := by
  refine ⟨hm.names_eq ▸ h.names, hm.sound h.sound, ?_⟩
  have hnames := h.names
  cases hm with
  | touch hseq hface hs =>
    rw [Option.toList_none, List.append_nil]
    intro x hx
    have hmem : x.face ∈ g.blocks.map Block.face := hface ▸ List.mem_map_of_mem hx
    obtain ⟨y, hy, heq⟩ := List.mem_map.mp hmem
    exact heq ▸ h.faces y hy
  | @publish i b b' hb hname hrev ht hs =>
    have hbm := List.mem_of_getElem? hb
    intro x hx
    obtain ⟨j, hj⟩ := List.mem_iff_getElem?.mp hx
    dsimp only at hj
    by_cases hij : i = j
    · subst hij
      rw [List.getElem?_set_self (List.getElem?_eq_some_iff.mp hb).1] at hj
      cases hj
      exact (h.faces b hbm).publish hname hrev (ht.published (h.sound b hbm) hs) _
    · rw [List.getElem?_set_ne hij] at hj
      refine (h.faces x (List.mem_of_getElem? hj)).other (history_block_ne ?_)
      -- two blocks of one name would be the same block
      intro heq
      exact hij (index_eq_of_key hnames hb hj (hname.symm.trans heq))
  | beat hbeat now age =>
    intro x hx
    exact (h.faces x hx).other rfl

/-! ### What each event says -/

/-- What the log promises about an event that follows it; `newest` are the data with
    which the block of that name may come back. -/
structure Follows (newest : String → Value → Prop) (l : List Event) (e : BlockEvent) :
    Prop where
  differs : ∀ e' ∈ (history e.name l).getLast?, (e'.stale, e'.data) ≠ (e.stale, e.data)
  toStale : e.stale = true →
    ∃ e' ∈ (history e.name l).getLast?, e'.stale = false ∧ e'.data = e.data
  toFresh : staleAfter e.name l = true → e.stale = false → newest e.name e.data

theorem Logged.follows (h : Logged l g) {e : BlockEvent} {newest : String → Value → Prop}
    (hm : Micro fresh beat g (some (.block e)) g')
    (hnew : ∀ i d b, fresh i d → g.blocks[i]? = some b → newest b.spec.name d) :
    Follows newest l e := by
  cases hm with
  | @publish i b b' hb hname hrev ht hs =>
    have hbm := List.mem_of_getElem? hb
    have hl : b.face.Logged l := h.faces b hbm
    have hpub := ht.published (h.sound b hbm) hs
    have hhist : history b'.view.name l = history b.face.name l := congrArg (history · l) hname
    have hstale : staleAfter b'.view.name l = b.stale :=
      (congrArg (staleAfter · l) hname).trans hl.stale.symm
    have hlast : ∀ e' ∈ (history b'.view.name l).getLast?,
        e'.stale = b.stale ∧ b.published = some e'.data := by
      intro e' he'
      exact ⟨(staleAfter_eq he').symm.trans hstale, hl.data e' (hhist ▸ he')⟩
    cases ht with
    | toStale h₀ h₁ hp =>
      constructor
      · intro e' he' heq
        rw [Prod.mk.injEq, (hlast e' he').1, h₀] at heq
        exact absurd (heq.1.trans h₁) (by simp)
      · intro _
        obtain ⟨e', he', hfr⟩ := exists_of_staleAfter (hstale.trans h₀)
        refine ⟨e', he', hfr, ?_⟩
        rw [hp, (hlast e' he').2] at hpub
        exact Option.some.inj hpub
      · intro _ hfr
        exact absurd (h₁.symm.trans hfr) (by simp)
    | toFresh h₀ h₁ d hp hd =>
      have hdata : b'.view.data = d := Option.some.inj (hpub.symm.trans hp)
      constructor
      · intro e' he' heq
        rw [Prod.mk.injEq, (hlast e' he').1, h₀] at heq
        exact absurd (heq.1.trans h₁) (by simp)
      · intro hst
        exact absurd (hst.symm.trans h₁) (by simp)
      · intro _ _
        show newest b'.spec.name b'.view.data
        rw [hname, hdata]
        exact hnew i d b hd hb
    | change h₀ h₁ hp =>
      constructor
      · intro e' he' heq
        rw [Prod.mk.injEq] at heq
        exact hp (hpub.trans ((hlast e' he').2.trans (congrArg some heq.2)).symm)
      · intro hst
        exact absurd (hst.symm.trans h₁) (by simp)
      · intro hst _
        exact absurd (hstale.symm.trans hst) (by simp [h₀])

/-! ### Whole runs -/

theorem new_logged (specs : List BlockSpec) (hn : (specs.map BlockSpec.name).Nodup) :
    Logged [] (new specs) := by
  refine ⟨names_new specs ▸ hn, new_sound specs, ?_⟩
  intro b hb
  obtain ⟨spec, -, rfl⟩ := List.mem_map.mp hb
  exact ⟨rfl, rfl, fun e he => nomatch he⟩

theorem Logged.run (h : Logged l g) (ops : List Op) :
    Logged (l ++ (run g ops).2) (run g ops).1 :=
  (run_emits h.sound ops).invariant Logged Logged.micro h

/-- The data an operation has just read for the block of this name. -/
def Op.newest (g : Inner) (op : Op) (name : String) (d : Value) : Prop :=
  ∃ i b v, op.read g = some (i, v) ∧ g.blocks[i]? = some b ∧ b.spec.name = name ∧
    d = shape g.blocks b.spec v

theorem Logged.step_follows (h : Logged l g) {op : Op} {pre post : List Event}
    {e : BlockEvent} (he : (step g op).2 = pre ++ .block e :: post) :
    Follows (op.newest g) (l ++ pre) e := by
  have hall := (step_emits h.sound op).each
    (fun l' g' => Logged l' g' ∧ Hub.names g' = Hub.names g)
    (fun l' ev => ∀ e, ev = .block e → Follows (op.newest g) l' e)
    (fun hinv hm => ⟨hinv.1.micro hm, hm.names_eq.trans hinv.2⟩)
    (fun {l'} {g'} {ev} {g''} hinv hm => by
      rintro e rfl
      apply hinv.1.follows hm
      rintro i d b' ⟨b, v, hread, hb, rfl⟩ hb'
      have hname : b.spec.name = b'.spec.name := by
        have hi := congrArg (·[i]?) hinv.2
        simpa [Hub.names, hb, hb'] using hi.symm
      exact ⟨i, b, v, hread, hb, hname, rfl⟩)
    ⟨h, rfl⟩ he
  exact hall e rfl

/-- **Revision and sequence discipline.**  In every run the revision of a block is the
    number of its events and the sequence number the number of all events; and every
    further event of a block differs from the one before it, repeats its data when it
    takes the block to stale, and carries the data just read when it brings it back. -/
theorem revision_discipline (specs : List BlockSpec)
    (hn : (specs.map BlockSpec.name).Nodup) (ops : List Op) :
    let g := (run (new specs) ops).1
    let log := (run (new specs) ops).2
    (∀ b ∈ g.blocks, b.revision = (history b.spec.name log).length) ∧
      g.seq = log.length ∧ log.map Event.seq = List.range' 1 log.length ∧
      ∀ op pre e post, (step g op).2 = pre ++ .block e :: post →
        (∀ e' ∈ (history e.name (log ++ pre)).getLast?,
          (e'.stale, e'.data) ≠ (e.stale, e.data)) ∧
        (staleAfter e.name (log ++ pre) = true → e.stale = false →
          ∃ i b v, op.read g = some (i, v) ∧ g.blocks[i]? = some b ∧ b.spec.name = e.name ∧
            e.data = shape g.blocks b.spec v) ∧
        (e.stale = true → ∃ e' ∈ (history e.name (log ++ pre)).getLast?,
          e'.stale = false ∧ e'.data = e.data) := by
  intro g log
  have hlog : Logged log g := by simpa using (new_logged specs hn).run ops
  have hsync := (Synced.start (names_new specs ▸ hn)).run (new_sound specs) ops
  rw [List.nil_append] at hsync
  refine ⟨fun b hb => (hlog.faces b hb).revision, ?_, hsync.numbered, ?_⟩
  · exact hsync.seq.trans (Nat.zero_add _)
  · intro op pre e post he
    have hfol := hlog.step_follows he
    exact ⟨hfol.differs, hfol.toFresh, hfol.toStale⟩

/-- The battery is read, then a read of it fails: the second event repeats the data. -/
theorem sample_failure_repeats_data :
    let g := (run (new sampleSpecs) sampleReads).1
    let log := (run (new sampleSpecs) sampleReads).2
    let e : BlockEvent := ⟨⟨"battery", 2, 100, true, .obj []⟩, 3⟩
    (sampleSpecs.map BlockSpec.name).Nodup ∧
      (step g (.recordRead 0 (.error "timeout") 3 101)).2 = [.block e] ∧
      ∃ e' ∈ (history "battery" log).getLast?, e'.stale = false ∧ e'.data = e.data := by
  have hn : (sampleSpecs.map BlockSpec.name).Nodup := phase1Blocks_names_nodup _ _ _
  have he : (step (run (new sampleSpecs) sampleReads).1
      (.recordRead 0 (.error "timeout") 3 101)).2 =
      [.block ⟨⟨"battery", 2, 100, true, .obj []⟩, 3⟩] := by decide +kernel
  have hrun := (revision_discipline sampleSpecs hn sampleReads).2.2.2 _ [] _ [] he
  rw [List.append_nil] at hrun
  exact ⟨hn, he, hrun.2.2 rfl⟩

end Datad.Hub
