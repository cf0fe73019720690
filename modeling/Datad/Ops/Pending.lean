/-
  Datad/Ops/Pending.lean
  ======================
  **The files of the engine** (`ops/pending.rs`) on a file system that loses what was not
  synced.

  `Datad.Ops.World` lets a process die after any number of the effects of a section, and
  finds exactly these on the disk.  Here an effect is what `write_atomic`, `remove_file` and
  `sync_dir` do, step by step: wherever in a section the process is killed or the power
  lost, what is read afterwards is what that model says (`Codec.section_crash`).  And where
  writes do fail, nothing unreadable is ever found (`Codec.life_readable`).
-/
import Mathlib.Logic.Relation
import Datad.Lib.CrashFs
import Datad.Ops.OpBlock
import Datad.Ops.World

namespace Datad

open CrashFs

/-! ### Names and contents -/

inductive StoreFile where
  | pending
  | last
  | takeover
  | notice
deriving DecidableEq

def StoreFile.name : StoreFile → String
  | .pending => "pending.json"
  | .last => "last.json"
  | .takeover => "takeover"
  | .notice => "notice.json"

/-- The name `write_atomic` writes to first. -/
def StoreFile.tmp : StoreFile → String
  | .pending => ".pending.json.tmp"
  | .last => ".last.json.tmp"
  | .takeover => ".takeover.tmp"
  | .notice => ".notice.json.tmp"

def storeNames : Naming StoreFile String where
  file := StoreFile.name
  tmp := StoreFile.tmp
  file_inj t u h := by cases t <;> cases u <;> first | rfl | exact absurd h (by decide)
  tmp_inj t u h := by cases t <;> cases u <;> first | rfl | exact absurd h (by decide)
  apart t u := by cases t <;> cases u <;> decide

/-- What is written to the files and read from them.  What was written is read again. -/
structure Codec (B : Type) where
  writeTxn : Txn → B
  readTxn : B → Option Txn
  writeLast : Last → B
  readLast : B → Option Last
  writeNotices : List String → B
  readNotices : B → Option (List String)
  read_txn : ∀ t, readTxn (writeTxn t) = some t
  read_last : ∀ l, readLast (writeLast l) = some l
  read_notices : ∀ ns, readNotices (writeNotices ns) = some ns

abbrev Contents (B : Type) := StoreFile → Option B

/-- What an effect does to a file: `none` where it does nothing to these. -/
abbrev Change (B : Type) := Option (StoreFile × Option B)

namespace Codec

variable {B : Type} (c : Codec B)

def load (w : Contents B) : Option Txn := (w .pending).bind c.readTxn

def loadLast (w : Contents B) : Option Last := (w .last).bind c.readLast

def loadNotices (w : Contents B) : List String := ((w .notice).bind c.readNotices).getD []

def noticeAcked (w : Contents B) (notice : String) : Bool :=
  (c.loadNotices w).any fun n => decide (n = notice)

/-- What `save_notice_ack` writes. -/
def withAck (w : Contents B) (notice : String) : List String :=
  if c.noticeAcked w notice then c.loadNotices w else c.loadNotices w ++ [notice]

def change (w : Contents B) : Effect → Change B
  | .save t => some (.pending, some (c.writeTxn t))
  | .clear => some (.pending, none)
  | .saveLast l => some (.last, some (c.writeLast l))
  | .saveNotice => some (.notice, some (c.writeNotices (c.withAck w NOTICE_ROLLBACK_ON)))
  | .takeTakeover => some (.takeover, none)
  | .append _ | .setOwner .. | .publish _ => none

def apply (w : Contents B) (e : Effect) : Contents B :=
  match c.change w e with
  | none => w
  | some (t, o) => Function.update w t o

def applyAll (w : Contents B) (fx : List Effect) : Contents B := fx.foldl c.apply w

/-- The files as the model of the engine has them. -/
structure Reads (d : Disk) (w : Contents B) : Prop where
  pending : c.load w = d.pending
  last : c.loadLast w = d.last
  takeover : (w .takeover).isSome = d.takeover
  notice : c.noticeAcked w NOTICE_ROLLBACK_ON = d.notice

variable {c}

theorem noticeAcked_withAck (w : Contents B) (notice : String) :
    (c.withAck w notice).any (fun n => decide (n = notice)) = true := by
  unfold withAck
  split
  · assumption
  · simp

/-- **An effect does to the files what the model of the engine says.** -/
theorem Reads.apply {d : Disk} {w : Contents B} (h : c.Reads d w) (e : Effect) :
    c.Reads (d.apply e) (c.apply w e) := by
  cases e with
  | save t =>
    exact
      { pending := c.read_txn t
        last := h.last
        takeover := h.takeover
        notice := h.notice }
  | clear => exact { h with pending := rfl }
  | saveLast l =>
    exact
      { pending := h.pending
        last := c.read_last l
        takeover := h.takeover
        notice := h.notice }
  | saveNotice =>
    refine { h with notice := ?_ }
    show ((c.readNotices _).getD []).any _ = true
    rw [c.read_notices]
    exact noticeAcked_withAck w _
  | takeTakeover => exact { h with takeover := rfl }
  | append line => exact ⟨h.pending, h.last, h.takeover, h.notice⟩
  | setOwner item source undo value opId => exact h
  | publish st => exact h

theorem Reads.applyAll {d : Disk} {w : Contents B} (h : c.Reads d w) (fx : List Effect) :
    c.Reads (d.applyAll fx) (c.applyAll w fx) := by
  induction fx generalizing d w with
  | nil => exact h
  | cons e fx ih => exact ih (h.apply e)

end Codec

/-! ### Carrying effects out -/

/-- The files, and the effects that are not carried out yet. -/
structure Section (B : Type) where
  st : State String StoreFile B
  todo : List Effect

namespace Section

variable {B : Type} (c : Codec B)

def cur (s : Section B) : Contents B := s.st.fs.view storeNames s.st.fs.dir

/-- What the effect being carried out does. -/
def wants (s : Section B) : Change B :=
  match s.todo with
  | e :: _ => c.change s.cur e
  | [] => none

/-- What the process does of its own accord, and what is left to do then. -/
inductive Does : Section B → Label StoreFile B → List Effect → Prop
  | start {s : Section B} {t : StoreFile} {v : B} (h : s.wants c = some (t, some v)) :
      Does s (.start t v) s.todo
  | work (s : Section B) : Does s .work s.todo
  | put (s : Section B) (t : StoreFile) (v : B) : Does s (.put t v) s.todo
  | drop {s : Section B} {t : StoreFile} (h : s.wants c = some (t, none)) :
      Does s (.drop t) s.todo
  | settle (s : Section B) (t : StoreFile) : Does s (.settle t) s.todo.tail
  | others (s : Section B) : Does s .others s.todo

/-- A step in which nothing fails. -/
inductive Step (empty : B) : Section B → Section B → Prop
  | fs {s : Section B} {l : Label StoreFile B} {todo : List Effect}
      {st : State String StoreFile B} (hd : Does c s l todo)
      (h : CrashFs.Step storeNames empty s.st l st) : Step empty s ⟨st, todo⟩
  /-- The effect is about no file, or there is none to remove. -/
  | skip {s : Section B} {e : Effect} {rest : List Effect} (htodo : s.todo = e :: rest)
      (hidle : ∀ t, s.st.pos t = .idle)
      (h : ∀ t o, c.change s.cur e = some (t, o) → o = none ∧ s.cur t = none) :
      Step empty s ⟨s.st, rest⟩

/-! ### One section -/

def older (s : Section B) : List (Contents B) := (s.st.fs.versions storeNames).older

/-- A replacement is under way, and this is what is written. -/
def Carries (p : Pos B) (v : B) : Prop := p = .created v ∨ p = .written v ∨ p = .synced v

/-- Where a section of the effects `fx` is: it has carried out some of them, and the files are
    as before the next one, or as behind it.  `O` is what had not been synced before. -/
inductive Stage (O : List (Contents B)) (w : Contents B) (fx : List Effect) (s : Section B) : Prop
  | before (pre : List Effect) (hfx : fx = pre ++ s.todo) (hcur : s.cur = c.applyAll w pre)
      (holder : ∀ v ∈ s.older, v = c.applyAll w pre ∨ v ∈ O)
      (hpos : ∀ t, s.st.pos t = .idle ∨
        ∃ v, Carries (s.st.pos t) v ∧ s.wants c = some (t, some v))
  | behind (pre : List Effect) (e : Effect) (rest : List Effect) (htodo : s.todo = e :: rest)
      (hfx : fx = pre ++ e :: rest) (hcur : s.cur = c.applyAll w (pre ++ [e]))
      (holder : ∀ v ∈ s.older, v = c.applyAll w pre ∨ v = c.applyAll w (pre ++ [e]) ∨ v ∈ O)
      (t : StoreFile) (hchange : ∃ w' o, c.change w' e = some (t, o))
      (hmoved : s.st.pos t = .moved) (hidle : ∀ u, u ≠ t → s.st.pos u = .idle)

variable {c}

theorem change_file {w w' : Contents B} {e : Effect} {t u : StoreFile} {o o' : Option B}
    (h : c.change w e = some (t, o)) (h' : c.change w' e = some (u, o')) : t = u := by
  cases e <;> cases h <;> cases h' <;> rfl

theorem applyAll_snoc (w : Contents B) (pre : List Effect) (e : Effect) :
    c.applyAll w (pre ++ [e]) = c.apply (c.applyAll w pre) e := by
  rw [Codec.applyAll, List.foldl_append]
  rfl

theorem wants_cases {s : Section B} {t : StoreFile} {o : Option B} (h : s.wants c = some (t, o)) :
    ∃ e rest, s.todo = e :: rest ∧ c.change s.cur e = some (t, o) := by
  unfold wants at h
  split at h
  · rename_i e rest htodo
    exact ⟨e, rest, htodo, h⟩
  · cases h

theorem apply_of_change {w : Contents B} {e : Effect} {t : StoreFile} {o : Option B}
    (h : c.change w e = some (t, o)) : c.apply w e = Function.update w t o := by
  rw [Codec.apply, h]

theorem wants_congr {s : Section B} {st : State String StoreFile B}
    (h : (Section.mk st s.todo).cur = s.cur) : (Section.mk st s.todo).wants c = s.wants c := by
  unfold wants
  rw [h]

/-- The file has its new content, or is gone: what follows is that the directory is synced. -/
theorem Stage.moved {O : List (Contents B)} {w : Contents B} {fx : List Effect} {s : Section B}
    {st : State String StoreFile B} {t : StoreFile} {o : Option B} {pre : List Effect}
    (hfx : fx = pre ++ s.todo) (hcur : s.cur = c.applyAll w pre)
    (holder : ∀ v ∈ s.older, v = c.applyAll w pre ∨ v ∈ O)
    (hpos : ∀ t, s.st.pos t = .idle ∨ ∃ v, Carries (s.st.pos t) v ∧ s.wants c = some (t, some v))
    (hwants : s.wants c = some (t, o))
    (hversions : st.fs.versions storeNames =
      ⟨(s.st.fs.versions storeNames).all, Function.update s.cur t o⟩)
    (hst : st.pos = Function.update s.st.pos t .moved) : Stage c O w fx ⟨st, s.todo⟩ := by
  obtain ⟨e, rest, htodo, hchange⟩ := wants_cases hwants
  refine .behind pre e rest htodo (by rw [hfx, htodo]) ?_ ?_ t ⟨_, _, hchange⟩ ?_ ?_
  · show (st.fs.versions storeNames).cur = _
    rw [hversions, applyAll_snoc, ← hcur, apply_of_change hchange]
  · intro v hv
    rw [older, hversions] at hv
    rcases Versions.mem_all.mp hv with hv | rfl
    · exact (holder v hv).imp_right Or.inr
    · exact Or.inl hcur
  · show st.pos t = .moved
    rw [hst, Function.update_self]
  · intro u hu
    show st.pos u = .idle
    rw [hst, Function.update_of_ne hu]
    rcases hpos u with h | ⟨v, -, h⟩
    · exact h
    · rw [hwants] at h
      exact absurd (congrArg Prod.fst (Option.some.inj h)).symm hu

/-- No reader sees a difference, and what the replacements carry is still wanted. -/
theorem Stage.silent {O : List (Contents B)} {w : Contents B} {fx : List Effect} {s : Section B}
    {st : State String StoreFile B} {l : Label StoreFile B} {pre : List Effect}
    (hfx : fx = pre ++ s.todo) (hcur : s.cur = c.applyAll w pre)
    (holder : ∀ v ∈ s.older, v = c.applyAll w pre ∨ v ∈ O)
    (hstep : Versions.Step (s.st.fs.versions storeNames) l (st.fs.versions storeNames))
    (hl : l.silent = true)
    (hpos : ∀ t, st.pos t = .idle ∨ ∃ v, Carries (st.pos t) v ∧ s.wants c = some (t, some v)) :
    Stage c O w fx ⟨st, s.todo⟩ := by
  obtain ⟨hsame, hall⟩ := hstep.silent_cases hl
  refine .before pre hfx (Eq.trans hsame hcur) (fun v hv => ?_) fun t => ?_
  · rcases Versions.mem_all.mp (hall v hv) with hv | rfl
    · exact holder v hv
    · exact Or.inl hcur
  · rw [wants_congr hsame]
    exact hpos t

/-- One replacement gets on. -/
theorem wanted_update {s : Section B} {t : StoreFile} {v : B} {p : Pos B}
    (hpos : ∀ t, s.st.pos t = .idle ∨ ∃ v, Carries (s.st.pos t) v ∧ s.wants c = some (t, some v))
    (hwants : s.wants c = some (t, some v)) (hp : Carries p v) (u : StoreFile) :
    Function.update s.st.pos t p u = .idle ∨
      ∃ v, Carries (Function.update s.st.pos t p u) v ∧ s.wants c = some (u, some v) := by
  by_cases hut : u = t
  · subst hut
    rw [Function.update_self]
    exact Or.inr ⟨v, hp, hwants⟩
  · rw [Function.update_of_ne hut]
    exact hpos u

/-- What is being written is what is wanted. -/
theorem wants_of_pos {s : Section B} {t : StoreFile} {v : B}
    (hpos : ∀ t, s.st.pos t = .idle ∨ ∃ v, Carries (s.st.pos t) v ∧ s.wants c = some (t, some v))
    (hp : Carries (s.st.pos t) v) : s.wants c = some (t, some v) := by
  rcases hpos t with h | ⟨v', hv', hwants⟩
  · rw [h] at hp
    rcases hp with hp | hp | hp <;> cases hp
  · have hsame : v' = v := by
      rcases hp with hp | hp | hp <;> rw [hp] at hv' <;> rcases hv' with h | h | h <;> cases h <;> rfl
    rw [← hsame]
    exact hwants

theorem Stage.step {O : List (Contents B)} {w : Contents B} {fx : List Effect} {empty : B}
    {s s' : Section B} (h : Stage c O w fx s) (hsound : s.st.Sound storeNames)
    (hs : Step c empty s s') : Stage c O w fx s' := by
  cases hs with
  | fs hd hfs =>
    have hstep := hfs.refines hsound
    cases h with
    | before pre hfx hcur holder hpos =>
      cases hd with
      | start hwants =>
        cases hfs with
        | cut => exact .silent hfx hcur holder hstep rfl (wanted_update hpos hwants (Or.inl rfl))
        | create =>
          exact .silent hfx hcur holder hstep rfl (wanted_update hpos hwants (Or.inl rfl))
      | work =>
        cases hfs with
        | write hp =>
          have hwants := wants_of_pos hpos (Or.inl hp)
          exact .silent hfx hcur holder hstep rfl
            (wanted_update hpos hwants (Or.inr (Or.inl rfl)))
        | sync hp =>
          have hwants := wants_of_pos hpos (Or.inr (Or.inl hp))
          exact .silent hfx hcur holder hstep rfl
            (wanted_update hpos hwants (Or.inr (Or.inr rfl)))
      | put t v =>
        have hversions := hstep.put_cases
        cases hfs with
        | rename hp =>
          exact .moved hfx hcur holder hpos (wants_of_pos hpos (Or.inr (Or.inr hp))) hversions rfl
      | drop hwants =>
        have hversions := hstep.drop_cases
        cases hfs with
        | remove => exact .moved hfx hcur holder hpos hwants hversions rfl
      | settle t =>
        cases hfs with
        | settle hp =>
          rcases hpos t with h | ⟨v, h | h | h, -⟩ <;> rw [hp] at h <;> cases h
      | others =>
        cases hfs with
        | others => exact .silent hfx hcur holder hstep rfl hpos
    | behind pre e rest htodo hfx hcur holder t hchange hmoved hidle =>
      have hnot : ∀ u v, s.st.pos u ≠ .idle → ¬ Carries (s.st.pos u) v := by
        rintro u v hu (hp | hp | hp)
        all_goals
          by_cases hut : u = t
          · rw [hut, hmoved] at hp
            cases hp
          · exact hu (hidle u hut)
      have hbusy : ∀ u o, s.wants c = some (u, o) → s.st.pos u = .moved := by
        intro u o hu
        obtain ⟨e', rest', htodo', hu⟩ := wants_cases hu
        rw [htodo] at htodo'
        cases htodo'
        obtain ⟨w', o', hchange⟩ := hchange
        rw [← change_file hchange hu]
        exact hmoved
      cases hd with
      | start hwants =>
        have hpos := hbusy _ _ hwants
        cases hfs with
        | cut v hp => rw [hpos] at hp; cases hp
        | create v hp => rw [hpos] at hp; cases hp
      | work =>
        cases hfs with
        | write hp => exact absurd (Or.inl hp) (hnot _ _ (by rw [hp]; nofun))
        | sync hp => exact absurd (Or.inr (Or.inl hp)) (hnot _ _ (by rw [hp]; nofun))
      | put u v =>
        cases hfs with
        | rename hp => exact absurd (Or.inr (Or.inr hp)) (hnot _ _ (by rw [hp]; nofun))
      | drop hwants =>
        have hpos := hbusy _ _ hwants
        cases hfs with
        | remove hp => rw [hpos] at hp; cases hp
      | settle u =>
        have hversions := hstep.settle_cases
        cases hfs with
        | settle hp =>
          have hut : u = t := by
            by_contra hut
            rw [hidle u hut] at hp
            cases hp
          refine .before (pre ++ [e]) ?_ ?_ (fun v hv => ?_) fun x => Or.inl ?_
          · rw [hfx, htodo]
            simp
          · exact (congrArg Versions.cur hversions).trans hcur
          · rw [older, hversions] at hv
            cases hv
          · show Function.update s.st.pos u .idle x = .idle
            by_cases hx : x = u
            · rw [hx, Function.update_self]
            · rw [Function.update_of_ne hx]
              exact hidle x (hut ▸ hx)
      | others =>
        obtain ⟨hsame, hall⟩ := hstep.silent_cases rfl
        cases hfs with
        | others =>
          refine .behind pre e rest htodo hfx (Eq.trans hsame hcur) (fun v hv => ?_) t hchange
            hmoved hidle
          rcases Versions.mem_all.mp (hall v hv) with hv | rfl
          · exact holder v hv
          · exact Or.inr (Or.inl hcur)
  | @skip e rest htodo hrest hnothing =>
    cases h with
    | before pre hfx hcur holder hpos =>
      have hkeep : c.apply s.cur e = s.cur := by
        rcases hchange : c.change s.cur e with _ | ⟨t, o⟩
        · rw [Codec.apply, hchange]
        · obtain ⟨rfl, hnone⟩ := hnothing t o hchange
          rw [apply_of_change hchange]
          exact Function.update_eq_self_iff.mpr hnone.symm
      have hnext : c.applyAll w (pre ++ [e]) = c.applyAll w pre := by
        rw [applyAll_snoc, ← hcur]
        exact hkeep
      refine .before (pre ++ [e]) ?_ ?_ (fun v hv => ?_) fun t => Or.inl (hrest t)
      · rw [hfx, htodo]
        simp
      · rw [hnext]
        exact hcur
      · rw [hnext]
        exact holder v hv
    | behind pre e' rest' htodo' hfx hcur holder t hchange hmoved hidle =>
      rw [hrest t] at hmoved
      cases hmoved

theorem Step.sound {empty : B} {s s' : Section B} (h : s.st.Sound storeNames)
    (hs : Step c empty s s') : s'.st.Sound storeNames := by
  cases hs with
  | fs _ hfs => exact h.step hfs
  | skip => exact h

/-- How many of the effects have been carried out, as `World` counts them. -/
theorem Stage.crash {O : List (Contents B)} {w : Contents B} {fx : List Effect} {empty : B}
    {s : Section B} (h : Stage c O w fx s) (hsound : s.st.Sound storeNames)
    {l : Label StoreFile B} {st : State String StoreFile B}
    (hs : CrashFs.Step storeNames empty s.st l st) (hl : l = .kill ∨ l = .lose) :
    (∃ n, n ≤ fx.length ∧
        (n + s.todo.length = fx.length ∨ n + s.todo.length = fx.length + 1) ∧
        (Section.mk st []).cur = c.applyAll w (fx.take n)) ∨
      l = .lose ∧ (Section.mk st []).cur ∈ O := by
  have hstep := hs.refines hsound
  have hfound : (Section.mk st []).cur = s.cur ∨
      l = .lose ∧ (Section.mk st []).cur ∈ s.older := by
    rcases hl with rfl | rfl
    · exact Or.inl (hstep.silent_cases rfl).1
    · obtain ⟨v, hv, hversions⟩ := hstep.lose_cases
      have hv' : (Section.mk st []).cur = v := congrArg Versions.cur hversions
      rw [hv']
      rcases Versions.mem_all.mp hv with hv | hv
      · exact Or.inr ⟨rfl, hv⟩
      · exact Or.inl hv
  cases h with
  | before pre hfx hcur holder _ =>
    have hcount : (Section.mk st []).cur = c.applyAll w pre →
        ∃ n, n ≤ fx.length ∧
          (n + s.todo.length = fx.length ∨ n + s.todo.length = fx.length + 1) ∧
          (Section.mk st []).cur = c.applyAll w (fx.take n) := fun h => by
      refine ⟨pre.length, by simp [hfx], Or.inl (by simp [hfx]), ?_⟩
      rw [h, hfx, List.take_left]
    rcases hfound with h | ⟨hl, h⟩
    · exact Or.inl (hcount (h.trans hcur))
    · exact (holder _ h).imp hcount fun h => ⟨hl, h⟩
  | behind pre e rest htodo hfx hcur holder _ _ _ _ =>
    have hfx' : fx = (pre ++ [e]) ++ rest := by simp [hfx]
    have hbefore : (Section.mk st []).cur = c.applyAll w pre →
        ∃ n, n ≤ fx.length ∧
          (n + s.todo.length = fx.length ∨ n + s.todo.length = fx.length + 1) ∧
          (Section.mk st []).cur = c.applyAll w (fx.take n) := fun h => by
      refine ⟨pre.length, by simp [hfx], Or.inl (by simp [hfx, htodo]), ?_⟩
      rw [h, hfx, List.take_left]
    have hbehind : (Section.mk st []).cur = c.applyAll w (pre ++ [e]) →
        ∃ n, n ≤ fx.length ∧
          (n + s.todo.length = fx.length ∨ n + s.todo.length = fx.length + 1) ∧
          (Section.mk st []).cur = c.applyAll w (fx.take n) := fun h => by
      refine ⟨(pre ++ [e]).length, by simp [hfx'], Or.inr ?_, ?_⟩
      · simp only [hfx, htodo, List.length_append, List.length_cons, List.length_nil]
        omega
      · rw [h, hfx', List.take_left]
    rcases hfound with h | ⟨hl, h⟩
    · exact Or.inl (hbehind (h.trans hcur))
    · rcases holder _ h with h | h | h
      · exact Or.inl (hbefore h)
      · exact Or.inl (hbehind h)
      · exact Or.inr ⟨hl, h⟩

end Section

/-- **A crash is what the model of the engine takes it for.**  If nothing fails and the process
    is killed, or the power lost, anywhere in a section, the files read as that model has them
    after the effects that were carried out, or after one more; but of a power loss, they may
    also be as something before the section had left them that was never synced. -/
theorem Codec.section_crash {B : Type} (c : Codec B) (empty : B)
    (s₀ : State String StoreFile B) (d : Disk) (fx : List Effect) (s : Section B)
    (l : Label StoreFile B) (st : State String StoreFile B) (hsound : s₀.Sound storeNames)
    (hidle : ∀ t, s₀.pos t = .idle) (hd : c.Reads d (s₀.fs.view storeNames s₀.fs.dir))
    (hrun : Relation.ReflTransGen (Section.Step c empty) ⟨s₀, fx⟩ s)
    (hcrash : CrashFs.Step storeNames empty s.st l st) (hl : l = .kill ∨ l = .lose) :
    (∃ n, n ≤ fx.length ∧
        (n + s.todo.length = fx.length ∨ n + s.todo.length = fx.length + 1) ∧
        c.Reads (d.applyAll (fx.take n)) (st.fs.view storeNames st.fs.dir)) ∨
      l = .lose ∧ st.fs.view storeNames st.fs.dir ∈ (s₀.fs.versions storeNames).older := by
  have hstage : s.st.Sound storeNames ∧ Section.Stage c (s₀.fs.versions storeNames).older
      (s₀.fs.view storeNames s₀.fs.dir) fx s := by
    clear hcrash
    induction hrun with
    | refl => exact ⟨hsound, .before [] rfl rfl (fun v hv => Or.inr hv) fun t => Or.inl (hidle t)⟩
    | tail _ hs ih => exact ⟨hs.sound ih.1, ih.2.step ih.1 hs⟩
  refine (hstage.2.crash hstage.1 hcrash hl).imp_left ?_
  rintro ⟨n, hn, hcount, hcur⟩
  refine ⟨n, hn, hcount, ?_⟩
  show c.Reads _ (Section.mk st []).cur
  rw [hcur]
  exact hd.applyAll _

section Examples

/-- Contents that are told apart by what was written. -/
inductive FileText where
  | empty
  | torn
  | txn (t : Txn)
  | last (l : Last)
  | notices (ns : List String)

def FileText.codec : Codec FileText where
  writeTxn := .txn
  readTxn
    | .txn t => some t
    | _ => none
  writeLast := .last
  readLast
    | .last l => some l
    | _ => none
  writeNotices := .notices
  readNotices
    | .notices ns => some ns
    | _ => none
  read_txn _ := rfl
  read_last _ := rfl
  read_notices _ := rfl

/-- A directory in which there is nothing. -/
def emptyStore : State String StoreFile FileText where
  fs :=
    { older := []
      dir := fun _ => none
      data := fun _ => .empty
      stable := fun _ => true
      next := 0 }
  pos _ := .idle

theorem emptyStore_sound : emptyStore.Sound storeNames := by
  have hdir : ∀ d ∈ emptyStore.fs.kept, ∀ n, d n = none := fun d hd n => by
    rw [List.mem_singleton.mp hd]
    rfl
  refine ⟨⟨fun _ _ _ _ _ => rfl, fun d hd t u i hi => ?_, fun d hd t u i hi => ?_,
    fun d hd t u i hi => ?_, fun d hd t i hi => ?_⟩, fun _ => trivial⟩
  · rw [hdir d hd] at hi
    cases hi
  · cases hi
  · rw [hdir d hd] at hi
    cases hi
  · rw [hdir d hd, hdir d hd] at hi
    rcases hi with hi | hi <;> cases hi

/-- The notice is acknowledged, and the power is lost before the directory is synced. -/
theorem section_crash_notice :
    ∃ (s : Section FileText) (st : State String StoreFile FileText),
      Relation.ReflTransGen (Section.Step FileText.codec .empty) ⟨emptyStore, [.saveNotice]⟩ s ∧
        CrashFs.Step storeNames .empty s.st .lose st ∧ s.todo = [.saveNotice] ∧
        ∃ n, n ≤ 1 ∧ FileText.codec.Reads (({} : Disk).applyAll ([Effect.saveNotice].take n))
          (st.fs.view storeNames st.fs.dir) := by
  have hcreated := Relation.ReflTransGen.single (r := Section.Step FileText.codec .empty)
    (a := ⟨emptyStore, [.saveNotice]⟩)
    (.fs (.start rfl)
      (.create (t := StoreFile.notice) (FileText.notices [NOTICE_ROLLBACK_ON]) rfl rfl))
  have hwritten := hcreated.tail (.fs (.work _) (.write (t := .notice) (i := 0) rfl rfl))
  have hsynced := hwritten.tail (.fs (.work _) (.sync (t := .notice) (i := 0) rfl rfl))
  have hrenamed := hsynced.tail (.fs (.put _ _ _) (.rename (t := .notice) (i := 0) rfl rfl))
  refine ⟨_, _, hrenamed, .power List.mem_cons_self fun _ => .torn, rfl, ?_⟩
  have hcrash := FileText.codec.section_crash .empty emptyStore {} [.saveNotice] _ .lose _
    emptyStore_sound (fun _ => rfl) ⟨rfl, rfl, rfl, rfl⟩ hrenamed
    (.power List.mem_cons_self fun _ => .torn) (Or.inr rfl)
  rcases hcrash with ⟨n, hn, -, hreads⟩ | ⟨-, hold⟩
  · exact ⟨n, hn, hreads⟩
  · exact absurd hold List.not_mem_nil

end Examples

/-! ### A whole life -/

/-- The engine over its crashes and restarts; `asked` are the effects of the sections begun. -/
structure Life (B : Type) where
  sec : Section B
  asked : List Effect

namespace Life

variable {B : Type} (c : Codec B)

inductive Step (empty : B) : Life B → Life B → Prop
  | does {s : Life B} {sec : Section B} (h : Section.Step c empty s.sec sec) :
      Step empty s ⟨sec, s.asked⟩
  /-- A line is logged, and the engine goes on. -/
  | fails {s : Life B} {t : StoreFile} {o : Option B} {st : State String StoreFile B}
      (hw : s.sec.wants c = some (t, o))
      (h : CrashFs.Step storeNames empty s.sec.st (.fail t) st) :
      Step empty s ⟨⟨st, s.sec.todo.tail⟩, s.asked⟩
  | crash {s : Life B} {l : Label StoreFile B} {st : State String StoreFile B}
      (h : CrashFs.Step storeNames empty s.sec.st l st) (hl : l = .kill ∨ l = .lose) :
      Step empty s ⟨⟨st, []⟩, s.asked⟩
  /-- Somebody writes the device behind the engine's back, and says so. -/
  | takeover {s : Life B} {v : B} {st : State String StoreFile B}
      (h : CrashFs.Step storeNames empty s.sec.st (.mark .takeover v) st) :
      Step empty s ⟨⟨st, s.sec.todo⟩, s.asked⟩
  | begins {s : Life B} (htodo : s.sec.todo = []) (fx : List Effect) :
      Step empty s ⟨⟨s.sec.st, fx⟩, s.asked ++ fx⟩

/-- Where the content of a file may come from. -/
def From (O : List (Contents B)) (asked : List Effect) (t : StoreFile) (b : B) : Prop :=
  (∃ w ∈ O, w t = some b) ∨ (∃ e ∈ asked, ∃ w, c.change w e = some (t, some b)) ∨ t = .takeover

structure Inv (O : List (Contents B)) (s : Life B) : Prop where
  sound : s.sec.st.Sound storeNames
  files : ∀ v ∈ (s.sec.st.fs.versions storeNames).all, ∀ t b, v t = some b → From c O s.asked t b
  carried : ∀ t v, Section.Carries (s.sec.st.pos t) v → From c O s.asked t v
  todo : ∀ e ∈ s.sec.todo, e ∈ s.asked

variable {c} {O : List (Contents B)} {empty : B}

theorem From.mono {asked fx : List Effect} {t : StoreFile} {b : B} (h : From c O asked t b) :
    From c O (asked ++ fx) t b := by
  rcases h with h | ⟨e, he, h⟩ | h
  · exact Or.inl h
  · exact Or.inr (Or.inl ⟨e, List.mem_append_left _ he, h⟩)
  · exact Or.inr (Or.inr h)

/-- What is carried after a step was carried before it, or has just been begun. -/
theorem carries_step {st st' : State String StoreFile B} {l : Label StoreFile B}
    (hs : CrashFs.Step storeNames empty st l st') {t : StoreFile} {v : B}
    (hv : Section.Carries (st'.pos t) v) :
    Section.Carries (st.pos t) v ∨ l = .start t v := by
  have hnone : ∀ p : Pos B, p = .idle ∨ p = .moved → ¬ Section.Carries p v := by
    rintro p (rfl | rfl) (h | h | h) <;> cases h
  have hother : ∀ {u : StoreFile} {p : Pos B}, t ≠ u →
      Section.Carries (Function.update st.pos u p t) v → Section.Carries (st.pos t) v :=
    fun htu h => by
      rw [Function.update_of_ne htu] at h
      exact h
  have hdone : ∀ {u : StoreFile} {p : Pos B}, p = .idle ∨ p = .moved →
      Section.Carries (Function.update st.pos u p t) v → Section.Carries (st.pos t) v := by
    intro u p hp h
    by_cases htu : t = u
    · rw [htu, Function.update_self] at h
      exact absurd h (hnone p hp)
    · exact hother htu h
  have hbegun : ∀ {u : StoreFile} {v' : B},
      Section.Carries (Function.update st.pos u (.created v') t) v →
      Section.Carries (st.pos t) v ∨ Label.start u v' = .start t v := by
    intro u v' h
    by_cases htu : t = u
    · rw [htu, Function.update_self] at h
      rcases h with h | h | h <;> cases h
      exact Or.inr (by rw [htu])
    · exact Or.inl (hother htu h)
  have hgoes : ∀ {u : StoreFile} {p p' : Pos B} {v' : B}, st.pos u = p → p = .created v' ∨
      p = .written v' → p' = .written v' ∨ p' = .synced v' →
      Section.Carries (Function.update st.pos u p' t) v → Section.Carries (st.pos t) v := by
    intro u p p' v' hu hp hp' h
    by_cases htu : t = u
    · rw [htu, Function.update_self] at h
      rw [htu, hu]
      rcases hp' with rfl | rfl <;> rcases h with h | h | h <;> cases h <;>
        rcases hp with rfl | rfl <;> simp [Section.Carries]
    · exact hother htu h
  cases hs with
  | cut => exact hbegun hv
  | create => exact hbegun hv
  | write hp => exact Or.inl (hgoes hp (Or.inl rfl) (Or.inl rfl) hv)
  | writeFails => exact Or.inl (hdone (Or.inl rfl) hv)
  | sync hp => exact Or.inl (hgoes hp (Or.inr rfl) (Or.inr rfl) hv)
  | fails => exact Or.inl (hdone (Or.inl rfl) hv)
  | rename => exact Or.inl (hdone (Or.inr rfl) hv)
  | remove => exact Or.inl (hdone (Or.inr rfl) hv)
  | settle => exact Or.inl (hdone (Or.inl rfl) hv)
  | mark => exact Or.inl hv
  | others => exact Or.inl hv
  | kill => exact absurd hv (hnone _ (Or.inl rfl))
  | power => exact absurd hv (hnone _ (Or.inl rfl))

theorem Inv.fs {s : Life B} (h : Inv c O s) {l : Label StoreFile B}
    {st : State String StoreFile B} (hs : CrashFs.Step storeNames empty s.sec.st l st)
    (hstart : ∀ t v, l = .start t v → From c O s.asked t v)
    (hmark : ∀ t v, l = .mark t v → t = .takeover) {todo : List Effect}
    (htodo : ∀ e ∈ todo, e ∈ s.asked) : Inv c O ⟨⟨st, todo⟩, s.asked⟩ where
  sound := h.sound.step hs
  files v hv t b hb := by
    rcases (hs.refines h.sound).from_put hv with hv | ⟨u, o, w, hw, rfl, hput⟩
    · exact h.files v hv t b hb
    · by_cases htu : t = u
      · subst htu
        rw [Function.update_self] at hb
        rcases hput b hb with rfl | rfl
        · cases hs with
          | rename hp => exact h.carried t b (Or.inr (Or.inr hp))
        · exact Or.inr (Or.inr (hmark t b rfl))
      · rw [Function.update_of_ne htu] at hb
        exact h.files w hw t b hb
  carried t v hv := by
    rcases carries_step hs hv with hv | hl
    · exact h.carried t v hv
    · exact hstart t v hl
  todo := htodo

theorem from_wants {s : Life B} (h : Inv c O s) {t : StoreFile} {v : B}
    (hw : s.sec.wants c = some (t, some v)) : From c O s.asked t v := by
  obtain ⟨e, rest, htodo, hchange⟩ := Section.wants_cases hw
  refine Or.inr (Or.inl ⟨e, h.todo e ?_, _, hchange⟩)
  rw [htodo]
  exact List.mem_cons_self

theorem Inv.step {s s' : Life B} (h : Inv c O s) (hs : Step c empty s s') : Inv c O s' := by
  cases hs with
  | does hsec =>
    cases hsec with
    | fs hd hfs =>
      cases hd with
      | start hw =>
        refine h.fs hfs (fun t v hl => ?_) (fun t v hl => nomatch hl) h.todo
        cases hl
        exact from_wants h hw
      | work => exact h.fs hfs nofun nofun h.todo
      | put => exact h.fs hfs nofun nofun h.todo
      | drop => exact h.fs hfs nofun nofun h.todo
      | settle =>
        exact h.fs hfs nofun nofun fun e he => h.todo e (List.mem_of_mem_tail he)
      | others => exact h.fs hfs nofun nofun h.todo
    | skip htodo =>
      refine ⟨h.sound, h.files, h.carried, fun e he => h.todo e ?_⟩
      rw [htodo]
      exact List.mem_cons_of_mem _ he
  | fails hw hfs =>
    exact h.fs hfs nofun nofun fun e he => h.todo e (List.mem_of_mem_tail he)
  | crash hfs hl =>
    rcases hl with rfl | rfl
    · exact h.fs hfs nofun nofun fun e he => absurd he List.not_mem_nil
    · exact h.fs hfs nofun nofun fun e he => absurd he List.not_mem_nil
  | takeover hfs =>
    refine h.fs hfs nofun (fun t v hl => ?_) h.todo
    cases hl
    rfl
  | begins htodo fx =>
    exact
      { sound := h.sound
        files := fun v hv t b hb => (h.files v hv t b hb).mono
        carried := fun t v hv => (h.carried t v hv).mono
        todo := fun e he => List.mem_append_right _ he }

theorem Inv.of_run {s₀ : State String StoreFile B} (hsound : s₀.Sound storeNames)
    (hidle : ∀ t, s₀.pos t = .idle) {s : Life B}
    (hrun : Relation.ReflTransGen (Step c empty) ⟨⟨s₀, []⟩, []⟩ s) :
    Inv c (s₀.fs.versions storeNames).all s := by
  induction hrun with
  | refl =>
    refine ⟨hsound, fun v hv t b hb => Or.inl ⟨v, hv, hb⟩, fun t v hv => ?_,
      fun e he => absurd he List.not_mem_nil⟩
    rw [show (⟨⟨s₀, []⟩, []⟩ : Life B).sec.st.pos t = .idle from hidle t] at hv
    rcases hv with h | h | h <;> cases h
  | tail _ hs ih => exact ih.step hs

end Life

/-- **Nothing unreadable is found**: whatever writes fail, and wherever the process is killed or
    the power lost, in every version of a file is what was there at first, or in whole what some
    section has saved. -/
theorem Codec.life_readable {B : Type} (c : Codec B) (empty : B)
    (s₀ : State String StoreFile B) (hsound : s₀.Sound storeNames)
    (hidle : ∀ t, s₀.pos t = .idle) (s : Life B)
    (hrun : Relation.ReflTransGen (Life.Step c empty) ⟨⟨s₀, []⟩, []⟩ s) (v : Contents B)
    (hv : v ∈ (s.sec.st.fs.versions storeNames).all) (b : B) :
    (v .pending = some b → (∃ w ∈ (s₀.fs.versions storeNames).all, w .pending = some b) ∨
        ∃ t, .save t ∈ s.asked ∧ c.readTxn b = some t) ∧
      (v .last = some b → (∃ w ∈ (s₀.fs.versions storeNames).all, w .last = some b) ∨
        ∃ l, .saveLast l ∈ s.asked ∧ c.readLast b = some l) ∧
      (v .notice = some b → (∃ w ∈ (s₀.fs.versions storeNames).all, w .notice = some b) ∨
        ∃ ns, .saveNotice ∈ s.asked ∧ c.readNotices b = some ns ∧ NOTICE_ROLLBACK_ON ∈ ns) := by
  have hinv := Life.Inv.of_run hsound hidle hrun
  refine ⟨fun hb => ?_, fun hb => ?_, fun hb => ?_⟩
  · rcases hinv.files v hv _ b hb with h | ⟨e, he, w, hw⟩ | h
    · exact Or.inl h
    · cases e <;> cases hw
      exact Or.inr ⟨_, he, c.read_txn _⟩
    · cases h
  · rcases hinv.files v hv _ b hb with h | ⟨e, he, w, hw⟩ | h
    · exact Or.inl h
    · cases e <;> cases hw
      exact Or.inr ⟨_, he, c.read_last _⟩
    · cases h
  · rcases hinv.files v hv _ b hb with h | ⟨e, he, w, hw⟩ | h
    · exact Or.inl h
    · cases e <;> cases hw
      refine Or.inr ⟨_, he, c.read_notices _, ?_⟩
      have hany := Codec.noticeAcked_withAck (c := c) w NOTICE_ROLLBACK_ON
      rw [List.any_eq_true] at hany
      obtain ⟨n, hn, heq⟩ := hany
      rw [decide_eq_true_iff] at heq
      exact heq ▸ hn
    · cases h

/-- The disk is full while the notice is written, and then the power is lost. -/
theorem life_readable_full :
    ∃ s : Life FileText, Relation.ReflTransGen (Life.Step FileText.codec .empty)
        ⟨⟨emptyStore, []⟩, []⟩ s ∧ s.asked = [.saveNotice] ∧
      ∀ v ∈ (s.sec.st.fs.versions storeNames).all, ∀ b, v .notice = some b →
        ∃ ns, FileText.codec.readNotices b = some ns ∧ NOTICE_ROLLBACK_ON ∈ ns := by
  have hbegun := Relation.ReflTransGen.single (r := Life.Step FileText.codec .empty)
    (a := ⟨⟨emptyStore, []⟩, []⟩) (.begins rfl [.saveNotice])
  have hcreated := hbegun.tail (.does (.fs (.start rfl)
    (.create (t := StoreFile.notice) (FileText.notices [NOTICE_ROLLBACK_ON]) rfl rfl)))
  have hfailed := hcreated.tail (.fails rfl
    (.writeFails (t := StoreFile.notice) (i := 0) FileText.torn rfl rfl))
  have hlost := hfailed.tail (.crash (.power List.mem_cons_self fun _ => .torn) (Or.inr rfl))
  refine ⟨_, hlost, rfl, fun v hv b hb => ?_⟩
  rcases (FileText.codec.life_readable .empty emptyStore emptyStore_sound (fun _ => rfl) _ hlost v
    hv b).2.2 hb with ⟨w, hw, hwb⟩ | ⟨ns, -, hns, hmem⟩
  · rw [List.mem_singleton.mp hw] at hwb
    cases hwb
  · exact ⟨ns, hns, hmem⟩

end Datad
