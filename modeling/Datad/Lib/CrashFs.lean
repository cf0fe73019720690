/-
  Datad/Lib/CrashFs.lean
  ======================
  **Files that are replaced as a whole, and what a power loss leaves of them.**

  A file is replaced by writing another beside it, syncing that, renaming it and syncing
  the directory; any of this may fail, the process may be killed, and the power may be lost
  between any two of it.  What was not synced is lost or garbage: of the directory one of
  the versions since its last sync is found, of a file anything at all.

  To a reader such a store is a list of versions (`Versions`): a new one with each rename or
  removal, only the newest after a sync, one of them after a power loss.  `Step.refines`
  says so of each step, and with it no file ever holds anything else (`Sound.step`).
-/
import Mathlib.Data.List.Basic
import Mathlib.Logic.Function.Basic

namespace CrashFs

variable {N T B : Type}

/-! ### Versions -/

structure Versions (T B : Type) where
  /-- What a power loss may bring back, beside the newest. -/
  older : List (T → Option B)
  cur : T → Option B

def Versions.all (vs : Versions T B) : List (T → Option B) := vs.older ++ [vs.cur]

inductive Label (T B : Type) where
  /-- The replacement of a file begins. -/
  | start (t : T) (v : B)
  | work
  | fail (t : T)
  | put (t : T) (v : B)
  | drop (t : T)
  /-- The directory is synced after a rename or a removal. -/
  | settle (t : T)
  /-- Others put a file there. -/
  | mark (t : T) (v : B)
  | others
  | kill
  | lose

/-- A reader sees no difference. -/
def Label.silent : Label T B → Bool
  | .start .. | .work | .fail _ | .others | .kill => true
  | _ => false

theorem Versions.cur_mem (vs : Versions T B) : vs.cur ∈ vs.all :=
  List.mem_append_right _ List.mem_cons_self

theorem Versions.mem_all {vs : Versions T B} {v : T → Option B} :
    v ∈ vs.all ↔ v ∈ vs.older ∨ v = vs.cur := by
  rw [Versions.all, List.mem_append, List.mem_singleton]

section

variable [DecidableEq T]

/-- One step of the store, to a reader. -/
inductive Versions.Step : Versions T B → Label T B → Versions T B → Prop
  | silent {vs vs' : Versions T B} {l : Label T B} (hl : l.silent = true) (hcur : vs'.cur = vs.cur)
      (h : ∀ v ∈ vs'.older, v ∈ vs.all) : Step vs l vs'
  | put (vs : Versions T B) (t : T) (v : B) :
      Step vs (.put t v) ⟨vs.all, Function.update vs.cur t (some v)⟩
  | mark (vs : Versions T B) (t : T) (v : B) :
      Step vs (.mark t v) ⟨vs.all, Function.update vs.cur t (some v)⟩
  | drop (vs : Versions T B) (t : T) : Step vs (.drop t) ⟨vs.all, Function.update vs.cur t none⟩
  | settle (vs : Versions T B) (t : T) : Step vs (.settle t) ⟨[], vs.cur⟩
  | lose {vs : Versions T B} {v : T → Option B} (h : v ∈ vs.all) : Step vs .lose ⟨[], v⟩

theorem Versions.Step.silent_cases {vs vs' : Versions T B} {l : Label T B} (h : Step vs l vs')
    (hl : l.silent = true) : vs'.cur = vs.cur ∧ ∀ v ∈ vs'.older, v ∈ vs.all := by
  cases h with
  | silent _ hcur holder => exact ⟨hcur, holder⟩
  | put | mark | drop | settle | lose => cases hl

theorem Versions.Step.put_cases {vs vs' : Versions T B} {t : T} {v : B}
    (h : Step vs (.put t v) vs') : vs' = ⟨vs.all, Function.update vs.cur t (some v)⟩ := by
  cases h with
  | silent hl => cases hl
  | put => rfl

theorem Versions.Step.drop_cases {vs vs' : Versions T B} {t : T} (h : Step vs (.drop t) vs') :
    vs' = ⟨vs.all, Function.update vs.cur t none⟩ := by
  cases h with
  | silent hl => cases hl
  | drop => rfl

theorem Versions.Step.settle_cases {vs vs' : Versions T B} {t : T}
    (h : Step vs (.settle t) vs') : vs' = ⟨[], vs.cur⟩ := by
  cases h with
  | silent hl => cases hl
  | settle => rfl

theorem Versions.Step.lose_cases {vs vs' : Versions T B} (h : Step vs .lose vs') :
    ∃ v ∈ vs.all, vs' = ⟨[], v⟩ := by
  cases h with
  | silent hl => cases hl
  | lose hv => exact ⟨_, hv, rfl⟩

/-- Nothing is in a file but what was put there. -/
theorem Versions.Step.from_put {vs vs' : Versions T B} {l : Label T B} (h : Step vs l vs')
    {v : T → Option B} (hv : v ∈ vs'.all) :
    v ∈ vs.all ∨ ∃ t o, ∃ w ∈ vs.all, v = Function.update w t o ∧
      ∀ b, o = some b → l = .put t b ∨ l = .mark t b := by
  cases h with
  | silent hl hcur holder =>
    rcases mem_all.mp hv with hv | rfl
    · exact Or.inl (holder v hv)
    · rw [hcur]
      exact Or.inl vs.cur_mem
  | put t w =>
    rcases mem_all.mp hv with hv | rfl
    · exact Or.inl hv
    · exact Or.inr ⟨t, some w, vs.cur, vs.cur_mem, rfl, fun b hb => Or.inl (by
        rw [Option.some.inj hb])⟩
  | mark t w =>
    rcases mem_all.mp hv with hv | rfl
    · exact Or.inl hv
    · exact Or.inr ⟨t, some w, vs.cur, vs.cur_mem, rfl, fun b hb => Or.inr (by
        rw [Option.some.inj hb])⟩
  | drop t =>
    rcases mem_all.mp hv with hv | rfl
    · exact Or.inl hv
    · exact Or.inr ⟨t, none, vs.cur, vs.cur_mem, rfl, nofun⟩
  | settle t =>
    rw [List.mem_singleton.mp hv]
    exact Or.inl vs.cur_mem
  | lose hmem =>
    rw [List.mem_singleton.mp hv]
    exact Or.inl hmem

end

/-! ### The directory and the files -/

abbrev Dir (N : Type) := N → Option Nat

structure Fs (N B : Type) where
  /-- The versions of the directory since its last sync, before the present one. -/
  older : List (Dir N)
  dir : Dir N
  data : Nat → B
  /-- The content is on the disk. -/
  stable : Nat → Bool
  next : Nat

def Fs.kept (fs : Fs N B) : List (Dir N) := fs.older ++ [fs.dir]

/-- The names of the files, and of those they are written to first. -/
structure Naming (T N : Type) where
  file : T → N
  tmp : T → N
  file_inj : Function.Injective file
  tmp_inj : Function.Injective tmp
  apart : ∀ t u, file t ≠ tmp u

/-- How far the replacement of a file has got. -/
inductive Pos (B : Type) where
  | idle
  | created (v : B)
  | written (v : B)
  | synced (v : B)
  /-- Renamed or removed; the directory is not yet synced. -/
  | moved

structure State (N T B : Type) where
  fs : Fs N B
  pos : T → Pos B

/-- A new version of the directory. -/
def Fs.change (fs : Fs N B) (dir : Dir N) : Fs N B := { fs with older := fs.kept, dir }

/-- What is in a file, and whether it is on the disk. -/
def Fs.set (fs : Fs N B) (i : Nat) (v : B) (stable : Bool) : Fs N B :=
  { fs with
    data := Function.update fs.data i v
    stable := Function.update fs.stable i stable }

/-- A number is taken. -/
def Fs.bump (fs : Fs N B) : Fs N B := { fs with next := fs.next + 1 }

variable (nm : Naming T N)

/-- What the files hold in a version of the directory. -/
def Fs.view (fs : Fs N B) (d : Dir N) (t : T) : Option B := (d (nm.file t)).map fs.data

def Fs.versions (fs : Fs N B) : Versions T B := ⟨fs.older.map (fs.view nm), fs.view nm fs.dir⟩

/-- A file is as it was to those that are replaced. -/
structure Fs.Spared (fs fs' : Fs N B) : Prop where
  older : fs'.older = fs.kept
  file : ∀ t, fs'.dir (nm.file t) = fs.dir (nm.file t)
  tmp : ∀ t, fs'.dir (nm.tmp t) = fs.dir (nm.tmp t)
  next : fs.next ≤ fs'.next
  kept : ∀ i, (∃ d ∈ fs.kept, ∃ t, d (nm.file t) = some i ∨ d (nm.tmp t) = some i) →
    fs'.data i = fs.data i ∧ fs'.stable i = fs.stable i

/-! ### What the names stand for -/

/-- What the names stand for in each version of the directory. -/
structure Fs.Sound (fs : Fs N B) : Prop where
  stable : ∀ d ∈ fs.kept, ∀ t i, d (nm.file t) = some i → fs.stable i = true
  apart : ∀ d ∈ fs.kept, ∀ t u i, d (nm.tmp t) = some i → d (nm.file u) ≠ some i
  /-- What is being written to is no file in any version. -/
  free : ∀ d ∈ fs.kept, ∀ t u i, fs.dir (nm.tmp t) = some i → d (nm.file u) ≠ some i
  single : ∀ d ∈ fs.kept, ∀ t u i, d (nm.tmp t) = some i → d (nm.tmp u) = some i → t = u
  bounded : ∀ d ∈ fs.kept, ∀ t i, d (nm.file t) = some i ∨ d (nm.tmp t) = some i → i < fs.next

variable {nm} {fs : Fs N B}

theorem Fs.dir_mem (fs : Fs N B) : fs.dir ∈ fs.kept :=
  List.mem_append_right _ List.mem_cons_self

theorem Fs.mem_change {d d' : Dir N} : d ∈ (fs.change d').kept ↔ d ∈ fs.kept ∨ d = d' := by
  rw [kept, List.mem_append, List.mem_singleton]
  rfl

namespace Fs.Sound

/-- A file that no name stands for in any version may be changed. -/
theorem set (h : fs.Sound nm) {i : Nat} (hi : ∀ d ∈ fs.kept, ∀ t, d (nm.file t) ≠ some i) (v : B)
    (stable : Bool) : (fs.set i v stable).Sound nm :=
  { stable := fun d hd t j hj => by
      have hne : j ≠ i := by
        rintro rfl
        exact hi d hd t hj
      exact (Function.update_of_ne hne ..).trans (h.stable d hd t j hj)
    apart := h.apart
    free := h.free
    single := h.single
    bounded := h.bounded }

theorem bump (h : fs.Sound nm) : fs.bump.Sound nm :=
  { h with bounded := fun d hd t i hi => Nat.lt_succ_of_lt (h.bounded d hd t i hi) }

theorem change (h : fs.Sound nm) {d : Dir N}
    (hstable : ∀ t i, d (nm.file t) = some i → fs.stable i = true)
    (hfree : ∀ d' ∈ fs.kept, ∀ t u i, d (nm.tmp t) = some i → d' (nm.file u) ≠ some i)
    (hapart : ∀ t u i, d (nm.tmp t) = some i → d (nm.file u) ≠ some i)
    (hsingle : ∀ t u i, d (nm.tmp t) = some i → d (nm.tmp u) = some i → t = u)
    (hbounded : ∀ t i, d (nm.file t) = some i ∨ d (nm.tmp t) = some i → i < fs.next) :
    (fs.change d).Sound nm where
  stable d' hd' t i hi := by
    rcases mem_change.mp hd' with hd' | rfl
    · exact h.stable d' hd' t i hi
    · exact hstable t i hi
  apart d' hd' t u i hi := by
    rcases mem_change.mp hd' with hd' | rfl
    · exact h.apart d' hd' t u i hi
    · exact hapart t u i hi
  free d' hd' t u i hi := by
    rcases mem_change.mp hd' with hd' | rfl
    · exact hfree d' hd' t u i hi
    · exact hapart t u i hi
  single d' hd' t u i hi hu := by
    rcases mem_change.mp hd' with hd' | rfl
    · exact h.single d' hd' t u i hi hu
    · exact hsingle t u i hi hu
  bounded d' hd' t i hi := by
    rcases mem_change.mp hd' with hd' | rfl
    · exact h.bounded d' hd' t i hi
    · exact hbounded t i hi

/-- A file system whose versions are alike to the names, and in which what was on the disk
    is still there. -/
theorem alike (h : fs.Sound nm) {fs' : Fs N B}
    (hkept : ∀ d ∈ fs'.kept, ∃ d₀ ∈ fs.kept,
      ∀ t, d (nm.file t) = d₀ (nm.file t) ∧ d (nm.tmp t) = d₀ (nm.tmp t))
    (hstable : ∀ d ∈ fs.kept, ∀ t i, d (nm.file t) = some i → fs'.stable i = true)
    (hfree : ∀ d ∈ fs'.kept, ∀ t u i, fs'.dir (nm.tmp t) = some i → d (nm.file u) ≠ some i)
    (hnext : fs.next ≤ fs'.next) : fs'.Sound nm where
  stable d hd t i hi := by
    obtain ⟨d₀, hd₀, hsame⟩ := hkept d hd
    exact hstable d₀ hd₀ t i ((hsame t).1 ▸ hi)
  apart d hd t u i hi := by
    obtain ⟨d₀, hd₀, hsame⟩ := hkept d hd
    rw [(hsame u).1]
    exact h.apart d₀ hd₀ t u i ((hsame t).2 ▸ hi)
  free := hfree
  single d hd t u i hi hu := by
    obtain ⟨d₀, hd₀, hsame⟩ := hkept d hd
    exact h.single d₀ hd₀ t u i ((hsame t).2 ▸ hi) ((hsame u).2 ▸ hu)
  bounded d hd t i hi := by
    obtain ⟨d₀, hd₀, hsame⟩ := hkept d hd
    rw [(hsame t).1, (hsame t).2] at hi
    exact Nat.lt_of_lt_of_le (h.bounded d₀ hd₀ t i hi) hnext

theorem settle (h : fs.Sound nm) : ({ fs with older := [] } : Fs N B).Sound nm := by
  have hmem : ∀ d ∈ ({ fs with older := [] } : Fs N B).kept, d ∈ fs.kept := fun d hd => by
    rw [List.mem_singleton.mp hd]
    exact fs.dir_mem
  exact h.alike (fun d hd => ⟨d, hmem d hd, fun _ => ⟨rfl, rfl⟩⟩) h.stable
    (fun d hd => h.free d (hmem d hd)) (Nat.le_refl _)

theorem spared {fs' : Fs N B} (h : fs.Sound nm) (hs : fs.Spared nm fs') : fs'.Sound nm := by
  have hkept : ∀ d ∈ fs'.kept, ∃ d₀ ∈ fs.kept,
      ∀ t, d (nm.file t) = d₀ (nm.file t) ∧ d (nm.tmp t) = d₀ (nm.tmp t) := by
    intro d hd
    rcases List.mem_append.mp hd with hd | hd
    · rw [hs.older] at hd
      exact ⟨d, hd, fun _ => ⟨rfl, rfl⟩⟩
    · rw [List.mem_singleton.mp hd]
      exact ⟨fs.dir, fs.dir_mem, fun t => ⟨hs.file t, hs.tmp t⟩⟩
  refine h.alike hkept (fun d hd t i hi => ?_) (fun d hd t u i hi => ?_) hs.next
  · rw [(hs.kept i ⟨d, hd, t, Or.inl hi⟩).2]
    exact h.stable d hd t i hi
  · obtain ⟨d₀, hd₀, hsame⟩ := hkept d hd
    rw [(hsame u).1]
    rw [hs.tmp] at hi
    exact h.free d₀ hd₀ t u i hi

/-- One of the versions is found again. -/
theorem power (h : fs.Sound nm) {d : Dir N} (hd : d ∈ fs.kept) (data : Nat → B) :
    ({ older := [], dir := d, data, stable := fun _ => true, next := fs.next } : Fs N B).Sound
      nm := by
  refine h.alike (fun d' hd' => ⟨d, hd, fun _ => ?_⟩) (fun _ _ _ _ _ => rfl)
    (fun d' hd' t u i hi => ?_) (Nat.le_refl _)
  · rw [List.mem_singleton.mp hd']
    exact ⟨rfl, rfl⟩
  · rw [List.mem_singleton.mp hd']
    exact h.apart d hd t u i hi

end Fs.Sound

/-! ### Replacing a file -/

variable [DecidableEq N]

def Fs.at (fs : Fs N B) (name : N) (i : Option Nat) : Dir N := Function.update fs.dir name i

theorem Fs.at_same {name : N} {i : Option Nat} : fs.at name i name = i := Function.update_self ..

theorem Fs.at_other {name name' : N} {i : Option Nat} (h : name' ≠ name) :
    fs.at name i name' = fs.dir name' := Function.update_of_ne h ..

theorem Fs.at_tmp {t u : T} {i j : Option Nat} (h : fs.at (nm.tmp t) i (nm.tmp u) = j) :
    (u = t ∧ i = j) ∨ (u ≠ t ∧ fs.dir (nm.tmp u) = j) := by
  by_cases hut : u = t
  · rw [hut, at_same] at h
    exact Or.inl ⟨hut, h⟩
  · rw [at_other (nm.tmp_inj.ne hut)] at h
    exact Or.inr ⟨hut, h⟩

theorem Fs.at_file {t u : T} {i j : Option Nat} (h : fs.at (nm.file t) i (nm.file u) = j) :
    (u = t ∧ i = j) ∨ (u ≠ t ∧ fs.dir (nm.file u) = j) := by
  by_cases hut : u = t
  · rw [hut, at_same] at h
    exact Or.inl ⟨hut, h⟩
  · rw [at_other (nm.file_inj.ne hut)] at h
    exact Or.inr ⟨hut, h⟩

variable (nm) in
def Fs.renamed (fs : Fs N B) (t : T) (i : Nat) : Dir N :=
  Function.update (fs.at (nm.file t) (some i)) (nm.tmp t) none

theorem Fs.renamed_file {t u : T} {i j : Nat} (h : fs.renamed nm t i (nm.file u) = some j) :
    (u = t ∧ i = j) ∨ (u ≠ t ∧ fs.dir (nm.file u) = some j) := by
  rw [renamed, Function.update_of_ne (nm.apart u t)] at h
  simpa using at_file h

theorem Fs.renamed_tmp {t u : T} {i j : Nat} (h : fs.renamed nm t i (nm.tmp u) = some j) :
    u ≠ t ∧ fs.dir (nm.tmp u) = some j := by
  by_cases hut : u = t
  · rw [hut, renamed, Function.update_self] at h
    cases h
  · rw [renamed, Function.update_of_ne (nm.tmp_inj.ne hut), at_other (nm.apart t u).symm] at h
    exact ⟨hut, h⟩

namespace Fs.Sound

theorem created (h : fs.Sound nm) (t : T) :
    (fs.bump.change (fs.at (nm.tmp t) (some fs.next))).Sound nm := by
  have hfile : ∀ u, fs.at (nm.tmp t) (some fs.next) (nm.file u) = fs.dir (nm.file u) := fun u =>
    at_other (nm.apart u t)
  have hfree : ∀ d' ∈ fs.kept, ∀ u w i, fs.at (nm.tmp t) (some fs.next) (nm.tmp u) = some i →
      d' (nm.file w) ≠ some i := by
    intro d' hd' u w i hi hw
    rcases at_tmp hi with ⟨-, hnext⟩ | ⟨-, hi⟩
    · cases hnext
      exact Nat.lt_irrefl _ (h.bounded d' hd' w _ (Or.inl hw))
    · exact h.free d' hd' u w i hi hw
  refine h.bump.change (fun u i hi => ?_) hfree (fun u w i hi => ?_) (fun u w i hu hw => ?_)
    fun u i hi => ?_
  · rw [hfile] at hi
    exact h.stable _ fs.dir_mem u i hi
  · rw [hfile]
    exact hfree _ fs.dir_mem u w i hi
  · rcases at_tmp hu with ⟨hut, hu⟩ | ⟨-, hu⟩ <;> rcases at_tmp hw with ⟨hwt, hw⟩ | ⟨-, hw⟩
    · rw [hut, hwt]
    · cases hu
      exact absurd (h.bounded _ fs.dir_mem w _ (Or.inr hw)) (Nat.lt_irrefl _)
    · cases hw
      exact absurd (h.bounded _ fs.dir_mem u _ (Or.inr hu)) (Nat.lt_irrefl _)
    · exact h.single _ fs.dir_mem u w i hu hw
  · show i < fs.next + 1
    rcases hi with hi | hi
    · rw [hfile] at hi
      exact Nat.lt_succ_of_lt (h.bounded _ fs.dir_mem u i (Or.inl hi))
    · rcases at_tmp hi with ⟨-, hi⟩ | ⟨-, hi⟩
      · cases hi
        exact Nat.lt_succ_self _
      · exact Nat.lt_succ_of_lt (h.bounded _ fs.dir_mem u i (Or.inr hi))

theorem renamed (h : fs.Sound nm) {t : T} {i : Nat} (hi : fs.dir (nm.tmp t) = some i)
    (hstable : fs.stable i = true) : (fs.change (fs.renamed nm t i)).Sound nm := by
  refine h.change (fun u j hj => ?_) (fun d' hd' u w j hj => ?_) (fun u w j hj hw => ?_)
    (fun u w j hu hw => ?_) fun u j hj => ?_
  · rcases renamed_file hj with ⟨-, rfl⟩ | ⟨-, hj⟩
    · exact hstable
    · exact h.stable _ fs.dir_mem u j hj
  · exact h.free d' hd' u w j (renamed_tmp hj).2
  · obtain ⟨hut, hj⟩ := renamed_tmp hj
    rcases renamed_file hw with ⟨-, rfl⟩ | ⟨-, hw⟩
    · exact hut (h.single _ fs.dir_mem u t i hj hi)
    · exact h.apart _ fs.dir_mem u w j hj hw
  · exact h.single _ fs.dir_mem u w j (renamed_tmp hu).2 (renamed_tmp hw).2
  · rcases hj with hj | hj
    · rcases renamed_file hj with ⟨-, rfl⟩ | ⟨-, hj⟩
      · exact h.bounded _ fs.dir_mem t i (Or.inr hi)
      · exact h.bounded _ fs.dir_mem u j (Or.inl hj)
    · exact h.bounded _ fs.dir_mem u j (Or.inr (renamed_tmp hj).2)

/-- A name is given up, or given to a file that has no name yet. -/
theorem named (h : fs.Sound nm) (t : T) {i : Option Nat}
    (hi : ∀ j, i = some j → fs.stable j = true ∧ j < fs.next ∧
      ∀ u, fs.dir (nm.tmp u) ≠ some j) : (fs.change (fs.at (nm.file t) i)).Sound nm := by
  have htmp : ∀ u, fs.at (nm.file t) i (nm.tmp u) = fs.dir (nm.tmp u) := fun u =>
    at_other (nm.apart t u).symm
  refine h.change (fun u j hj => ?_) (fun d' hd' u w j hj => ?_) (fun u w j hj hw => ?_)
    (fun u w j hu hw => ?_) fun u j hj => ?_
  · rcases at_file hj with ⟨-, hj⟩ | ⟨-, hj⟩
    · exact (hi j hj).1
    · exact h.stable _ fs.dir_mem u j hj
  · rw [htmp] at hj
    exact h.free d' hd' u w j hj
  · rw [htmp] at hj
    rcases at_file hw with ⟨-, hw⟩ | ⟨-, hw⟩
    · exact (hi j hw).2.2 u hj
    · exact h.apart _ fs.dir_mem u w j hj hw
  · rw [htmp] at hu hw
    exact h.single _ fs.dir_mem u w j hu hw
  · rcases hj with hj | hj
    · rcases at_file hj with ⟨-, hj⟩ | ⟨-, hj⟩
      · exact (hi j hj).2.1
      · exact h.bounded _ fs.dir_mem u j (Or.inl hj)
    · rw [htmp] at hj
      exact h.bounded _ fs.dir_mem u j (Or.inr hj)

end Fs.Sound

variable (nm) [DecidableEq T]

/-- One step of the process, the file system or those around them.  `empty` is the content of a
    file that has just been created. -/
inductive Step (empty : B) : State N T B → Label T B → State N T B → Prop
  /-- There is an old file of this name: it is cut. -/
  | cut {s : State N T B} {t : T} {i : Nat} (v : B) (hp : s.pos t = .idle)
      (hi : s.fs.dir (nm.tmp t) = some i) :
      Step empty s (.start t v) ⟨s.fs.set i empty false, Function.update s.pos t (.created v)⟩
  | create {s : State N T B} {t : T} (v : B) (hp : s.pos t = .idle)
      (hi : s.fs.dir (nm.tmp t) = none) :
      Step empty s (.start t v)
        ⟨(s.fs.bump.change (s.fs.at (nm.tmp t) (some s.fs.next))).set s.fs.next empty false,
          Function.update s.pos t (.created v)⟩
  | write {s : State N T B} {t : T} {i : Nat} {v : B} (hp : s.pos t = .created v)
      (hi : s.fs.dir (nm.tmp t) = some i) :
      Step empty s .work ⟨s.fs.set i v false, Function.update s.pos t (.written v)⟩
  /-- Something has been written. -/
  | writeFails {s : State N T B} {t : T} {i : Nat} {v : B} (b : B) (hp : s.pos t = .created v)
      (hi : s.fs.dir (nm.tmp t) = some i) :
      Step empty s (.fail t) ⟨s.fs.set i b false, Function.update s.pos t .idle⟩
  | sync {s : State N T B} {t : T} {i : Nat} {v : B} (hp : s.pos t = .written v)
      (hi : s.fs.dir (nm.tmp t) = some i) :
      Step empty s .work ⟨s.fs.set i v true, Function.update s.pos t (.synced v)⟩
  /-- A step of the replacement fails, or the directory could not be synced. -/
  | fails {s : State N T B} (t : T) :
      Step empty s (.fail t) ⟨s.fs, Function.update s.pos t .idle⟩
  | rename {s : State N T B} {t : T} {i : Nat} {v : B} (hp : s.pos t = .synced v)
      (hi : s.fs.dir (nm.tmp t) = some i) :
      Step empty s (.put t v)
        ⟨s.fs.change (s.fs.renamed nm t i), Function.update s.pos t .moved⟩
  | remove {s : State N T B} {t : T} (hp : s.pos t = .idle) (hi : s.fs.dir (nm.file t) ≠ none) :
      Step empty s (.drop t)
        ⟨s.fs.change (s.fs.at (nm.file t) none), Function.update s.pos t .moved⟩
  | settle {s : State N T B} {t : T} (hp : s.pos t = .moved) :
      Step empty s (.settle t) ⟨{ s.fs with older := [] }, Function.update s.pos t .idle⟩
  /-- Others put an empty file there. -/
  | mark {s : State N T B} {t : T} (hi : s.fs.dir (nm.file t) = none) :
      Step empty s (.mark t empty)
        ⟨(s.fs.bump.set s.fs.next empty true).change (s.fs.at (nm.file t) (some s.fs.next)), s.pos⟩
  /-- Others change their files in the directory. -/
  | others {s : State N T B} {fs : Fs N B} (h : s.fs.Spared nm fs) :
      Step empty s .others ⟨fs, s.pos⟩
  | kill (s : State N T B) : Step empty s .kill ⟨s.fs, fun _ => .idle⟩
  | power {s : State N T B} {d : Dir N} (hd : d ∈ s.fs.kept) (junk : Nat → B) :
      Step empty s .lose
        ⟨{ older := []
           dir := d
           data := fun i => if s.fs.stable i then s.fs.data i else junk i
           stable := fun _ => true
           next := s.fs.next },
          fun _ => .idle⟩

/-- What is where the replacement is at. -/
def Fs.Fits (fs : Fs N B) (t : T) : Pos B → Prop
  | .written v => ∀ i, fs.dir (nm.tmp t) = some i → fs.data i = v
  | .synced v => ∀ i, fs.dir (nm.tmp t) = some i → fs.data i = v ∧ fs.stable i = true
  | .idle | .created _ | .moved => True

structure State.Sound (s : State N T B) : Prop where
  fs : s.fs.Sound nm
  fits : ∀ t, s.fs.Fits nm t (s.pos t)

variable {nm}

section Frames

omit [DecidableEq N] [DecidableEq T]

theorem Fs.set_other (fs : Fs N B) {i j : Nat} (h : j ≠ i) (v : B) (stable : Bool) :
    (fs.set i v stable).data j = fs.data j ∧ (fs.set i v stable).stable j = fs.stable j :=
  ⟨Function.update_of_ne h .., Function.update_of_ne h ..⟩

theorem Fs.set_same (fs : Fs N B) (i : Nat) (v : B) (stable : Bool) :
    (fs.set i v stable).data i = v ∧ (fs.set i v stable).stable i = stable :=
  ⟨Function.update_self .., Function.update_self ..⟩

theorem Fs.Fits.frame {fs' : Fs N B} {t : T} {p : Pos B} (h : fs.Fits nm t p)
    (hdir : fs'.dir (nm.tmp t) = fs.dir (nm.tmp t))
    (hdata : ∀ i, fs.dir (nm.tmp t) = some i →
      fs'.data i = fs.data i ∧ fs'.stable i = fs.stable i) : fs'.Fits nm t p := by
  cases p with
  | idle => exact trivial
  | created v => exact trivial
  | moved => exact trivial
  | written v =>
    intro i hi
    rw [hdir] at hi
    rw [(hdata i hi).1]
    exact h i hi
  | synced v =>
    intro i hi
    rw [hdir] at hi
    rw [(hdata i hi).1, (hdata i hi).2]
    exact h i hi

theorem Fs.view_congr {fs' : Fs N B} {d : Dir N}
    (h : ∀ t i, d (nm.file t) = some i → fs'.data i = fs.data i) :
    fs'.view nm d = fs.view nm d := by
  funext t
  unfold view
  cases hd : d (nm.file t) with
  | none => rfl
  | some i => exact congrArg some (h t i hd)

theorem Fs.map_view_congr {fs' : Fs N B} {ds : List (Dir N)}
    (h : ∀ d ∈ ds, ∀ t i, d (nm.file t) = some i → fs'.data i = fs.data i) :
    ds.map (fs'.view nm) = ds.map (fs.view nm) :=
  List.map_congr_left fun d hd => view_congr (h d hd)

theorem Fs.versions_all (fs : Fs N B) :
    (fs.versions nm).all = fs.kept.map (fs.view nm) := by
  rw [kept, List.map_append]
  rfl

theorem Fs.change_versions (fs : Fs N B) (d : Dir N) :
    (fs.change d).versions nm = ⟨(fs.versions nm).all, fs.view nm d⟩ := by
  rw [versions_all]
  rfl

/-- A file without a name is written, and no reader sees it. -/
theorem Fs.set_versions {i : Nat} (hi : ∀ d ∈ fs.kept, ∀ t, d (nm.file t) ≠ some i) (v : B)
    (stable : Bool) : (fs.set i v stable).versions nm = fs.versions nm := by
  have hdata : ∀ d ∈ fs.kept, ∀ t j, d (nm.file t) = some j →
      (fs.set i v stable).data j = fs.data j := by
    intro d hd t j hj
    have hne : j ≠ i := by
      rintro rfl
      exact hi d hd t hj
    exact (fs.set_other hne v stable).1
  have holder : fs.older.map ((fs.set i v stable).view nm) = fs.older.map (fs.view nm) :=
    map_view_congr fun d hd => hdata d (List.mem_append_left _ hd)
  have hcur : (fs.set i v stable).view nm fs.dir = fs.view nm fs.dir :=
    view_congr (hdata _ fs.dir_mem)
  unfold versions
  rw [← holder, ← hcur]
  rfl

end Frames

theorem Fs.view_at_file (fs : Fs N B) (t : T) (i : Option Nat) :
    fs.view nm (fs.at (nm.file t) i) =
      Function.update (fs.view nm fs.dir) t (i.map fs.data) := by
  funext u
  by_cases hut : u = t
  · rw [hut, Function.update_self, view, at_same]
  · rw [Function.update_of_ne hut, view, at_other (nm.file_inj.ne hut)]
    rfl

omit [DecidableEq T] in
theorem Fs.view_at_tmp (fs : Fs N B) (t : T) (i : Option Nat) :
    fs.view nm (fs.at (nm.tmp t) i) = fs.view nm fs.dir := by
  funext u
  rw [view, at_other (nm.apart u t)]
  rfl

theorem Fs.view_renamed (fs : Fs N B) (t : T) (i : Nat) :
    fs.view nm (fs.renamed nm t i) =
      Function.update (fs.view nm fs.dir) t (some (fs.data i)) := by
  rw [show some (fs.data i) = (some i).map fs.data from rfl, ← view_at_file]
  funext u
  rw [view, renamed, Function.update_of_ne (nm.apart u t)]
  rfl

namespace State.Sound

variable {s : State N T B}

omit [DecidableEq N] in
theorem at_pos (h : s.Sound nm) {fs' : Fs N B} (hfs : fs'.Sound nm) {t : T} {p : Pos B}
    (ht : fs'.Fits nm t p)
    (hframe : ∀ u, u ≠ t → fs'.dir (nm.tmp u) = s.fs.dir (nm.tmp u) ∧
      ∀ i, s.fs.dir (nm.tmp u) = some i →
        fs'.data i = s.fs.data i ∧ fs'.stable i = s.fs.stable i) :
    (⟨fs', Function.update s.pos t p⟩ : State N T B).Sound nm where
  fs := hfs
  fits u := by
    show fs'.Fits nm u (Function.update s.pos t p u)
    by_cases hut : u = t
    · rw [hut, Function.update_self]
      exact ht
    · rw [Function.update_of_ne hut]
      exact (h.fits u).frame (hframe u hut).1 (hframe u hut).2

omit [DecidableEq N] in
/-- The file of another replacement is another file. -/
theorem set_tmp (h : s.Sound nm) {t : T} {i : Nat} (hi : s.fs.dir (nm.tmp t) = some i) (v : B)
    (stable : Bool) {p : Pos B} (hp : (s.fs.set i v stable).Fits nm t p) :
    (⟨s.fs.set i v stable, Function.update s.pos t p⟩ : State N T B).Sound nm := by
  refine h.at_pos (h.fs.set (fun d hd u => h.fs.free d hd t u i hi) v stable) hp fun u hut =>
    ⟨rfl, fun j hj => s.fs.set_other ?_ v stable⟩
  rintro rfl
  exact hut (h.fs.single _ s.fs.dir_mem u t j hj hi)

end State.Sound

/-- **What the names stand for is kept** by every step, and by every failure. -/
theorem State.Sound.step {empty : B} {s s' : State N T B} {l : Label T B} (h : s.Sound nm)
    (hs : Step nm empty s l s') : s'.Sound nm := by
  cases hs with
  | cut v hp hi => exact h.set_tmp hi empty false trivial
  | @create t v hp hi =>
    have hfs := h.fs.created t
    refine h.at_pos (hfs.set (fun d hd u hu => ?_) empty false) trivial fun u hut => ?_
    · exact hfs.free d hd t u _ Fs.at_same hu
    · refine ⟨Fs.at_other (nm.tmp_inj.ne hut), fun j hj => Fs.set_other _ ?_ empty false⟩
      rintro rfl
      exact Nat.lt_irrefl _ (h.fs.bounded _ s.fs.dir_mem u _ (Or.inr hj))
  | @write t i v hp hi =>
    refine h.set_tmp hi v false fun j hj => ?_
    cases hi.symm.trans hj
    exact (s.fs.set_same i v false).1
  | writeFails b hp hi => exact h.set_tmp hi b false trivial
  | @sync t i v hp hi =>
    refine h.set_tmp hi v true fun j hj => ?_
    cases hi.symm.trans hj
    exact s.fs.set_same i v true
  | fails t => exact h.at_pos h.fs trivial fun u _ => ⟨rfl, fun _ _ => ⟨rfl, rfl⟩⟩
  | @rename t i v hp hi =>
    have hfits := h.fits t
    rw [hp] at hfits
    refine h.at_pos (h.fs.renamed hi (hfits i hi).2) trivial fun u hut =>
      ⟨?_, fun _ _ => ⟨rfl, rfl⟩⟩
    show s.fs.renamed nm t i (nm.tmp u) = _
    rw [Fs.renamed, Function.update_of_ne (nm.tmp_inj.ne hut), Fs.at_other (nm.apart t u).symm]
  | @remove t hp hi =>
    refine h.at_pos (h.fs.named t (i := none) nofun) trivial fun u _ => ⟨?_, fun _ _ => ⟨rfl, rfl⟩⟩
    exact Fs.at_other (nm.apart t u).symm
  | settle hp => exact h.at_pos h.fs.settle trivial fun u _ => ⟨rfl, fun _ _ => ⟨rfl, rfl⟩⟩
  | @mark t hi =>
    have hnew : ∀ d ∈ s.fs.kept, ∀ u, d (nm.file u) ≠ some s.fs.next ∧
        d (nm.tmp u) ≠ some s.fs.next := fun d hd u =>
      ⟨fun hu => Nat.lt_irrefl _ (h.fs.bounded d hd u _ (Or.inl hu)),
        fun hu => Nat.lt_irrefl _ (h.fs.bounded d hd u _ (Or.inr hu))⟩
    have hset := h.fs.bump.set (fun d hd u => (hnew d hd u).1) empty true
    refine ⟨hset.named t fun j hj => ?_, fun u => (h.fits u).frame ?_ fun j hj => ?_⟩
    · cases hj
      exact ⟨(Fs.set_same _ _ _ _).2, Nat.lt_succ_self _,
        fun u => (hnew _ s.fs.dir_mem u).2⟩
    · exact Fs.at_other (nm.apart t u).symm
    · refine Fs.set_other _ ?_ empty true
      rintro rfl
      exact (hnew _ s.fs.dir_mem u).2 hj
  | others hsp =>
    exact ⟨h.fs.spared hsp, fun t => (h.fits t).frame (hsp.tmp t) fun i hi =>
      hsp.kept i ⟨s.fs.dir, s.fs.dir_mem, t, Or.inr hi⟩⟩
  | kill => exact ⟨h.fs, fun _ => trivial⟩
  | power hd junk => exact ⟨h.fs.power hd _, fun _ => trivial⟩

omit [DecidableEq N] in
theorem Versions.Step.of_change {fs : Fs N B} {d : Dir N} {l : Label T B}
    (h : Versions.Step (fs.versions nm) l ⟨(fs.versions nm).all, fs.view nm d⟩) :
    Versions.Step (fs.versions nm) l ((fs.change d).versions nm) := by
  rw [Fs.change_versions]
  exact h

/-- **To a reader each step is one of `Versions`.** -/
theorem Step.refines {empty : B} {s s' : State N T B} {l : Label T B} (h : s.Sound nm)
    (hs : Step nm empty s l s') : Versions.Step (s.fs.versions nm) l (s'.fs.versions nm) := by
  have hset : ∀ {t i v stable} {l : Label T B}, s.fs.dir (nm.tmp t) = some i → l.silent = true →
      Versions.Step (s.fs.versions nm) l ((s.fs.set i v stable).versions nm) := by
    intro t i v stable l hi hl
    rw [Fs.set_versions fun d hd u => h.fs.free d hd t u i hi]
    exact .silent hl rfl fun v hv => List.mem_append_left _ hv
  have hsame : ∀ {l : Label T B}, l.silent = true →
      Versions.Step (s.fs.versions nm) l (s.fs.versions nm) := fun hl =>
    .silent hl rfl fun v hv => List.mem_append_left _ hv
  cases hs with
  | cut v hp hi => exact hset hi rfl
  | @create t v hp hi =>
    have hfs := h.fs.created t
    rw [Fs.set_versions fun d hd u => hfs.free d hd t u _ Fs.at_same, Fs.change_versions]
    refine .silent rfl ?_ fun v hv => hv
    exact s.fs.view_at_tmp t _
  | write hp hi => exact hset hi rfl
  | writeFails b hp hi => exact hset hi rfl
  | sync hp hi => exact hset hi rfl
  | fails t => exact hsame rfl
  | @rename t i v hp hi =>
    have hfits := h.fits t
    rw [hp] at hfits
    refine .of_change ?_
    rw [Fs.view_renamed, (hfits i hi).1]
    exact .put _ t v
  | @remove t hp hi =>
    refine .of_change ?_
    rw [Fs.view_at_file]
    exact .drop _ t
  | @settle t hp => exact .settle _ t
  | @mark t hi =>
    have hnew : ∀ d ∈ s.fs.bump.kept, ∀ u, d (nm.file u) ≠ some s.fs.next := fun d hd u hu =>
      Nat.lt_irrefl _ (h.fs.bounded d hd u _ (Or.inl hu))
    have hversions : (s.fs.bump.set s.fs.next empty true).versions nm = s.fs.versions nm :=
      Fs.set_versions hnew empty true
    show Versions.Step _ _ (((s.fs.bump.set s.fs.next empty true).change _).versions nm)
    rw [Fs.change_versions, hversions]
    show Versions.Step _ _ ⟨_, (s.fs.bump.set s.fs.next empty true).view nm
      ((s.fs.bump.set s.fs.next empty true).at (nm.file t) (some s.fs.next))⟩
    rw [Fs.view_at_file]
    have hcur : (s.fs.bump.set s.fs.next empty true).view nm s.fs.dir = s.fs.view nm s.fs.dir :=
      congrArg Versions.cur hversions
    show Versions.Step _ _ ⟨_, Function.update
      ((s.fs.bump.set s.fs.next empty true).view nm s.fs.dir) t
      (some ((s.fs.bump.set s.fs.next empty true).data s.fs.next))⟩
    rw [hcur, (Fs.set_same _ _ _ _).1]
    exact .mark _ t empty
  | @others fs' hsp =>
    have hview : ∀ d, d ∈ s.fs.kept → fs'.view nm d = s.fs.view nm d := fun d hd =>
      Fs.view_congr fun t i hi => (hsp.kept i ⟨d, hd, t, Or.inl hi⟩).1
    refine .silent rfl ?_ fun v hv => ?_
    · show fs'.view nm fs'.dir = s.fs.view nm s.fs.dir
      rw [← hview _ s.fs.dir_mem]
      funext t
      rw [Fs.view, hsp.file]
      rfl
    · obtain ⟨d, hd, rfl⟩ := List.mem_map.mp hv
      rw [hsp.older] at hd
      rw [hview d hd, Fs.versions_all]
      exact List.mem_map_of_mem hd
  | kill => exact hsame rfl
  | @power d hd junk =>
    have hview : Fs.view nm
        { older := [], dir := d, data := fun i => if s.fs.stable i then s.fs.data i else junk i
          stable := fun _ => true, next := s.fs.next } d = s.fs.view nm d :=
      Fs.view_congr fun t i hi => if_pos (h.fs.stable d hd t i hi)
    show Versions.Step _ _ ⟨[], Fs.view nm _ d⟩
    rw [hview]
    refine .lose ?_
    rw [Fs.versions_all]
    exact List.mem_map_of_mem hd

end CrashFs
