/-
  Datad/Collect/CellWindow.lean
  =============================
  **The traffic window** (`rust/src/cell_window.rs`): how many packets went over the
  cellular interface in the last thirty seconds.

  The ring keeps the end of the samples since the last reset, from the newest that is
  thirty seconds old.  Subtractions of `u64` are checked: `none` is the underflow that
  would end the process.
-/
import Datad.Lib.Trimmed
import Datad.Sms.ListAfter

namespace Datad

namespace Cell

def SPAN_MS : Nat := 30000
def GAP_MS : Nat := 60000

structure Sample where
  rx : Nat
  tx : Nat
  atMs : Nat
deriving DecidableEq, Repr

structure CellWindow where
  txPackets : Nat
  rxPackets : Nat
  spanMs : Nat
deriving DecidableEq, Repr

/-- The samples, the oldest in front. -/
abbrev Ring := List Sample

/-! ### The ring -/

/-- A counter or the clock has gone back. -/
def Sample.Resets (s last : Sample) : Prop := s.rx < last.rx ∨ s.tx < last.tx ∨ s.atMs < last.atMs

instance (s last : Sample) : Decidable (s.Resets last) :=
  inferInstanceAs (Decidable (_ ∨ _ ∨ _))

/-- Where a sample starts over, what came before it is forgotten. -/
def forget (r : Ring) (s : Sample) : Ring :=
  match r.getLast? with
  | some last => if s.Resets last then [] else r
  | none => r

/-- `saturating_sub`. -/
def Sample.cut (s : Sample) : Nat := s.atMs - SPAN_MS

namespace Ring

def push (r : Ring) (s : Sample) : Ring := trimFront Sample.atMs s.cut (forget r s ++ [s])

def lose (_ : Ring) : Ring := []

end Ring

/-- `a - b` of `u64`. -/
def sub (a b : Nat) : Option Nat := if b ≤ a then some (a - b) else none

/-- Are two samples that follow each other too far apart? -/
def gap : List Sample → Option Bool
  | a :: b :: l => (sub b.atMs a.atMs).bind fun d => if GAP_MS < d then some true else gap (b :: l)
  | _ => some false

/-- The inner `none` is no window. -/
def Ring.window (r : Ring) : Option (Option CellWindow) :=
  match r.head?, r.getLast? with
  | some first, some last => do
      let span ← sub last.atMs first.atMs
      if span < SPAN_MS then return none
      if ← gap r then return none
      return some
        { txPackets := ← sub last.tx first.tx
          rxPackets := ← sub last.rx first.rx
          spanMs := span }
  | _, _ => some none

/-! ### The rounds -/

/-- A counter of a `get_wwandst` reply. -/
def count (traffic : Value) (k : String) : Option Nat :=
  match traffic.get k with
  | some (.num n) => (Value.num n).asU64
  | some (.str s) => Sms.parseU64 (Sms.trim s)
  | _ => none

def counts (traffic : Value) : Option (Nat × Nat) := do
  let rx ← count traffic "real_rx_packets"
  let tx ← count traffic "real_tx_packets"
  return (rx, tx)

/-- One round of sampling. -/
def sample (r : Ring) (nowMs : Nat) (read : Option (Nat × Nat)) : Ring :=
  match read with
  | some (rx, tx) => r.push { rx, tx, atMs := nowMs }
  | none => r.lose

inductive Op where
  | push (s : Sample)
  | lose
deriving DecidableEq, Repr

def step (r : Ring) : Op → Ring
  | .push s => r.push s
  | .lose => r.lose

/-- A round is one operation of the ring. -/
theorem sample_eq_step (r : Ring) (nowMs : Nat) (read : Option (Nat × Nat)) :
    ∃ op, sample r nowMs read = step r op := by
  cases read with
  | none => exact ⟨.lose, rfl⟩
  | some c => exact ⟨.push ⟨c.1, c.2, nowMs⟩, rfl⟩

def run (ops : List Op) : Ring := ops.foldl step []

/-! ### What the window is for -/

/-- The samples since the last reset. -/
def since (ops : List Op) : List Sample :=
  ops.foldl (fun all op => match op with
    | .push s => forget all s ++ [s]
    | .lose => []) []

/-- `base` is the newest sample that is thirty seconds older than the last. -/
structure Baseline (all : List Sample) (base : Sample) (rest : List Sample) (last : Sample) :
    Prop where
  split : ∃ before, all = before ++ base :: rest
  ends : all.getLast? = some last
  old : base.atMs + SPAN_MS ≤ last.atMs
  newest : ∀ s ∈ rest, last.atMs < s.atMs + SPAN_MS

/-- No two samples that follow each other are more than a minute apart. -/
def Gapless (l : List Sample) : Prop := l.IsChain fun a b => b.atMs ≤ a.atMs + GAP_MS

/-- The packets and the time between two samples. -/
def between (base last : Sample) : CellWindow where
  txPackets := last.tx - base.tx
  rxPackets := last.rx - base.rx
  spanMs := last.atMs - base.atMs

/-! ### The invariant -/

/-- Counters and clock do not go back between two samples. -/
def Sample.Le (a b : Sample) : Prop := a.rx ≤ b.rx ∧ a.tx ≤ b.tx ∧ a.atMs ≤ b.atMs

/-- What the ring holds of the samples since the last reset. -/
structure Holds (all : List Sample) (r : Ring) : Prop where
  rising : all.Pairwise Sample.Le
  trimmed : ∀ last, all.getLast? = some last → Trimmed Sample.atMs last.cut all r
  ends : r.getLast? = all.getLast?

section Holds

variable {all : List Sample} {r : Ring} {s : Sample}

theorem Holds.nil : Holds [] [] := ⟨List.Pairwise.nil, by simp, rfl⟩

theorem not_resets {last : Sample} : ¬s.Resets last ↔ last.Le s := by
  simp [Sample.Resets, Sample.Le]

theorem Sample.Le.trans {a b c : Sample} (h : a.Le b) (h' : b.Le c) : a.Le c :=
  ⟨h.1.trans h'.1, h.2.1.trans h'.2.1, h.2.2.trans h'.2.2⟩

theorem Sample.Le.cut {a b : Sample} (h : a.Le b) : a.cut ≤ b.cut := by
  have := h.2.2
  unfold Sample.cut
  omega

/-- Every sample of a rising list is below the last one. -/
theorem le_last (h : all.Pairwise Sample.Le) {last a : Sample} (hlast : all.getLast? = some last)
    (ha : a ∈ all) : a = last ∨ a.Le last := by
  obtain ⟨front, rfl⟩ := List.getLast?_eq_some_iff.mp hlast
  rcases List.mem_append.mp ha with ha | ha
  · exact Or.inr ((List.pairwise_append.mp h).2.2 a ha last (List.mem_singleton.mpr rfl))
  · exact Or.inl (List.mem_singleton.mp ha)

/-- Both forget, or neither does; then the new sample is not below the last. -/
theorem Holds.forget (h : Holds all r) (s : Sample) :
    Holds (forget all s) (forget r s) ∧ ∀ a ∈ forget all s, a.Le s := by
  rw [Cell.forget, Cell.forget, h.ends]
  cases hlast : all.getLast? with
  | none =>
    refine ⟨h, ?_⟩
    simp [List.getLast?_eq_none_iff.mp hlast]
  | some last =>
    by_cases hs : s.Resets last
    · simpa [hs] using Holds.nil
    · refine ⟨by simpa [hs] using h, ?_⟩
      intro a ha
      simp only [hs, if_false] at ha
      have hle := not_resets.mp hs
      rcases le_last h.rising hlast ha with rfl | ha
      · exact hle
      · exact ha.trans hle

theorem Holds.append (h : Holds all r) (hle : ∀ a ∈ all, a.Le s) :
    Holds (all ++ [s]) (trimFront Sample.atMs s.cut (r ++ [s])) := by
  have hrising : (all ++ [s]).Pairwise Sample.Le := by
    rw [List.pairwise_append]
    refine ⟨h.rising, List.pairwise_singleton _ _, ?_⟩
    intro a ha b hb
    exact List.mem_singleton.mp hb ▸ hle a ha
  refine ⟨hrising, ?_, by simp [trimFront_getLast?]⟩
  intro last hlast
  obtain rfl : s = last := by simpa using hlast
  have hkeys : Rising Sample.atMs (all ++ [s]) := hrising.imp fun h => h.2.2
  cases hold : all.getLast? with
  | none =>
    obtain rfl := List.getLast?_eq_none_iff.mp hold
    obtain rfl := List.getLast?_eq_none_iff.mp (h.ends.trans hold)
    exact (Trimmed.nil s.cut).push hkeys (le_refl _)
  | some old =>
    exact (h.trimmed old hold).push hkeys (hle old (List.mem_of_getLast? hold)).cut

/-- **One sample.** -/
theorem Holds.push (h : Holds all r) (s : Sample) :
    Holds (Cell.forget all s ++ [s]) (r.push s) := by
  obtain ⟨h, hle⟩ := h.forget s
  exact h.append hle

end Holds

theorem holds_foldl (ops : List Op) {all : List Sample} {r : Ring} (h : Holds all r) :
    Holds (ops.foldl (fun all op => match op with
      | .push s => forget all s ++ [s]
      | .lose => []) all) (ops.foldl step r) := by
  induction ops generalizing all r with
  | nil => exact h
  | cons op ops ih =>
    cases op with
    | push s => exact ih (h.push s)
    | lose => exact ih Holds.nil

theorem holds_run (ops : List Op) : Holds (since ops) (run ops) := holds_foldl ops Holds.nil

/-! ### The window -/

section Window

variable {all : List Sample} {r : Ring} {base last : Sample} {rest : List Sample}

theorem Sample.cut_lt {s : Sample} (h : SPAN_MS ≤ last.atMs) :
    last.cut < s.atMs ↔ last.atMs < s.atMs + SPAN_MS := by
  unfold Sample.cut
  omega

theorem Sample.le_cut {s : Sample} (h : s.atMs + SPAN_MS ≤ last.atMs) : s.atMs ≤ last.cut := by
  unfold Sample.cut
  omega

/-- **The baseline is the front of the ring**, if it is old enough. -/
theorem baseline_iff (h : Holds all r) :
    Baseline all base rest last ↔
      r = base :: rest ∧ r.getLast? = some last ∧ base.atMs + SPAN_MS ≤ last.atMs := by
  constructor
  · rintro ⟨hsplit, hends, hold, hnewest⟩
    have hspan : SPAN_MS ≤ last.atMs := (Nat.le_add_left _ _).trans hold
    have hfront := (h.trimmed last hends).newest_iff.mp ⟨hsplit, Sample.le_cut hold, fun s hs =>
      (Sample.cut_lt hspan).mpr (hnewest s hs)⟩
    exact ⟨hfront.1, h.ends.trans hends, hold⟩
  · rintro ⟨hr, hends, hold⟩
    have hends' : all.getLast? = some last := h.ends.symm.trans hends
    have hspan : SPAN_MS ≤ last.atMs := (Nat.le_add_left _ _).trans hold
    obtain ⟨hsplit, -, hnewest⟩ :=
      (h.trimmed last hends').newest_iff.mpr ⟨hr, Sample.le_cut hold⟩
    exact ⟨hsplit, hends', hold, fun s hs => (Sample.cut_lt hspan).mp (hnewest s hs)⟩

theorem sub_of_le {a b : Nat} (h : b ≤ a) : sub a b = some (a - b) := by simp [sub, h]

/-- The differences in the ring do not underflow. -/
theorem gap_eq (h : r.Pairwise Sample.Le) :
    ∃ wide, gap r = some wide ∧ (wide = false ↔ Gapless r) := by
  induction r with
  | nil => exact ⟨false, rfl, by simp [Gapless]⟩
  | cons a r ih =>
    cases r with
    | nil => exact ⟨false, rfl, by simp [Gapless]⟩
    | cons b r =>
      obtain ⟨hab, htail⟩ := List.pairwise_cons.mp h
      obtain ⟨wide, hwide, hiff⟩ := ih htail
      have hle : a.atMs ≤ b.atMs := (hab b List.mem_cons_self).2.2
      by_cases hgap : GAP_MS < b.atMs - a.atMs
      · refine ⟨true, by simp [gap, sub_of_le hle, hgap], ?_⟩
        have : ¬b.atMs ≤ a.atMs + GAP_MS := by omega
        simp [Gapless, this]
      · refine ⟨wide, by simp [gap, sub_of_le hle, hgap, hwide], ?_⟩
        have : b.atMs ≤ a.atMs + GAP_MS := by omega
        rw [hiff]
        simp [Gapless, this]

theorem Holds.suffix (h : Holds all r) : r <:+ all := by
  cases hlast : all.getLast? with
  | none =>
    rw [List.getLast?_eq_none_iff.mp (h.ends.trans hlast)]
    exact List.nil_suffix
  | some last => exact (h.trimmed last hlast).suffix

/-- What the ring answers, from its two ends. -/
theorem window_cons {first : Sample} {tail : List Sample}
    (h : (first :: tail).Pairwise Sample.Le) (hlast : (first :: tail).getLast? = some last) :
    ∃ w, Ring.window (first :: tail) = some w ∧ ∀ d, w = some d ↔
      first.atMs + SPAN_MS ≤ last.atMs ∧ Gapless (first :: tail) ∧ d = between first last := by
  have hle : first.Le last := by
    rcases le_last h hlast List.mem_cons_self with rfl | hle
    · exact ⟨le_refl _, le_refl _, le_refl _⟩
    · exact hle
  obtain ⟨hrx, htx, hat⟩ := hle
  obtain ⟨wide, hgap, hwide⟩ := gap_eq h
  by_cases hspan : last.atMs - first.atMs < SPAN_MS
  · refine ⟨none, by simp [Ring.window, hlast, sub_of_le hat, hspan], ?_⟩
    have : ¬first.atMs + SPAN_MS ≤ last.atMs := by omega
    simp [this]
  have hold : first.atMs + SPAN_MS ≤ last.atMs := by omega
  cases wide with
  | true =>
    refine ⟨none, by simp [Ring.window, hlast, sub_of_le hat, hgap], ?_⟩
    have : ¬Gapless (first :: tail) := fun h => Bool.noConfusion (hwide.mpr h)
    simp [this]
  | false =>
    refine ⟨some (between first last), ?_, ?_⟩
    · simp [Ring.window, hlast, sub_of_le hat, sub_of_le hrx, sub_of_le htx, hspan, hgap, between]
    · intro d
      simp only [hold, hwide.mp rfl, true_and, Option.some.injEq]
      exact eq_comm

/-- **The traffic window is exact.**  After any samples and losses no subtraction
    underflows; there is a window if and only if one of the samples since the last reset
    is thirty seconds older than the last and from the newest such sample on none is more
    than a minute after the one before it, and then it is what lies between the two. -/
theorem window_exact (ops : List Op) :
    ∃ w, (run ops).window = some w ∧ ∀ d, w = some d ↔ ∃ base rest last,
      Baseline (since ops) base rest last ∧ Gapless (base :: rest) ∧ d = between base last := by
  have h := holds_run ops
  simp only [baseline_iff h]
  generalize run ops = r at h
  cases r with
  | nil => exact ⟨none, rfl, by simp⟩
  | cons first tail =>
    obtain ⟨last, hlast⟩ : ∃ last, (first :: tail).getLast? = some last := ⟨_, List.getLast?_cons⟩
    obtain ⟨w, hw, hiff⟩ := window_cons (List.Pairwise.sublist h.suffix.sublist h.rising) hlast
    refine ⟨w, hw, fun d => (hiff d).trans ?_⟩
    constructor
    · rintro ⟨hold, hgap, rfl⟩
      exact ⟨first, tail, last, ⟨rfl, hlast, hold⟩, hgap, rfl⟩
    · rintro ⟨base, rest, last', ⟨hr, hends, hold⟩, hgap, rfl⟩
      obtain ⟨rfl, rfl⟩ := List.cons.inj hr
      obtain rfl := Option.some.inj (hlast.symm.trans hends)
      exact ⟨hold, hgap, rfl⟩

end Window

end Cell

end Datad
