/-
  Datad/Screen/CountedOnce.lean
  =============================
  **When the active carriers are counted once.**  `summary` takes a carrier that is there
  twice for one configured carrier, `carriers` counts it as active twice; what it counts is
  right if and only if the descriptors do not repeat an active carrier (`Separate`).

  A carrier without a band is like every carrier of its cell, so to be alike is not
  transitive.  That the active ones are no more than the configured ones is by the band
  that a carrier is known under: none, where a carrier of its cell has none.
-/
import Datad.Screen.Carriers
import Datad.Hub.Signal

namespace Datad

namespace Screen

open Firsts

variable {F : Type} (fl : Doubles F)

/-! ### What is counted -/

def NetView.active (v : NetView F) : List (Carrier F) := v.carriers.filter (·.active)

/-- Carriers are counted once. -/
structure CountedOnce (v : NetView F) : Prop where
  room : v.carriers.length ≤ CA_MAX
  kinds : v.actN = v.actNr + v.actLte
  once : ∀ c ∈ v.carriers, v.active.countP (same c) ≤ 1
  configured : v.actN ≤ v.cfg
  bandwidth : v.actBw = ((firsts same v.active).map (·.bw)).sum

/-- The records of `nrca` that are read. -/
def nrRecords (d : Data) : List (Carrier F) :=
  if onNr d then
    ((records d.nrca).filterMap (readRecord fl .nr)).take
      (CA_MAX - if servesNr d then 1 else 0)
  else []

/-- The records of `lteca` that are read. -/
def lteRecords (d : Data) : List (Carrier F) :=
  if ratOf d.netType = .g3 ∨ ratOf d.netType = .g2 then []
  else
    ((records d.lteca).filterMap (readRecord fl .lte)).take
      (CA_MAX - ((if servesNr d then 1 else 0) + (nrRecords fl d).length))

/-- Two active records of one cell are on two bands, and each record of that cell has its
    band. -/
def Apart (l : List (Carrier F)) : Prop :=
  l.Pairwise fun a b => a.active → b.active → a.pci = b.pci →
    a.band ≠ b.band ∧ ∀ c ∈ l, c.pci = a.pci → c.band ≠ 0

/-- No active carrier is there twice. -/
structure Separate (d : Data) : Prop where
  serving : servesNr d → ∀ c ∈ nrRecords fl d, c.active → c.pci ≠ d.nrPci
  nrca : Apart (nrRecords fl d)
  lteca : Apart (lteRecords fl d)

/-! ### The carriers -/

theorem parseFrom_eq {max : Nat} {kind : Kind} {out : List (Carrier F)}
    {recs : List (List Char)} (room : out.length ≤ max) :
    parseFrom fl max kind out recs =
      out ++ (recs.filterMap (readRecord fl kind)).take (max - out.length) := by
  induction recs generalizing out with
  | nil => simp [parseFrom]
  | cons rec recs ih =>
    rw [parseFrom]
    split
    · have : max - out.length = 0 := by omega
      simp [this]
    · cases h : readRecord fl kind rec with
      | none =>
        rw [List.filterMap_cons_none h]
        exact ih room
      | some c =>
        obtain ⟨n, hn⟩ : ∃ n, max - out.length = n + 1 := ⟨max - out.length - 1, by omega⟩
        have left : max - (out ++ [c]).length = n := by simp; omega
        rw [List.filterMap_cons_some h, hn, List.take_succ_cons]
        simp only
        rw [ih (by simp; omega), left]
        simp

theorem parseCa_eq (s : String) (max : Nat) (kind : Kind) :
    parseCa fl s max kind = ((records s).filterMap (readRecord fl kind)).take max := by
  rw [parseCa, parseFrom_eq fl (by simp)]
  simp

theorem readRecord_kind {kind : Kind} {rec : List Char} {c : Carrier F}
    (read : readRecord fl kind rec = some c) : c.kind = kind := by
  unfold readRecord at read
  split at read <;> cases read <;> rfl

theorem kind_of_mem_parseCa {s : String} {max : Nat} {kind : Kind} {c : Carrier F}
    (mem : c ∈ parseCa fl s max kind) : c.kind = kind := by
  rw [parseCa_eq] at mem
  obtain ⟨rec, -, read⟩ := List.mem_filterMap.mp (List.mem_of_mem_take mem)
  exact readRecord_kind fl read

theorem nrCarriers_eq (d : Data) :
    nrCarriers fl d = (if servesNr d then [servingNr fl d] else []) ++ nrRecords fl d := by
  unfold nrCarriers nrRecords
  by_cases on : onNr d <;> by_cases serves : servesNr d <;> simp [on, serves, parseCa_eq]

theorem kind_of_mem_nrRecords {d : Data} {c : Carrier F} (mem : c ∈ nrRecords fl d) :
    c.kind = .nr := by
  unfold nrRecords at mem
  split at mem
  · rw [← parseCa_eq] at mem
    exact kind_of_mem_parseCa fl mem
  · simp at mem

theorem kind_of_mem_lteRecords {d : Data} {c : Carrier F} (mem : c ∈ lteRecords fl d) :
    c.kind = .lte := by
  unfold lteRecords at mem
  split at mem
  · simp at mem
  · rw [← parseCa_eq] at mem
    exact kind_of_mem_parseCa fl mem

theorem length_nrCarriers (d : Data) :
    (nrCarriers fl d).length = (if servesNr d then 1 else 0) + (nrRecords fl d).length := by
  rw [nrCarriers_eq, List.length_append]
  split <;> rfl

theorem length_nrCarriers_le (d : Data) : (nrCarriers fl d).length ≤ CA_MAX := by
  rw [nrCarriers_eq]
  unfold nrRecords
  by_cases serves : servesNr d <;> by_cases on : onNr d <;> simp [serves, on, CA_MAX]

/-- The serving cell of 4G stands in only for a descriptor without records. -/
theorem lteCarriers_cases (d : Data) :
    lteCarriers fl d (CA_MAX - (nrCarriers fl d).length) =
        (lteRecords fl d).map (withSignal fl d) ∨
      lteRecords fl d = [] ∧ 0 < CA_MAX - (nrCarriers fl d).length ∧
        lteCarriers fl d (CA_MAX - (nrCarriers fl d).length) = [servingLte fl d] := by
  unfold lteCarriers lteRecords
  rw [← length_nrCarriers, ← parseCa_eq]
  generalize CA_MAX - (nrCarriers fl d).length = room
  by_cases old : ratOf d.netType = .g3 ∨ ratOf d.netType = .g2
  · left
    have : ¬(0 < room ∧ ratOf d.netType ≠ .g3 ∧ ratOf d.netType ≠ .g2) := by tauto
    simp [this, old]
  · rw [if_neg old]
    by_cases none : room = 0
    · left
      simp [none, parseCa_eq]
    · have here : 0 < room ∧ ratOf d.netType ≠ .g3 ∧ ratOf d.netType ≠ .g2 := by
        refine ⟨by omega, ?_⟩
        tauto
      rw [if_pos here]
      simp only [List.length_map]
      split
      · rename_i stands
        right
        rw [List.length_eq_zero_iff.mp stands.1]
        exact ⟨rfl, here.1, rfl⟩
      · left
        rfl

/-- All carriers, in their order. -/
def allCarriers (d : Data) : List (Carrier F) :=
  nrCarriers fl d ++ lteCarriers fl d (CA_MAX - (nrCarriers fl d).length)

theorem length_allCarriers (d : Data) : (allCarriers fl d).length ≤ CA_MAX := by
  have nr := length_nrCarriers_le fl d
  have read : (lteRecords fl d).length ≤ CA_MAX - (nrCarriers fl d).length := by
    rw [length_nrCarriers]
    unfold lteRecords
    split <;> simp
  rw [allCarriers, List.length_append]
  rcases lteCarriers_cases fl d with e | ⟨-, left, e⟩
  · rw [e, List.length_map]
    omega
  · rw [e, List.length_singleton]
    omega

/-! ### A carrier that is active once -/

def Once (l : List (Carrier F)) : Prop :=
  ∀ c ∈ l, l.countP (fun a => a.active && same c a) ≤ 1

/-- What a carrier is told from others by. -/
structure SameAs (c c' : Carrier F) : Prop where
  kind : c.kind = c'.kind
  pci : c.pci = c'.pci
  band : c.band = c'.band
  active : c.active = c'.active

theorem same_iff {c c' : Carrier F} :
    same c c' ↔
      c.kind = c'.kind ∧ c.pci = c'.pci ∧ (c.band = c'.band ∨ c.band = 0 ∨ c'.band = 0) := by
  simp [same, and_assoc, or_assoc]

theorem once_map {g : Carrier F → Carrier F} (keeps : ∀ c, SameAs (g c) c)
    (l : List (Carrier F)) : Once (l.map g) ↔ Once l := by
  have alike (c a : Carrier F) :
      ((g a).active && same (g c) (g a)) = (a.active && same c a) := by
    simp [same, (keeps c).kind, (keeps c).pci, (keeps c).band, (keeps a).kind, (keeps a).pci,
      (keeps a).band, (keeps a).active]
  simp [Once, List.countP_map, Function.comp_def, alike]

theorem countP_same_eq_zero {c : Carrier F} {l : List (Carrier F)} :
    l.countP (fun a => a.active && same c a) = 0 ↔ ∀ a ∈ l, a.active → ¬same c a := by
  simp [List.countP_eq_zero]

theorem once_append {l l' : List (Carrier F)} (nr : ∀ c ∈ l, c.kind = .nr)
    (lte : ∀ c ∈ l', c.kind = .lte) : Once (l ++ l') ↔ Once l ∧ Once l' := by
  have left : ∀ c ∈ l, l'.countP (fun a => a.active && same c a) = 0 := by
    intro c hc
    rw [countP_same_eq_zero]
    intro a ha _
    simp [same, nr c hc, lte a ha]
  have right : ∀ c ∈ l', l.countP (fun a => a.active && same c a) = 0 := by
    intro c hc
    rw [countP_same_eq_zero]
    intro a ha _
    simp [same, lte c hc, nr a ha]
  have here : ∀ c ∈ l, (l ++ l').countP (fun a => a.active && same c a) =
      l.countP fun a => a.active && same c a := by
    intro c hc
    rw [List.countP_append, left c hc, Nat.add_zero]
  have there : ∀ c ∈ l', (l ++ l').countP (fun a => a.active && same c a) =
      l'.countP fun a => a.active && same c a := by
    intro c hc
    rw [List.countP_append, right c hc, Nat.zero_add]
  unfold Once
  rw [List.forall_mem_append]
  apply and_congr
  · exact forall₂_congr fun c hc => by rw [here c hc]
  · exact forall₂_congr fun c hc => by rw [there c hc]

/-- A carrier without a band in front is like every carrier of its cell. -/
theorem once_cons {s : Carrier F} {l : List (Carrier F)} (band : s.band = 0)
    (active : s.active) (kinds : ∀ c ∈ l, c.kind = s.kind) :
    Once (s :: l) ↔ (∀ c ∈ l, c.active → c.pci ≠ s.pci) ∧ Once l := by
  have like : same s s := by simp [same]
  constructor
  · intro h
    refine ⟨?_, ?_⟩
    · intro c hc on cell
      have first := h s (by simp)
      rw [List.countP_cons_of_pos (by simp [active, like])] at first
      have none : l.countP (fun a => a.active && same s a) = 0 := by omega
      apply countP_same_eq_zero.mp none c hc on
      simp [same, kinds c hc, cell, band]
    · intro c hc
      have := h c (List.mem_cons_of_mem _ hc)
      rw [List.countP_cons] at this
      omega
  · rintro ⟨other, h⟩ c hc
    rw [List.countP_cons]
    split
    · rename_i hs
      have none : l.countP (fun a => a.active && same c a) = 0 := by
        rw [countP_same_eq_zero]
        intro a ha on like
        simp only [Bool.and_eq_true, same_iff] at hs like
        exact other a ha on (like.2.1.symm.trans hs.2.2.1)
      omega
    · rename_i hs
      rcases List.mem_cons.mp hc with rfl | hc
      · simp [active, like] at hs
      · have := h c hc
        omega

theorem once_iff_apart {kind : Kind} {l : List (Carrier F)} (kinds : ∀ c ∈ l, c.kind = kind) :
    Once l ↔ Apart l := by
  unfold Once Apart
  simp only [countP_le_one, List.pairwise_iff_getElem]
  constructor
  · intro h i j hi hj lt activeI activeJ cell
    have kindI := kinds l[i] (List.getElem_mem hi)
    have kindJ := kinds l[j] (List.getElem_mem hj)
    refine ⟨?_, ?_⟩
    · intro band
      apply h l[i] (List.getElem_mem hi) i j hi hj lt
      simp [activeI, activeJ, same, kindI, kindJ, cell, band]
    · intro c hc cellC none
      apply h c hc i j hi hj lt
      simp [activeI, activeJ, same, kinds c hc, kindI, kindJ, cellC, cell, none]
  · rintro h c hc i j hi hj lt ⟨first, second⟩
    simp only [Bool.and_eq_true, same_iff] at first second
    obtain ⟨activeI, -, cellI, bandI⟩ := first
    obtain ⟨activeJ, -, cellJ, bandJ⟩ := second
    obtain ⟨bands, given⟩ := h i j hi hj lt activeI activeJ (cellI.symm.trans cellJ)
    have bandC := given c hc cellI
    have bandOfI := given l[i] (List.getElem_mem hi) rfl
    have bandOfJ := given l[j] (List.getElem_mem hj) (cellJ.symm.trans cellI)
    simp only [bandC, bandOfI, bandOfJ, or_false] at bandI bandJ
    exact bands (bandI.symm.trans bandJ)

/-- The band that a carrier is known under: none, where one of its cell has none. -/
def knownBand (l : List (Carrier F)) (c : Carrier F) : Int :=
  if l.any fun a => a.kind = c.kind && a.pci = c.pci && a.band = 0 then 0 else c.band

theorem knownBand_of_same {l : List (Carrier F)} {a b : Carrier F} (memA : a ∈ l)
    (memB : b ∈ l) (alike : same a b) : knownBand l a = knownBand l b := by
  obtain ⟨kind, pci, band⟩ := same_iff.mp alike
  unfold knownBand
  rw [kind, pci]
  split
  · rfl
  · rename_i given
    simp only [Bool.not_eq_true, List.any_eq_false, Bool.and_eq_true, decide_eq_true_eq] at given
    rcases band with band | none | none
    · exact band
    · exact absurd ⟨⟨kind, pci⟩, none⟩ (given a memA)
    · exact absurd ⟨⟨rfl, rfl⟩, none⟩ (given b memB)

/-- Under one known band there is a carrier like both. -/
theorem exists_same {l : List (Carrier F)} {a b : Carrier F} (mem : a ∈ l)
    (kind : a.kind = b.kind) (pci : a.pci = b.pci) (band : knownBand l a = knownBand l b) :
    ∃ c ∈ l, same c a ∧ same c b := by
  unfold knownBand at band
  rw [kind, pci] at band
  split at band
  · rename_i h
    obtain ⟨c, hc, h⟩ := List.any_eq_true.mp h
    simp only [Bool.and_eq_true, decide_eq_true_eq] at h
    refine ⟨c, hc, ?_, ?_⟩ <;> simp [same, h.1.1, h.1.2, h.2, kind, pci]
  · exact ⟨a, mem, by simp [same], by simp [same, kind, pci, band]⟩

theorem active_le_firsts {l : List (Carrier F)} (once : Once l) :
    (l.filter (·.active)).length ≤ (firsts same l).length := by
  apply length_filter_le_firsts fun c => (c.kind, c.pci, knownBand l c)
  · intro a ha b hb alike
    obtain ⟨kind, pci, -⟩ := same_iff.mp alike
    simp only [kind, pci, knownBand_of_same ha hb alike]
  · rw [List.pairwise_filter, List.pairwise_iff_getElem]
    intro i j hi hj lt activeI activeJ e
    simp only [Prod.mk.injEq] at e
    obtain ⟨c, hc, likeI, likeJ⟩ := exists_same (List.getElem_mem hi) e.1 e.2.1 e.2.2
    have pairs := List.pairwise_iff_getElem.mp (countP_le_one.mp (once c hc)) i j hi hj lt
    exact pairs (by simp [activeI, activeJ, likeI, likeJ])

theorem apart_of_once {l : List (Carrier F)} (once : Once l) :
    (l.filter (·.active)).Pairwise fun a b => same a b = false := by
  rw [List.pairwise_filter, List.pairwise_iff_getElem]
  intro i j hi hj lt activeI activeJ
  have self : same l[i] l[i] := by simp [same]
  have pairs := List.pairwise_iff_getElem.mp
    (countP_le_one.mp (once l[i] (List.getElem_mem hi))) i j hi hj lt
  simpa [activeI, activeJ, self] using pairs

/-! ### The counters -/

/-- The counters before and after the carriers of a list are counted. -/
structure Counts (v : NetView F) (l : List (Carrier F)) (v' : NetView F) : Prop where
  number : v'.actN = v.actN + (l.filter (·.active)).length
  bandwidth : v'.actBw = v.actBw + ((l.filter (·.active)).map (·.bw)).sum
  kinds : v'.actN - v'.actNr - v'.actLte = v.actN - v.actNr - v.actLte
  configured : v'.cfg = v.cfg

theorem Counts.nil (v : NetView F) : Counts v [] v := by
  constructor <;> simp

theorem Counts.trans {v v' v'' : NetView F} {l l' : List (Carrier F)} (h : Counts v l v')
    (h' : Counts v' l' v'') : Counts v (l ++ l') v'' where
  number := by
    rw [h'.number, h.number, List.filter_append, List.length_append]
    push_cast
    omega
  bandwidth := by
    rw [h'.bandwidth, h.bandwidth, List.filter_append, List.map_append, List.sum_append]
    omega
  kinds := h'.kinds.trans h.kinds
  configured := h'.configured.trans h.configured

theorem counts_count (v : NetView F) (c : Carrier F) : Counts v [c] (count v c) := by
  cases active : c.active
  · constructor <;> simp [count, active]
  · constructor <;> simp only [count, active, if_true]
    · simp [active]
    · simp [active]
    · split <;> omega

/-- The first band and the width leave the counters alone. -/
theorem counts_countNr (d : Data) (v : NetView F) (c : Carrier F) :
    Counts v [] (countNr d v c) := by
  unfold countNr
  split
  · constructor <;> simp
  · exact Counts.nil v

theorem counts_foldl (v : NetView F) (l : List (Carrier F)) : Counts v l (l.foldl count v) := by
  induction l generalizing v with
  | nil => exact Counts.nil v
  | cons c l ih => exact (counts_count v c).trans (ih (count v c))

theorem counts_foldl_countNr (d : Data) (v : NetView F) (l : List (Carrier F)) :
    Counts v [] (l.foldl (countNr d) v) := by
  induction l generalizing v with
  | nil => exact Counts.nil v
  | cons c l ih => exact (counts_countNr d v c).trans (ih (countNr d v c))

theorem shown_sameAs (d : Data) (c : Carrier F) : SameAs (shown fl d c) c := by
  constructor <;> rfl

theorem withSignal_sameAs (d : Data) (c : Carrier F) : SameAs (withSignal fl d c) c := by
  unfold withSignal
  split <;> constructor <;> rfl

theorem counts_carriers (d : Data) :
    Counts {} ((allCarriers fl d).map (shown fl d)) (carriers fl d {}) := by
  have h := (counts_foldl {} ((allCarriers fl d).map (shown fl d))).trans
    (counts_foldl_countNr d _ ((allCarriers fl d).map (shown fl d)))
  rw [List.append_nil] at h
  exact ⟨h.number, h.bandwidth, h.kinds, h.configured⟩

theorem netView_carriers (d : Data) (nosvc : Bool) :
    (netView fl d nosvc).carriers = (allCarriers fl d).map (shown fl d) := rfl

theorem netView_configured (d : Data) (nosvc : Bool) :
    (netView fl d nosvc).cfg = (firsts same (netView fl d nosvc).carriers).length := by
  have h : (netView fl d nosvc).cfg =
      (carriers fl d {}).cfg + (firsts same (netView fl d nosvc).carriers).length := rfl
  rw [h, (counts_carriers fl d).configured]
  exact zero_add _

/-! ### The active carriers are counted once -/

theorem once_nrCarriers (d : Data) :
    Once (nrCarriers fl d) ↔
      (servesNr d → ∀ c ∈ nrRecords fl d, c.active → c.pci ≠ d.nrPci) ∧
        Apart (nrRecords fl d) := by
  have kinds : ∀ c ∈ nrRecords fl d, c.kind = .nr := fun c => kind_of_mem_nrRecords fl
  rw [nrCarriers_eq, ← once_iff_apart kinds]
  by_cases serves : servesNr d
  · have first : Once (servingNr fl d :: nrRecords fl d) ↔
        (∀ c ∈ nrRecords fl d, c.active → c.pci ≠ d.nrPci) ∧ Once (nrRecords fl d) :=
      once_cons rfl rfl kinds
    simpa [serves] using first
  · simp [serves]

theorem once_lteCarriers (d : Data) :
    Once (lteCarriers fl d (CA_MAX - (nrCarriers fl d).length)) ↔ Apart (lteRecords fl d) := by
  have kinds : ∀ c ∈ lteRecords fl d, c.kind = .lte := fun c => kind_of_mem_lteRecords fl
  rcases lteCarriers_cases fl d with e | ⟨none, -, e⟩
  · rw [e, once_map (withSignal_sameAs fl d), once_iff_apart kinds]
  · rw [e, none]
    have alone : Once [servingLte fl d] := by
      intro c hc
      exact List.countP_le_length
    exact iff_of_true alone List.Pairwise.nil

theorem once_allCarriers (d : Data) : Once (allCarriers fl d) ↔ Separate fl d := by
  have nr : ∀ c ∈ nrCarriers fl d, c.kind = .nr := by
    intro c hc
    rw [nrCarriers_eq] at hc
    rcases List.mem_append.mp hc with hc | hc
    · split at hc
      · rw [List.mem_singleton.mp hc]
        rfl
      · simp at hc
    · exact kind_of_mem_nrRecords fl hc
  have lte : ∀ c ∈ lteCarriers fl d (CA_MAX - (nrCarriers fl d).length), c.kind = .lte := by
    intro c hc
    rcases lteCarriers_cases fl d with e | ⟨-, -, e⟩
    · rw [e] at hc
      obtain ⟨c', hc', rfl⟩ := List.mem_map.mp hc
      rw [(withSignal_sameAs fl d c').kind]
      exact kind_of_mem_lteRecords fl hc'
    · rw [e] at hc
      rw [List.mem_singleton.mp hc]
      rfl
  rw [allCarriers, once_append nr lte, once_nrCarriers, once_lteCarriers]
  constructor
  · rintro ⟨⟨serving, nrca⟩, lteca⟩
    exact ⟨serving, nrca, lteca⟩
  · rintro ⟨serving, nrca, lteca⟩
    exact ⟨⟨serving, nrca⟩, lteca⟩

theorem once_netView (d : Data) (nosvc : Bool) :
    Once (netView fl d nosvc).carriers ↔ Separate fl d := by
  rw [netView_carriers, once_map (shown_sameAs fl d), once_allCarriers]

theorem once_iff_countP (v : NetView F) :
    Once v.carriers ↔ ∀ c ∈ v.carriers, v.active.countP (same c) ≤ 1 := by
  simp [Once, NetView.active, List.countP_filter, Bool.and_comm]

/-- What `carriers` and `summary` count is right if and only if no active carrier is there
    twice. -/
theorem countedOnce_iff_separate (d : Data) (nosvc : Bool) :
    CountedOnce (netView fl d nosvc) ↔ Separate fl d := by
  have counts := counts_carriers fl d
  constructor
  · intro h
    exact (once_netView fl d nosvc).mp ((once_iff_countP _).mpr h.once)
  · intro h
    have once := (once_netView fl d nosvc).mpr h
    have number : (netView fl d nosvc).actN = ((netView fl d nosvc).active.length : Int) := by
      have := counts.number
      rw [zero_add] at this
      exact this
    have kinds : (netView fl d nosvc).actN - (netView fl d nosvc).actNr -
        (netView fl d nosvc).actLte = 0 := counts.kinds
    refine ⟨?_, by omega, (once_iff_countP _).mp once, ?_, ?_⟩
    · rw [netView_carriers, List.length_map]
      exact length_allCarriers fl d
    · rw [number, netView_configured]
      exact_mod_cast active_le_firsts once
    · rw [NetView.active, firsts_of_pairwise (apart_of_once once)]
      have := counts.bandwidth
      rw [zero_add] at this
      exact this

/-- The serving 5G cell is a record of `nrca` too. -/
def servingRepeated : Value :=
  .obj [("net", .obj [("type", .str "SA"), ("nr_rsrp", .num (.int (-90))),
    ("nr_band", .str "78"), ("nr_bw", .str "100"), ("nr_pci", .num (.int 17)),
    ("nrca", .str "0,17,0,78,627264,100,0,-90,-11,18.0,-60")])]

theorem servingRepeated_counted_twice :
    ¬CountedOnce (netView rationals (parse Signal.bitsText servingRepeated) false) := by
  intro h
  have number : (netView rationals (parse Signal.bitsText servingRepeated) false).actN = 2 := by
    decide +kernel
  have configured : (netView rationals (parse Signal.bitsText servingRepeated) false).cfg = 1 := by
    decide +kernel
  have := h.configured
  omega

end Screen

end Datad
