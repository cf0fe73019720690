/-
  Datad/Executor/Rotation.lean
  ============================
  **The rotation of the blocks** (`read_blocks`, V2-20).

  A round goes over the blocks from the cursor on and stops at the first due one that the
  budget does not admit; the next round starts there.  An observer writes down for each
  round what became of the blocks in turn.  A block that a round leaves unread is nearer to
  the start of the next one, so no block is left unread for as many rounds as there are
  blocks (`rotation_fair`).
-/
import Datad.Executor.Rounds
import Datad.Lib.Cyclic

namespace Datad

namespace Executor

open Cyclic Hub Transition

/-! ### The observer -/

/-- What became of a block when its turn came: it was not due; it was due and its read
    recorded; it was due and left, for want of budget. -/
inductive Visit where
  | notDue
  | read
  | left
deriving DecidableEq

/-- A round: where it started, and what became of the blocks from there on. -/
structure RoundLog where
  start : Nat
  seen : List Visit := []
deriving DecidableEq

structure Rota where
  /-- The rounds that are over, the newest first. -/
  past : List RoundLog := []
  /-- The round under way. -/
  current : Option RoundLog := none

/-- What the step makes of the block whose turn it is. -/
def visit (cfg : Config) (s : Shared) : Point → RoundAct → Option Visit
  | .test start k, .test now =>
    if !s.due cfg ((start + k) % s.n) now then some .notDue
    else if cfg.budget ≤ s.round.used then some .left
    else none
  | .read _ _ i, .send now _ =>
    if (s.passes cfg true false (s.object i) now).1 then none else some .read
  | .waiting .., .reply .. => some .read
  | _, _ => none

namespace RoundLog

def add (r : RoundLog) (v : Option Visit) : RoundLog := { r with seen := r.seen ++ v.toList }

/-- What became of block `i` of `n`. -/
def Saw (r : RoundLog) (n i : Nat) (v : Visit) : Prop :=
  ∃ k < n, (r.start + k) % n = i ∧ r.seen[k]? = some v

/-- Where the round after this one starts. -/
def next (r : RoundLog) (n : Nat) : Nat :=
  if .left ∈ r.seen then (r.start + (r.seen.length - 1)) % n else r.start

end RoundLog

namespace Rota

/-- All rounds, the newest first. -/
def rounds (g : Rota) : List RoundLog := g.current.toList ++ g.past

/-- A round begins at the cursor. -/
def begin (s : Shared) (g : Rota) : Rota := { g with current := some { start := s.cursor % s.n } }

/-- The round under way takes a step. -/
def pass (cfg : Config) (s : Shared) (p : Point) (r : RoundAct) (g : Rota) : Rota :=
  match p, r with
  | .ended, .roundEnd _ => { past := g.rounds }
  | p, r => { g with current := g.current.map (·.add (visit cfg s p r)) }

def note (cfg : Config) : Shared → Act → Shared → Rota → Rota := noteRounds begin (pass cfg)

end Rota

/-! ### What holds of the log -/

/-- A round that is past its blocks. -/
structure RoundLog.Sound (n : Nat) (r : RoundLog) : Prop where
  start : r.start < n ∨ n = 0
  whole : .left ∉ r.seen → r.seen.length = n
  left : ∀ k, r.seen[k]? = some .left → 0 < k ∧ k < n ∧ k + 1 = r.seen.length

/-- A round at its `k`-th block. -/
structure Scanning (n cursor : Nat) (used : Duration) (r : RoundLog) (start k : Nat) : Prop where
  begun : r.start = start
  at_cursor : cursor % n = start
  passed : r.seen.length = k
  none_left : .left ∉ r.seen
  fresh : k = 0 → used = 0

/-- The log of a round that stands at a point. -/
def At (n cursor : Nat) (used : Duration) (r : RoundLog) : Point → Prop
  | .block start k => k ≤ n ∧ Scanning n cursor used r start k
  | .test start k => k < n ∧ Scanning n cursor used r start k
  | .read start k i | .waiting start k i _ =>
    k < n ∧ i = (start + k) % n ∧ Scanning n cursor used r start k
  | .blocks | .legacy | .calling _ | .ended => r.Sound n ∧ cursor % n = r.next n

section Log

variable {n cursor start k : Nat} {used : Duration} {r : RoundLog}

theorem Scanning.begin (n cursor : Nat) :
    Scanning n cursor 0 { start := cursor % n } (cursor % n) 0 where
  begun := rfl
  at_cursor := rfl
  passed := rfl
  none_left := by simp
  fresh _ := rfl

/-- The block is passed, read or not due. -/
theorem Scanning.add (h : Scanning n cursor used r start k) {v : Visit} (hv : v ≠ .left)
    (used' : Duration) : Scanning n cursor used' (r.add v) start (k + 1) where
  begun := h.begun
  at_cursor := h.at_cursor
  passed := by simp [RoundLog.add, h.passed]
  none_left := by simpa [RoundLog.add, h.none_left] using hv.symm
  fresh hk := absurd hk (Nat.succ_ne_zero k)

theorem Scanning.lt (h : Scanning n cursor used r start k) : r.start < n ∨ n = 0 := by
  rcases Nat.eq_zero_or_pos n with hn | hn
  · exact .inr hn
  · exact .inl (by rw [h.begun, ← h.at_cursor]; exact Nat.mod_lt _ hn)

/-- All blocks were passed. -/
theorem Scanning.whole (h : Scanning n cursor used r start n) :
    r.Sound n ∧ cursor % n = r.next n := by
  refine ⟨⟨h.lt, fun _ => h.passed, fun k hk => ?_⟩, ?_⟩
  · exact absurd (List.mem_of_getElem? hk) h.none_left
  · rw [RoundLog.next, if_neg h.none_left, h.at_cursor, h.begun]

/-- A block is left. -/
theorem Scanning.left (h : Scanning n cursor used r start k) (hk : k < n) (hused : used ≠ 0) :
    (r.add (some .left)).Sound n ∧ (start + k) % n % n = (r.add (some .left)).next n := by
  have hseen : (r.add (some .left)).seen = r.seen ++ [.left] := rfl
  refine ⟨⟨h.lt, ?_, ?_⟩, ?_⟩
  · simp [hseen]
  · intro j hj
    rw [hseen, List.getElem?_append] at hj
    split at hj
    · exact absurd (List.mem_of_getElem? hj) h.none_left
    · rename_i hle
      rw [List.getElem?_singleton] at hj
      split at hj
      · rw [hseen, List.length_append, List.length_singleton]
        have hpos : k ≠ 0 := fun hz => hused (h.fresh hz)
        have := h.passed
        omega
      · cases hj
  · rw [RoundLog.next, if_pos (by simp [hseen]), hseen, List.length_append,
      List.length_singleton, Nat.add_sub_cancel, h.passed, Nat.mod_mod]
    exact congrArg (fun x => (x + k) % n) h.begun.symm

@[simp] theorem RoundLog.add_none (r : RoundLog) : r.add none = r := by
  simp [RoundLog.add]

end Log

/-! ### What a step keeps -/

/-- No round is under way and the cursor is where the last one left it, or one round is at
    a point. -/
inductive Stands (n : Nat) (s : Shared) (g : Rota) : Prop where
  | idle (points : pointsOf s.frames = []) (current : g.current = none)
      (cursor : ∀ r ∈ g.past.head?, s.cursor % n = r.next n)
  | busy (p : Point) (r : RoundLog) (points : pointsOf s.frames = [p])
      (current : g.current = some r) (at_point : At n s.cursor s.round.used r p)

structure Rotating (n : Nat) (s : Shared) (g : Rota) : Prop where
  blocks : s.n = n
  past : ∀ r ∈ g.past, r.Sound n
  chain : g.rounds.IsChain fun r' r => r'.start = r.next n
  stands : Stands n s g

section Steps

variable {cfg : Config} {n : Nat} {s s' : Shared} {a : Act} {g : Rota}

theorem new_rotating (specs : List BlockSpec) (interval : Duration) :
    Rotating specs.length (Shared.new specs interval) {} where
  blocks := by simp [Shared.n, Shared.new, Hub.new]
  past := by simp
  chain := .nil
  stands := .idle rfl rfl (by simp)

theorem Rotating.aside (h : Rotating n s g) (hs : Aside s a s') : Rotating n s' g := by
  refine ⟨hs.n.trans h.blocks, h.past, h.chain, ?_⟩
  cases h.stands with
  | idle points current cursor =>
    exact .idle (hs.points.trans points) current (hs.cursor ▸ cursor)
  | busy p r points current at_point =>
    refine .busy p r (hs.points.trans points) current ?_
    rw [hs.cursor, hs.round]
    exact at_point

theorem Rotating.begin (h : Rotating n s g) (alone : pointsOf s.frames = [])
    (points : pointsOf s'.frames = [.block (s.cursor % s.n) 0]) (round : s'.round = {})
    (cursor : s'.cursor = s.cursor) (hn : s'.n = s.n) : Rotating n s' (g.begin s) := by
  cases h.stands with
  | busy p r hp current at_point => cases alone.symm.trans hp
  | idle _ current hcursor =>
    have hrounds : g.rounds = g.past := by rw [Rota.rounds, current]; rfl
    refine ⟨hn.trans h.blocks, h.past, ?_, ?_⟩
    · have hchain := h.chain
      rw [hrounds] at hchain
      apply List.isChain_cons.mpr
      exact ⟨by rw [h.blocks]; exact hcursor, hchain⟩
    · refine .busy _ _ points rfl ⟨Nat.zero_le n, ?_⟩
      rw [h.blocks, cursor, round]
      exact Scanning.begin n s.cursor

/-- The round under way goes on to its next point. -/
theorem Rotating.moves (h : Rotating n s g) {r : RoundLog} (hr : g.current = some r)
    {v : Option Visit} (hn : s'.n = s.n) {p' : Point} (hp : pointsOf s'.frames = [p'])
    (hat : At n s'.cursor s'.round.used (r.add v) p') :
    Rotating n s' { g with current := g.current.map (·.add v) } := by
  refine ⟨hn.trans h.blocks, h.past, ?_, .busy p' (r.add v) hp (by simp [hr]) hat⟩
  have hchain := h.chain
  rw [Rota.rounds, hr] at hchain ⊢
  exact List.isChain_cons.mpr (List.isChain_cons.mp hchain)

/-- The round under way goes on, past no block. -/
theorem Rotating.stays (h : Rotating n s g) {r : RoundLog} (hr : g.current = some r)
    {v : Option Visit} (hv : v = none) (hn : s'.n = s.n) {p' : Point}
    (hp : pointsOf s'.frames = [p']) (hat : At n s'.cursor s'.round.used r p') :
    Rotating n s' { g with current := g.current.map (·.add v) } := by
  subst hv
  exact h.moves hr hn hp (by rw [RoundLog.add_none]; exact hat)

theorem Rotating.ends (h : Rotating n s g) {r : RoundLog} (hr : g.current = some r)
    (hat : At n s.cursor s.round.used r .ended) (hn : s'.n = s.n)
    (hp : pointsOf s'.frames = []) (hc : s'.cursor = s.cursor) :
    Rotating n s' { past := g.rounds } := by
  have hrounds : g.rounds = r :: g.past := by rw [Rota.rounds, hr]; rfl
  refine ⟨hn.trans h.blocks, ?_, h.chain, .idle hp rfl ?_⟩
  · rw [hrounds]
    intro x hx
    rcases List.mem_cons.mp hx with rfl | hx
    · exact hat.1
    · exact h.past x hx
  · rw [hrounds]
    rintro x ⟨⟩
    rw [hc]
    exact hat.2

theorem Rotating.pass (hbudget : 0 < cfg.budget) (h : Rotating n s g) {ra : RoundAct}
    {legacy : Bool} {p : Point} {rest : List Frame} (hf : s.frames = .round legacy p :: rest)
    (hp : Pass cfg s legacy rest p ra s') : Rotating n s' (g.pass cfg s p ra) := by
  have hpoints : pointsOf s.frames = p :: pointsOf rest := by rw [hf]; rfl
  cases h.stands with
  | idle points current cursor => cases hpoints.symm.trans points
  | busy q r points current hat =>
    obtain ⟨rfl, hrest⟩ := List.cons.inj (hpoints.symm.trans points)
    -- the frames below hold no round
    have hone : ∀ p', p' :: pointsOf rest = [p'] := fun p' => by rw [hrest]
    obtain rfl := h.blocks
    cases hp with
    | block hk => exact h.stays current rfl rfl (hone _) ⟨hk, hat.2⟩
    | last hk =>
      obtain ⟨hle, hscan⟩ := hat
      obtain rfl := Nat.le_antisymm hle (Nat.le_of_not_lt hk)
      exact h.stays current rfl rfl (hone _) hscan.whole
    | notDue hd =>
      refine h.moves current rfl (hone _) ⟨hat.1, ?_⟩
      simp only [visit, hd, Bool.not_false, if_true]
      exact hat.2.add (by simp) _
    | left hd hb =>
      have hused : s.round.used ≠ 0 := Nat.ne_of_gt (Nat.lt_of_lt_of_le hbudget hb)
      refine h.moves current rfl (hone _) ?_
      simp only [visit, hd, hb, Bool.not_true, if_true]
      exact hat.2.left hat.1 hused
    | due hd hb =>
      refine h.stays current ?_ rfl (hone _) ⟨hat.1, rfl, hat.2⟩
      simp [visit, hd, Nat.not_le.mpr hb]
    | send ha =>
      obtain ⟨cutLogged, cooldown, heq⟩ := (s.passes_spec cfg false _ _).1
      rw [heq]
      refine h.stays current ?_ rfl (hone _) hat
      simp [visit, ha]
    | skip ha =>
      obtain ⟨cutLogged, cooldown, heq⟩ := (s.passes_spec cfg false _ _).1
      rw [heq]
      refine h.moves current (recordRead_length ..) (hone _) ⟨hat.1, ?_⟩
      simp only [visit, ha]
      exact hat.2.2.add (by simp) _
    | reply result elapsed now wall =>
      obtain ⟨cooldown, heq⟩ := s.called_frame cfg true false _ result elapsed now
      rw [heq]
      exact h.moves current (recordRead_length ..) (hone _) ⟨hat.1, hat.2.2.add (by simp) _⟩
    | blocks =>
      refine h.stays current rfl rfl (hone _) ?_
      cases legacy <;> exact hat
    | legacy => exact h.stays current rfl rfl (hone _) hat
    | call ha =>
      obtain ⟨cutLogged, cooldown, heq⟩ := (s.passes_spec cfg true _ _).1
      rw [heq]
      exact h.stays current rfl rfl (hone _) hat
    | skipCall ha =>
      obtain ⟨cutLogged, cooldown, heq⟩ := (s.passes_spec cfg true _ _).1
      rw [heq]
      exact h.stays current rfl rfl (hone _) hat
    | answer result elapsed now =>
      obtain ⟨cooldown, heq⟩ := s.called_frame cfg true true _ result elapsed now
      rw [heq]
      exact h.stays current rfl rfl (hone _) hat
    | done => exact h.stays current rfl rfl (hone _) hat
    | ended now =>
      have hsame : (s.roundEnd rest now).n = s.n ∧ (s.roundEnd rest now).cursor = s.cursor := by
        have hlen : (Hub.roundEnd s.hub now s.interval).1.blocks.length = s.hub.blocks.length :=
          Pointwise.length_eq (roundEnd_untried _ _ _)
        cases rest <;> exact ⟨hlen, rfl⟩
      exact h.ends current hat hsame.1 (by rw [Shared.roundEnd_frames, hrest]) hsame.2

end Steps

/-! ### Fairness -/

section Fair

variable {n i : Nat} {r r' : RoundLog}

/-- A round that left a block unread before it came to block `i`, and so saw nothing of `i`. -/
theorem RoundLog.Sound.passed (h : r.Sound n) (hi : i < n)
    (hmiss : ¬r.Saw n i .notDue ∧ ¬r.Saw n i .read) :
    Passed n i (r.next n) r.start := by
  have hlt : ahead n r.start i < n := ahead_lt (Nat.zero_lt_of_lt hi) _ _
  have hsaw : ∀ v, r.seen[ahead n r.start i]? = some v → r.Saw n i v := fun v hv =>
    ⟨_, hlt, add_ahead hi _, hv⟩
  by_cases hleft : .left ∈ r.seen
  · obtain ⟨k, hk⟩ := List.mem_iff_getElem?.mp hleft
    obtain ⟨hpos, hkn, hlast⟩ := h.left k hk
    refine ⟨k, hpos, ?_, ?_⟩
    · -- had the round come further, it would have seen block `i`
      by_contra hfar
      have hin : ahead n r.start i < r.seen.length := by omega
      rcases hv : r.seen[ahead n r.start i] with _ | _ | _
      · exact hmiss.1 (hsaw _ (by rw [List.getElem?_eq_getElem hin, hv]))
      · exact hmiss.2 (hsaw _ (by rw [List.getElem?_eq_getElem hin, hv]))
      · have := (h.left _ (by rw [List.getElem?_eq_getElem hin, hv])).2.2
        omega
    · rw [RoundLog.next, if_pos hleft, ← hlast, Nat.add_sub_cancel]
  · exfalso
    have hin : ahead n r.start i < r.seen.length := by rw [h.whole hleft]; exact hlt
    rcases hv : r.seen[ahead n r.start i] with _ | _ | _
    · exact hmiss.1 (hsaw _ (by rw [List.getElem?_eq_getElem hin, hv]))
    · exact hmiss.2 (hsaw _ (by rw [List.getElem?_eq_getElem hin, hv]))
    · exact hleft (hv ▸ List.getElem_mem hin)

/-- Fewer than `n` rounds in a row miss a block. -/
theorem length_lt_of_missed (hi : i < n) {rs : List RoundLog} (hs : ∀ r ∈ rs, r.Sound n)
    (hc : rs.IsChain fun r' r => r'.start = r.next n)
    (hmiss : ∀ r ∈ rs, ¬r.Saw n i .notDue ∧ ¬r.Saw n i .read) : rs.length < n := by
  have hpassed : (rs.map RoundLog.start).IsChain (Passed n i) := by
    rw [List.isChain_map]
    refine List.IsChain.imp_of_mem_imp ?_ hc
    intro r' r _ hr hnext
    rw [hnext]
    exact (hs r hr).passed hi (hmiss r hr)
  have := length_lt_of_passed hi hpassed ?_
  · rwa [List.length_map] at this
  · cases rs with
    | nil => simp
    | cons r rs =>
      rintro a ⟨⟩
      obtain ⟨k, hpos, hle, -⟩ := (hs r (by simp)).passed hi (hmiss r (by simp))
      omega

theorem RoundLog.Sound.next_of_left (h : r.Sound n) {k : Nat} (hk : r.seen[k]? = some .left) :
    r.next n = (r.start + k) % n := by
  have hlast := (h.left k hk).2.2
  rw [RoundLog.next, if_pos (List.mem_of_getElem? hk), ← hlast, Nat.add_sub_cancel]

/-- A log of a round that is over or under way. -/
theorem RoundLog.Sound.before (h : r.Sound n ∨ .left ∉ r.seen) {k : Nat}
    (hk : r.seen[k]? = some .left) : 0 < k ∧ k < n ∧ ∀ j < k, r.seen[j]? ≠ some .left := by
  rcases h with h | h
  · obtain ⟨hpos, hlt, hlast⟩ := h.left k hk
    refine ⟨hpos, hlt, fun j hj hleft => ?_⟩
    have := (h.left j hleft).2.2
    omega
  · exact absurd (List.mem_of_getElem? hk) h

theorem At.log {cursor : Nat} {used : Duration} {p : Point} (h : At n cursor used r p) :
    r.Sound n ∧ cursor % n = r.next n ∨ .left ∉ r.seen := by
  cases p with
  | block => exact .inr h.2.none_left
  | test => exact .inr h.2.none_left
  | read => exact .inr h.2.2.none_left
  | waiting => exact .inr h.2.2.none_left
  | _ => exact .inl h

theorem mem_tail_of_infix {α : Type} {a a' : α} {l : List α} (h : [a', a] <:+: l) :
    a ∈ l.tail := by
  obtain ⟨pre, post, rfl⟩ := h
  cases pre <;> simp

end Fair

/-- **The rotation starves no block.**  In a run without nested rounds, whatever the calls
    take and answer and whatever jobs run in between, with `n` blocks and a positive budget:
    `n` rounds in a row in which a block is due whenever it is tested read it at least once
    (derived blocks are never due).  A round that leaves a due block unread leaves the first
    such one, which lies ahead of its start; the cursor is then there, the next round starts
    there, and does not leave that block. -/
theorem rotation_fair (cfg : Config) (hbudget : 0 < cfg.budget) (specs : List BlockSpec)
    (interval : Duration) {s : Shared} {g : Rota}
    (h : Exec (watched (Shared.next cfg) (Rota.note cfg)) (fun q a => Unnested q.1 a)
      (Shared.new specs interval, {}) (s, g)) :
    (∀ rs, rs <:+: g.past → rs.length = specs.length → ∀ i < specs.length,
      (∀ r ∈ rs, ¬r.Saw specs.length i .notDue) → ∃ r ∈ rs, r.Saw specs.length i .read) ∧
    (∀ r ∈ g.rounds, ∀ k, r.seen[k]? = some .left →
      0 < k ∧ k < specs.length ∧ ∀ j < k, r.seen[j]? ≠ some .left) ∧
    (∀ r ∈ g.rounds.head?, ∀ k, r.seen[k]? = some .left →
      s.cursor % specs.length = (r.start + k) % specs.length) ∧
    (∀ r' r, [r', r] <:+: g.rounds → ∀ k, r.seen[k]? = some .left →
      r'.start = (r.start + k) % specs.length ∧ r'.seen.head? ≠ some .left) := by
  have hr : Rotating specs.length s g :=
    single_rounds_invariant (Rotating specs.length) (new_rotating specs interval)
      Rotating.aside Rotating.begin (fun hg hf hp => hg.pass hbudget hf hp) h
  have hcurrent : ∀ r, g.current = some r →
      r.Sound specs.length ∧ s.cursor % specs.length = r.next specs.length ∨
        .left ∉ r.seen := by
    intro r hc
    cases hr.stands with
    | idle _ current _ => cases hc.symm.trans current
    | busy p r' _ current at_point =>
      obtain rfl := Option.some.inj (hc.symm.trans current)
      exact at_point.log
  have hlogs : ∀ r ∈ g.rounds, r.Sound specs.length ∨ .left ∉ r.seen := by
    intro r hmem
    rw [Rota.rounds, List.mem_append, Option.mem_toList] at hmem
    rcases hmem with hmem | hmem
    · exact (hcurrent r hmem).imp_left And.left
    · exact .inl (hr.past r hmem)
  refine ⟨?_, fun r hmem k hk => RoundLog.Sound.before (hlogs r hmem) hk, ?_, ?_⟩
  · intro rs hrs hlen i hi hdue
    by_contra hunread
    rw [not_exists] at hunread
    have hc : g.past.IsChain fun r' r => r'.start = r.next specs.length :=
      List.IsChain.infix hr.chain (List.suffix_append _ _).isInfix
    have hrun : rs.IsChain fun r' r => r'.start = r.next specs.length :=
      List.IsChain.infix hc hrs
    have hlt := length_lt_of_missed hi (fun r hmem => hr.past r (hrs.subset hmem)) hrun
      fun r hmem => ⟨hdue r hmem, fun hread => hunread r ⟨hmem, hread⟩⟩
    omega
  · intro r hmem k hk
    rcases hc : g.current with _ | r'
    · cases hr.stands with
      | busy _ _ _ current _ => cases hc.symm.trans current
      | idle _ _ cursor =>
        rw [Rota.rounds, hc] at hmem
        rw [cursor r hmem, (hr.past r (List.mem_of_mem_head? hmem)).next_of_left hk]
    · rw [Rota.rounds, hc] at hmem
      obtain rfl := Option.some.inj hmem
      rcases hcurrent r' hc with ⟨hsound, hcursor⟩ | hnone
      · rw [hcursor, hsound.next_of_left hk]
      · exact absurd (List.mem_of_getElem? hk) hnone
  · intro r' r hinfix k hk
    have hpast : r ∈ g.past := by
      have htail := mem_tail_of_infix hinfix
      rw [Rota.rounds] at htail
      rcases hc : g.current with _ | c
      · rw [hc] at htail
        exact List.mem_of_mem_tail htail
      · rw [hc] at htail
        exact htail
    have hstart : r'.start = r.next specs.length := by
      have := List.IsChain.infix hr.chain hinfix
      rw [List.isChain_cons_cons] at this
      exact this.1
    refine ⟨hstart.trans ((hr.past r hpast).next_of_left hk), fun hhead => ?_⟩
    have hmem : r' ∈ g.rounds := hinfix.subset (by simp)
    have hzero : r'.seen[0]? = some .left := by rw [← List.head?_eq_getElem?, hhead]
    exact absurd (RoundLog.Sound.before (hlogs r' hmem) hzero).1 (Nat.lt_irrefl 0)

/-- A round of the main loop from its head to the end of its first drain. -/
def roundOpens (now : Instant) : List Act :=
  [.loop now, .round .safePoint, .drain now]

/-- The round's test of a block, and its read. -/
def readsBlock (now : Instant) (elapsed : Duration) : List Act :=
  [.round (.test now), .round (.send now 0), .round (.reply (.ok (.obj [])) elapsed now 0)]

/-- The old collection makes no request. -/
def roundCloses (now : Instant) : List Act :=
  [.round .safePoint, .drain now, .round .done, .drain now, .round (.roundEnd now)]

/-- The first read takes the whole budget; the next round starts with the block after it. -/
def tightRun : List Act :=
  .startRounds :: roundOpens 0 ++ readsBlock 0 5 ++
    [.round .safePoint, .drain 0, .round (.test 0)] ++ roundCloses 0 ++ roundOpens 0 ++
    readsBlock 0 5

theorem rotation_fair_tight : ∃ s g r r',
    Exec (watched (Shared.next { budget := 5 }) (Rota.note { budget := 5 }))
        (fun q a => Unnested q.1 a) (Shared.new sampleBlocks 0, {}) (s, g) ∧
      g.rounds = [r', r] ∧ r.seen = [.read, .left] ∧ r'.seen = [.read] ∧
      r'.start = (r.start + 1) % 2 := by
  have hrun : (run (watched (Shared.next { budget := 5 }) (Rota.note { budget := 5 }))
      (fun q a => unnested q.1 a) (Shared.new sampleBlocks 0, {}) tightRun).any
        (fun q => q.2.rounds = [⟨1, [.read]⟩, ⟨0, [.read, .left]⟩]) = true := by
    decide +kernel
  obtain ⟨⟨s, g⟩, h, hp⟩ :=
    Exec.exists_of_run (fun _ _ => Unnested.of_test _ _) (.refl _) hrun
  have hrounds : g.rounds = [⟨1, [.read]⟩, ⟨0, [.read, .left]⟩] := of_decide_eq_true hp
  have hnext := (rotation_fair { budget := 5 } (by decide) sampleBlocks 0 h).2.2.2
    ⟨1, [.read]⟩ ⟨0, [.read, .left]⟩ (by simp [hrounds]) 1 rfl
  exact ⟨s, g, _, _, h, hrounds, rfl, rfl, hnext.1⟩

end Executor

end Datad
