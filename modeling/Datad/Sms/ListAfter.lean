/-
  Datad/Sms/ListAfter.lean
  ========================
  **`sms.list_after`** (`rust/src/sms.rs`): the messages above an id, from two stores.

  The firmware lists a store by descending id, fifty messages a page.  `list_after_with`
  turns the pages of each store until it is down at the id, puts what it finds into one
  map by id, and returns the first `limit` entries of it.  A page that cannot be read
  fails the whole call, and so does a store with a thousand messages above the id.

  Every message above the id is on one of the pages before the first that has another or
  is short; what one page adds (`lookAll_spec`) and the induction on the pages left
  (`scan_spec`) say that the map holds exactly these.
-/
import Datad.Lib.Ascending
import Datad.Server.Control
import Mathlib.Data.Finset.Dedup

namespace Datad

namespace Value

/-- An integer that fits `u64`, below `2^64`. -/
def asU64 : Value → Option Nat
  | .num (.int i) => if 0 ≤ i ∧ i < 18446744073709551616 then some i.toNat else none
  | _ => none

def asArray : Value → Option (List Value)
  | .arr items => some items
  | _ => none

end Value

namespace Sms

open Ascending

/-! ### Reading a page -/

def LIST_PAGE : Nat := 50
def LIST_MAX_PAGES : Nat := 20

/-- `char::is_whitespace`. -/
def isWhitespace (c : Char) : Bool :=
  let n := c.toNat
  (9 ≤ n && n ≤ 13) || [0x20, 0x85, 0xa0, 0x1680, 0x2028, 0x2029, 0x202f, 0x205f, 0x3000].contains n
    || (0x2000 ≤ n && n ≤ 0x200a)

def trim (s : String) : List Char :=
  ((s.toList.dropWhile isWhitespace).reverse.dropWhile isWhitespace).reverse

/-- `str::parse::<u64>`: decimal digits, after a plus sign if there is one. -/
def parseU64 (cs : List Char) : Option Nat :=
  let digits : List Char := match cs with
    | '+' :: ds => ds
    | ds => ds
  let n := digits.foldl (fun n c => n * 10 + (c.toNat - '0'.toNat)) 0
  if digits ≠ [] ∧ digits.all Char.isDigit ∧ n < 18446744073709551616 then some n else none

def itemId (item : Value) : Option Nat :=
  (item.get "id").bind fun value => value.asU64.or (value.asStr.bind fun s => parseU64 (trim s))

def pageItems (reply : Value) : List Value :=
  (((reply.get "messages").or (reply.get "list")).bind Value.asArray).getD []

/-! ### Turning the pages -/

/-- The map by id, and what has been seen on the page. -/
structure Look where
  found : List (Nat × Value)
  reached : Bool := false
  fresh : Bool := false

def Look.item (afterId : Nat) (l : Look) (item : Value) : Look :=
  match itemId item with
  | none => l
  | some id =>
      if id ≤ afterId then { l with reached := true }
      else match insertVacant id item l.found with
        | none => l
        | some found => { l with found := found, fresh := true }

def lookAll (afterId : Nat) (l : Look) (items : List Value) : Look :=
  items.foldl (Look.item afterId) l

/-- The pages that were asked for, and what came of them. -/
structure Outcome (α : Type) where
  calls : List (Nat × Nat)
  result : Except String α

section

variable (fetch : Nat → Nat → Except String Value) (afterId : Nat)

/-- One store from some page on, `left` pages at most; `prev` are the ids of the page
    before. -/
def scan (store : Nat) : Nat → Nat → Option (Finset Nat) → List (Nat × Value) →
    Outcome (List (Nat × Value))
  | 0, _, _, _ =>
      ⟨[], .error
        s!"mem_store {store}: more than {LIST_MAX_PAGES * LIST_PAGE} SMS above id {afterId}"⟩
  | left + 1, page, prev, found =>
      match fetch store page with
      | .error error => ⟨[(store, page)], .error s!"mem_store {store}: {error}"⟩
      | .ok reply =>
          let items := pageItems reply
          let ids := (items.filterMap itemId).toFinset
          if LIST_PAGE ≤ items.length ∧ prev = some ids then
            ⟨[(store, page)], .error <| s!"mem_store {store}: page {page} repeats page " ++
              s!"{page - 1} (firmware ignored page)"⟩
          else
            let l := lookAll afterId ⟨found, false, false⟩ items
            if l.reached = true ∨ l.fresh = false ∨ items.length < LIST_PAGE then
              ⟨[(store, page)], .ok l.found⟩
            else
              let next := scan store left (page + 1) (some ids) l.found
              ⟨(store, page) :: next.calls, next.result⟩

/-- The stores one after another. -/
def scanAll : List Nat → List (Nat × Value) → Outcome (List (Nat × Value))
  | [], found => ⟨[], .ok found⟩
  | store :: stores, found =>
      let first := scan fetch afterId store LIST_MAX_PAGES 0 none found
      match first.result with
      | .error e => ⟨first.calls, .error e⟩
      | .ok found =>
          let rest := scanAll stores found
          ⟨first.calls ++ rest.calls, rest.result⟩

def listAfterWith (limit : Nat) : Outcome (List Value × Bool) :=
  let all := scanAll fetch afterId [1, 0] []
  match all.result with
  | .error e => ⟨all.calls, .error e⟩
  | .ok found =>
      ⟨all.calls, .ok ((found.map Prod.snd).take limit, decide (limit < found.length))⟩

end

/-! ### A store that does not change -/

def idOf (item : Value) : Nat := (itemId item).getD 0

structure Store where
  items : List Value
  identified : ∀ v ∈ items, itemId v = some (idOf v)
  descending : items.Pairwise fun a b => idOf b < idOf a

def Store.page (s : Store) (page : Nat) : List Value :=
  (s.items.drop (LIST_PAGE * page)).take LIST_PAGE

/-- Every page that is read is the right one. -/
def Serves (fetch : Nat → Nat → Except String Value) (store : Nat) (s : Store) : Prop :=
  ∀ page reply, fetch store page = .ok reply → pageItems reply = s.page page

/-- The messages of a store above an id. -/
def Store.above (s : Store) (afterId : Nat) : List Value :=
  s.items.filter fun v => decide (afterId < idOf v)

theorem Store.mem_above {s : Store} {afterId : Nat} {v : Value} :
    v ∈ s.above afterId ↔ v ∈ s.items ∧ afterId < idOf v := by
  simp [Store.above]

/-- The map holds these messages, each under its id. -/
structure Holds (found : List (Nat × Value)) (items : List Value) : Prop where
  sorted : found.Pairwise (·.1 < ·.1)
  mem : ∀ p, p ∈ found ↔ p.2 ∈ items ∧ p.1 = idOf p.2

/-- The ids of these are not those of the others. -/
def Apart (as bs : List Value) : Prop := ∀ a ∈ as, ∀ b ∈ bs, idOf a ≠ idOf b

/-- **One page**: its messages above the id are added. -/
theorem lookAll_spec (afterId : Nat) {l : Look} {base items : List Value}
    (hl : Holds l.found base) (hid : ∀ v ∈ items, itemId v = some (idOf v))
    (hdesc : items.Pairwise fun a b => idOf b < idOf a) (hapart : Apart base items) :
    Holds (lookAll afterId l items).found
        (base ++ items.filter fun v => decide (afterId < idOf v)) ∧
      ((lookAll afterId l items).reached = true ↔
        l.reached = true ∨ ∃ v ∈ items, idOf v ≤ afterId) ∧
      ((lookAll afterId l items).fresh = true ↔
        l.fresh = true ∨ ∃ v ∈ items, afterId < idOf v) := by
  induction items generalizing l base with
  | nil => simpa [lookAll] using hl
  | cons v items ih =>
    obtain ⟨hv, hdesc⟩ := List.pairwise_cons.mp hdesc
    have hidv := hid v List.mem_cons_self
    have hrest := fun w hw => hid w (List.mem_cons_of_mem v hw)
    have hcons : lookAll afterId l (v :: items) = lookAll afterId (l.item afterId v) items := rfl
    rw [hcons]
    by_cases hle : idOf v ≤ afterId
    · have hitem : l.item afterId v = { l with reached := true } := by
        simp [Look.item, hidv, hle]
      rw [hitem]
      obtain ⟨hfound, hreached, hfresh⟩ := ih (l := { l with reached := true }) hl hrest hdesc
        fun a ha b hb => hapart a ha b (List.mem_cons_of_mem _ hb)
      refine ⟨?_, ?_, ?_⟩
      · simpa [hle] using hfound
      · simp [hreached, hle]
      · simp [hfresh, not_lt.mpr hle]
    · have hlt : afterId < idOf v := not_le.mp hle
      obtain ⟨m, hm, hsorted, hmem⟩ := insertVacant_new v hl.sorted (k := idOf v) fun p hp heq => by
        obtain ⟨hin, hkey⟩ := (hl.mem p).mp hp
        exact hapart p.2 hin v List.mem_cons_self (hkey.symm.trans heq)
      have hitem : l.item afterId v = { l with found := m, fresh := true } := by
        simp [Look.item, hidv, hle, hm]
      have hholds : Holds m (base ++ [v]) := by
        refine ⟨hsorted, fun p => ?_⟩
        rw [hmem, hl.mem]
        constructor
        · rintro (rfl | ⟨hin, hkey⟩)
          · simp
          · exact ⟨List.mem_append_left _ hin, hkey⟩
        · rintro ⟨hin, hkey⟩
          rcases List.mem_append.mp hin with hin | hin
          · exact Or.inr ⟨hin, hkey⟩
          · rw [List.mem_singleton] at hin
            exact Or.inl (Prod.ext (hin ▸ hkey) hin)
      rw [hitem]
      obtain ⟨hfound, hreached, hfresh⟩ := ih (l := { l with found := m, fresh := true }) hholds
        hrest hdesc fun a ha b hb => by
          rcases List.mem_append.mp ha with ha | ha
          · exact hapart a ha b (List.mem_cons_of_mem _ hb)
          · rw [List.mem_singleton.mp ha]
            exact (hv b hb).ne'
      refine ⟨?_, ?_, ?_⟩
      · simpa [hlt] using hfound
      · simp [hreached, hle]
      · simp [hfresh, hlt]

/-- What comes of scanning a store: all that is above the id; or there is too much of it,
    or a page was asked for that could not be read. -/
inductive Scanned (fetch : Nat → Nat → Except String Value) (afterId : Nat) (s : Store)
    (base : List Value) : Outcome (List (Nat × Value)) → Prop where
  | read {calls : List (Nat × Nat)} {found : List (Nat × Value)}
      (found_holds : Holds found (base ++ s.above afterId))
      (few : (s.above afterId).length < LIST_MAX_PAGES * LIST_PAGE)
      (calls_read : ∀ c ∈ calls, ∃ reply, fetch c.1 c.2 = .ok reply) :
      Scanned fetch afterId s base ⟨calls, .ok found⟩
  | crowded {calls : List (Nat × Nat)} {e : String}
      (many : LIST_MAX_PAGES * LIST_PAGE ≤ (s.above afterId).length) :
      Scanned fetch afterId s base ⟨calls, .error e⟩
  | failed {calls : List (Nat × Nat)} {e : String}
      (unread : ∃ c ∈ calls, ∃ error, fetch c.1 c.2 = .error error) :
      Scanned fetch afterId s base ⟨calls, .error e⟩

section Scan

variable {fetch : Nat → Nat → Except String Value} {afterId store : Nat} {s : Store}

theorem Scanned.cons {base : List Value} {c : Nat × Nat} {reply : Value}
    {o : Outcome (List (Nat × Value))} (hc : fetch c.1 c.2 = .ok reply)
    (h : Scanned fetch afterId s base o) :
    Scanned fetch afterId s base ⟨c :: o.calls, o.result⟩ := by
  cases h with
  | read hfound hfew hcalls =>
    apply Scanned.read hfound hfew
    intro d hd
    rcases List.mem_cons.mp hd with rfl | hd
    · exact ⟨reply, hc⟩
    · exact hcalls d hd
  | crowded hmany => exact .crowded hmany
  | failed hunread =>
    obtain ⟨d, hd, he⟩ := hunread
    exact .failed ⟨d, List.mem_cons_of_mem _ hd, he⟩

theorem Store.mem_page {page : Nat} {v : Value} (h : v ∈ s.page page) : v ∈ s.items :=
  List.mem_of_mem_drop (List.mem_of_mem_take h)

theorem Store.take_page (s : Store) (page : Nat) :
    s.items.take (LIST_PAGE * page) ++ s.page page = s.items.take (LIST_PAGE * (page + 1)) := by
  rw [Store.page, Nat.mul_succ, List.take_add]

/-- No page of a store repeats an id of those before it. -/
theorem Store.not_repeated (s : Store) {page : Nat} {v w : Value}
    (hw : w ∈ s.items.take (LIST_PAGE * page)) (hv : v ∈ s.page page) : idOf v < idOf w := by
  have h := s.descending
  rw [← List.take_append_drop (LIST_PAGE * page) s.items] at h
  exact (List.pairwise_append.mp h).2.2 w hw v (List.mem_of_mem_take hv)

/-- A page all of whose messages are above the id. -/
theorem Store.page_full (s : Store) {page : Nat}
    (h : LIST_PAGE * (page + 1) ≤ (s.above afterId).length) :
    (∀ v ∈ s.page page, afterId < idOf v) ∧ (s.page page).length = LIST_PAGE := by
  obtain ⟨low, hsplit, -⟩ := eq_filter_append s.descending afterId
  have hA : s.items = s.above afterId ++ low := hsplit
  rw [Nat.mul_succ] at h
  have hpage : s.page page = ((s.above afterId).drop (LIST_PAGE * page)).take LIST_PAGE := by
    rw [Store.page, hA, List.drop_append_of_le_length (by omega),
      List.take_append_of_le_length (by rw [List.length_drop]; omega)]
  rw [hpage]
  refine ⟨fun v hv => ?_, ?_⟩
  · exact (mem_above.mp (List.mem_of_mem_drop (List.mem_of_mem_take hv))).2
  · rw [List.length_take, List.length_drop]
    omega

/-- The page on which the last message above the id is, or the first that has none: it
    has another message, or is short. -/
theorem Store.page_last (s : Store) {page : Nat} (h : LIST_PAGE * page ≤ (s.above afterId).length)
    (hend : (s.above afterId).length < LIST_PAGE * (page + 1)) :
    ((∃ v ∈ s.page page, idOf v ≤ afterId) ∨ (s.page page).length < LIST_PAGE) ∧
      s.items.take (LIST_PAGE * page) ++
        (s.page page).filter (fun v => decide (afterId < idOf v)) = s.above afterId := by
  obtain ⟨low, hsplit, hlow⟩ := eq_filter_append s.descending afterId
  have hA : s.items = s.above afterId ++ low := hsplit
  rw [Nat.mul_succ] at hend
  have hpage : s.page page = (s.above afterId).drop (LIST_PAGE * page) ++
      low.take (LIST_PAGE - ((s.above afterId).length - LIST_PAGE * page)) := by
    rw [Store.page, hA, List.drop_append_of_le_length h, List.take_append,
      List.take_of_length_le (by rw [List.length_drop]; omega), List.length_drop]
  have hle {v : Value} {n : Nat} (hv : v ∈ low.take n) : idOf v ≤ afterId :=
    hlow v (List.mem_of_mem_take hv)
  rw [hpage]
  generalize LIST_PAGE - ((s.above afterId).length - LIST_PAGE * page) = n at hpage ⊢
  refine ⟨?_, ?_⟩
  · by_cases hnone : low.take n = []
    · refine Or.inr ?_
      rw [hnone, List.append_nil, List.length_drop]
      omega
    · obtain ⟨v, hv⟩ := List.exists_mem_of_ne_nil _ hnone
      exact Or.inl ⟨v, List.mem_append_right _ hv, hle hv⟩
  · have hhigh : ((s.above afterId).drop (LIST_PAGE * page)).filter
        (fun v => decide (afterId < idOf v)) = (s.above afterId).drop (LIST_PAGE * page) := by
      rw [List.filter_eq_self]
      exact fun v hv => decide_eq_true (mem_above.mp (List.mem_of_mem_drop hv)).2
    have hnone : (low.take n).filter (fun v => decide (afterId < idOf v)) = [] := by
      rw [List.filter_eq_nil_iff]
      intro v hv
      simpa using hle hv
    rw [List.filter_append, hhigh, hnone, List.append_nil, hA,
      List.take_append_of_le_length h, List.take_append_drop]

/-- **A store is scanned** down to the id. -/
theorem scan_spec (hserve : Serves fetch store s) {base : List Value}
    (hapart : Apart base s.items) (left page : Nat) (prev : Option (Finset Nat))
    (found : List (Nat × Value)) (hleft : page + left = LIST_MAX_PAGES)
    (habove : LIST_PAGE * page ≤ (s.above afterId).length)
    (hprev : ∀ ids, prev = some ids →
      ∀ id ∈ ids, ∃ w ∈ s.items.take (LIST_PAGE * page), idOf w = id)
    (hfound : Holds found (base ++ s.items.take (LIST_PAGE * page))) :
    Scanned fetch afterId s base (scan fetch afterId store left page prev found) := by
  induction left generalizing page prev found with
  | zero =>
    apply Scanned.crowded
    have hpage : page = LIST_MAX_PAGES := hleft
    rw [← hpage, Nat.mul_comm]
    exact habove
  | succ left ih =>
    rw [scan]
    cases hread : fetch store page with
    | error e => exact .failed ⟨(store, page), List.mem_singleton_self _, e, hread⟩
    | ok reply =>
      have hid : ∀ v ∈ s.page page, itemId v = some (idOf v) :=
        fun v hv => s.identified v (Store.mem_page hv)
      have hdesc : (s.page page).Pairwise fun a b => idOf b < idOf a := (s.descending.drop).take
      have haway : Apart (base ++ s.items.take (LIST_PAGE * page)) (s.page page) := by
        intro a ha b hb
        rcases List.mem_append.mp ha with ha | ha
        · exact hapart a ha b (Store.mem_page hb)
        · exact (s.not_repeated ha hb).ne'
      obtain ⟨hholds, hreached, hfresh⟩ :=
        lookAll_spec afterId (l := ⟨found, false, false⟩) hfound hid hdesc haway
      -- a full page has a message, whose id is on no page before
      have hguard : ¬(LIST_PAGE ≤ (s.page page).length ∧
          prev = some ((s.page page).filterMap itemId).toFinset) := by
        rintro ⟨hfull, hsame⟩
        obtain ⟨v, hv⟩ := List.exists_mem_of_length_pos (lt_of_lt_of_le (by decide) hfull)
        have hin : idOf v ∈ ((s.page page).filterMap itemId).toFinset := by
          simp only [List.mem_toFinset, List.mem_filterMap]
          exact ⟨v, hv, hid v hv⟩
        obtain ⟨w, hw, heq⟩ := hprev _ hsame (idOf v) hin
        exact absurd heq (s.not_repeated hw hv).ne'
      simp only [hserve page reply hread]
      rw [if_neg hguard]
      by_cases hmore : LIST_PAGE * (page + 1) ≤ (s.above afterId).length
      · -- all of the page is above the id, and it goes on
        obtain ⟨hall, hlen⟩ := s.page_full hmore
        have hgo : ¬((lookAll afterId ⟨found, false, false⟩ (s.page page)).reached = true ∨
            (lookAll afterId ⟨found, false, false⟩ (s.page page)).fresh = false ∨
            (s.page page).length < LIST_PAGE) := by
          rintro (h | h | h)
          · rcases hreached.mp h with h | ⟨v, hv, hle⟩
            · cases h
            · exact absurd (hall v hv) (not_lt.mpr hle)
          · obtain ⟨v, hv⟩ := List.exists_mem_of_length_pos (lt_of_lt_of_eq (by decide) hlen.symm)
            rw [hfresh.mpr (Or.inr ⟨v, hv, hall v hv⟩)] at h
            cases h
          · exact absurd hlen h.ne
        have hkeep : (s.page page).filter (fun v => decide (afterId < idOf v)) = s.page page := by
          rw [List.filter_eq_self]
          exact fun v hv => decide_eq_true (hall v hv)
        rw [if_neg hgo]
        rw [hkeep, List.append_assoc, s.take_page] at hholds
        apply Scanned.cons hread
        apply ih (page + 1) _ _ (by omega) hmore _ hholds
        intro ids hids id hin
        rw [← Option.some.inj hids, List.mem_toFinset, List.mem_filterMap] at hin
        obtain ⟨v, hv, hidv⟩ := hin
        refine ⟨v, ?_, by rw [idOf, hidv]; rfl⟩
        rw [← s.take_page]
        exact List.mem_append_right _ hv
      · -- the last of them is on this page, which has another message or is short
        obtain ⟨hend, hkeep⟩ := s.page_last habove (not_le.mp hmore)
        have hstop : (lookAll afterId ⟨found, false, false⟩ (s.page page)).reached = true ∨
            (lookAll afterId ⟨found, false, false⟩ (s.page page)).fresh = false ∨
            (s.page page).length < LIST_PAGE :=
          hend.imp (fun h => hreached.mpr (Or.inr h)) Or.inr
        rw [if_pos hstop]
        rw [List.append_assoc, hkeep] at hholds
        apply Scanned.read hholds
        · have hpages : page + 1 ≤ LIST_MAX_PAGES := by omega
          have := Nat.mul_le_mul_left LIST_PAGE hpages
          rw [Nat.mul_comm]
          omega
        · intro c hc
          rw [List.mem_singleton.mp hc]
          exact ⟨reply, hread⟩

end Scan

/-! ### Both stores -/

/-- All messages of both stores, by ascending id. -/
def merged (nv sim : Store) : List Value :=
  nv.items.reverse.merge sim.items.reverse fun a b => decide (idOf a ≤ idOf b)

/-- Those above an id. -/
def ascending (afterId : Nat) (nv sim : Store) : List Value :=
  (merged nv sim).filter fun v => decide (afterId < idOf v)

section Both

variable {fetch : Nat → Nat → Except String Value} {afterId limit : Nat} {nv sim : Store}

theorem mem_merged {v : Value} : v ∈ merged nv sim ↔ v ∈ nv.items ∨ v ∈ sim.items := by
  simp [merged, List.mem_merge]

theorem pairwise_merged (h : Apart nv.items sim.items) :
    (merged nv sim).Pairwise fun a b => idOf a < idOf b := by
  have hle {s : Store} : s.items.reverse.Pairwise fun a b => decide (idOf a ≤ idOf b) = true := by
    rw [List.pairwise_reverse]
    exact s.descending.imp fun hlt => decide_eq_true hlt.le
  have hsorted : (merged nv sim).Pairwise fun a b => decide (idOf a ≤ idOf b) = true := by
    apply List.pairwise_merge _ _ _ _ hle hle
    · intro a b c hab hbc
      simp only [decide_eq_true_eq] at *
      exact hab.trans hbc
    · intro a b
      simpa using le_total _ _
  have hne : (merged nv sim).Pairwise fun a b => idOf a ≠ idOf b := by
    refine List.Pairwise.perm (l := nv.items.reverse ++ sim.items.reverse) ?_
      (List.merge_perm_append _).symm fun h => h.symm
    rw [List.pairwise_append, List.pairwise_reverse, List.pairwise_reverse]
    refine ⟨nv.descending.imp fun h => h.ne, sim.descending.imp fun h => h.ne, ?_⟩
    intro a ha b hb
    exact h a (List.mem_reverse.mp ha) b (List.mem_reverse.mp hb)
  exact (hsorted.and hne).imp fun h => lt_of_le_of_ne (of_decide_eq_true h.1) h.2

theorem pairwise_ascending (afterId : Nat) (h : Apart nv.items sim.items) :
    (ascending afterId nv sim).Pairwise fun a b => idOf a < idOf b :=
  (pairwise_merged h).filter _

theorem mem_ascending {v : Value} :
    v ∈ ascending afterId nv sim ↔ (v ∈ nv.items ∨ v ∈ sim.items) ∧ afterId < idOf v := by
  simp [ascending, mem_merged]

/-- The map in the order of its keys. -/
theorem Holds.values {found : List (Nat × Value)}
    (h : Holds found ([] ++ nv.above afterId ++ sim.above afterId))
    (hapart : Apart nv.items sim.items) : found.map Prod.snd = ascending afterId nv sim := by
  apply eq_of_mem_iff (f := idOf) _ (pairwise_ascending afterId hapart)
  · intro v
    simp only [List.mem_map, h.mem, mem_ascending, List.nil_append, List.mem_append,
      Store.mem_above, Prod.exists, exists_eq_right]
    exact or_and_right.symm
  · rw [List.pairwise_map]
    apply h.sorted.imp_of_mem
    intro p q hp hq hlt
    rwa [← ((h.mem p).mp hp).2, ← ((h.mem q).mp hq).2]

/-- A scan of a whole store. -/
theorem scan_whole (afterId : Nat) {store : Nat} {s : Store} (hserve : Serves fetch store s)
    {base : List Value}
    {found : List (Nat × Value)} (hfound : Holds found base) (hapart : Apart base s.items) :
    Scanned fetch afterId s base (scan fetch afterId store LIST_MAX_PAGES 0 none found) := by
  apply scan_spec hserve hapart LIST_MAX_PAGES 0 none found (Nat.zero_add _) (Nat.zero_le _)
  · intro ids hids
    cases hids
  · simpa using hfound

theorem holds_nil : Holds [] [] := ⟨.nil, by simp⟩

/-- **One call**: what fails it, and what it returns otherwise. -/
theorem listAfterWith_spec (afterId limit : Nat) (hnv : Serves fetch 1 nv)
    (hsim : Serves fetch 0 sim)
    (hapart : Apart nv.items sim.items) :
    ((∃ e, (listAfterWith fetch afterId limit).result = .error e) ↔
      (∃ c ∈ (listAfterWith fetch afterId limit).calls, ∃ e, fetch c.1 c.2 = .error e) ∨
        LIST_MAX_PAGES * LIST_PAGE ≤ (nv.above afterId).length ∨
        LIST_MAX_PAGES * LIST_PAGE ≤ (sim.above afterId).length) ∧
    ∀ p, (listAfterWith fetch afterId limit).result = .ok p →
      p = ((ascending afterId nv sim).take limit,
        decide (limit < (ascending afterId nv sim).length)) := by
  have hfirst := scan_whole afterId hnv holds_nil (by simp [Apart])
  generalize hscan : scan fetch afterId 1 LIST_MAX_PAGES 0 none [] = first at hfirst
  cases hfirst with
  | crowded hmany =>
    simp [listAfterWith, scanAll, hscan, hmany]
  | failed hunread =>
    simp only [listAfterWith, scanAll, hscan]
    refine ⟨⟨fun _ => Or.inl hunread, fun _ => ⟨_, rfl⟩⟩, ?_⟩
    simp
  | read hholds hfew hcalls =>
    rename_i calls found
    have hsecond := scan_whole afterId hsim hholds fun a ha b hb =>
      hapart a (Store.mem_above.mp ha).1 b hb
    generalize hscan' : scan fetch afterId 0 LIST_MAX_PAGES 0 none found = second at hsecond
    cases hsecond with
    | crowded hmany =>
      simp [listAfterWith, scanAll, hscan, hscan', hmany]
    | failed hunread =>
      obtain ⟨c, hc, he⟩ := hunread
      simp only [listAfterWith, scanAll, hscan, hscan']
      refine ⟨⟨fun _ => Or.inl ⟨c, ?_, he⟩, fun _ => ⟨_, rfl⟩⟩, ?_⟩
      · simp [hc]
      · simp
    | read hholds' hfew' hcalls' =>
      rename_i calls' found'
      have hvalues := hholds'.values hapart
      have hlen : found'.length = (ascending afterId nv sim).length := by
        rw [← hvalues, List.length_map]
      simp only [listAfterWith, scanAll, hscan, hscan', List.append_nil, hvalues, hlen]
      refine ⟨⟨?_, ?_⟩, ?_⟩
      · rintro ⟨e, he⟩
        cases he
      · rintro (⟨c, hc, e, he⟩ | h | h)
        · have hread : ∃ reply, fetch c.1 c.2 = .ok reply := by
            rcases List.mem_append.mp hc with hc | hc
            · exact hcalls c hc
            · exact hcalls' c hc
          obtain ⟨reply, hreply⟩ := hread
          rw [he] at hreply
          cases hreply
        · omega
        · omega
      · rintro p hp
        exact (Except.ok.inj hp).symm

/-- The messages above one that was returned are those that come after it. -/
theorem ascending_last (hapart : Apart nv.items sim.items) {l₁ l₂ : List Value} {a : Value}
    (h : ascending afterId nv sim = l₁ ++ a :: l₂) : ascending (idOf a) nv sim = l₂ := by
  have hsorted := pairwise_ascending afterId hapart
  have ha : afterId < idOf a := by
    have hin : a ∈ ascending afterId nv sim := by simp [h]
    exact (mem_ascending.mp hin).2
  have htwice : ascending (idOf a) nv sim =
      (ascending afterId nv sim).filter fun v => decide (idOf a < idOf v) := by
    rw [ascending, ascending, List.filter_filter]
    apply List.filter_congr
    intro v _
    have := @Nat.lt_trans afterId (idOf a) (idOf v) ha
    grind
  rw [h] at hsorted
  rw [htwice, h, filter_lt hsorted]

end Both

/-! ### Call after call -/

/-- Calls with `after_id` set to the last id returned, until there is no more; the pages of
    each are read anew. -/
def follow (fetch : Nat → Nat → Nat → Except String Value) (limit : Nat) :
    Nat → Nat → Nat → Option (Except String (List Value))
  | 0, _, _ => none
  | fuel + 1, call, afterId =>
      match (listAfterWith (fetch call) afterId limit).result with
      | .error e => some (.error e)
      | .ok (items, more) =>
          if more then
            (follow fetch limit fuel (call + 1)
              ((items.filterMap itemId).getLast?.getD afterId)).map (Except.map (items ++ ·))
          else some (.ok items)

section Follow

variable {fetch : Nat → Nat → Nat → Except String Value} {limit : Nat} {nv sim : Store}

/-- Either one of the calls fails, or everything above the id is returned in order. -/
theorem follow_spec (hnv : ∀ call, Serves (fetch call) 1 nv)
    (hsim : ∀ call, Serves (fetch call) 0 sim) (hapart : Apart nv.items sim.items)
    (hlimit : 1 ≤ limit) (fuel call afterId : Nat)
    (hfuel : (ascending afterId nv sim).length < fuel) :
    ∃ r, follow fetch limit fuel call afterId = some r ∧
      (r = .ok (ascending afterId nv sim) ∨
        ∃ call' afterId' e, (listAfterWith (fetch call') afterId' limit).result = .error e ∧
          r = .error e) := by
  induction fuel generalizing call afterId with
  | zero => omega
  | succ fuel ih =>
    rw [follow]
    cases hcall : (listAfterWith (fetch call) afterId limit).result with
    | error e => exact ⟨.error e, rfl, Or.inr ⟨call, afterId, e, hcall, rfl⟩⟩
    | ok p =>
      have hp := (listAfterWith_spec afterId limit (hnv call) (hsim call) hapart).2 p hcall
      subst hp
      by_cases hmore : limit < (ascending afterId nv sim).length
      · obtain ⟨l₁, a, htake⟩ : ∃ l₁ a, (ascending afterId nv sim).take limit = l₁ ++ [a] := by
          have hne : (ascending afterId nv sim).take limit ≠ [] := by
            apply List.ne_nil_of_length_pos
            rw [List.length_take]
            omega
          exact ⟨_, _, (List.dropLast_append_getLast hne).symm⟩
        have hsplit : ascending afterId nv sim =
            l₁ ++ a :: (ascending afterId nv sim).drop limit := by
          rw [List.append_cons, ← htake, List.take_append_drop]
        have ha : itemId a = some (idOf a) := by
          have hin : a ∈ ascending afterId nv sim := by
            rw [hsplit]
            simp
          rcases (mem_ascending.mp hin).1 with h | h
          · exact nv.identified a h
          · exact sim.identified a h
        have hlast : (((ascending afterId nv sim).take limit).filterMap itemId).getLast?.getD
            afterId = idOf a := by
          rw [htake]
          simp [ha]
        have hnext := ascending_last hapart hsplit
        obtain ⟨r, hr, hcases⟩ := ih (call + 1) (idOf a) (by
          rw [hnext, List.length_drop]
          omega)
        simp only [hmore, decide_true, if_true, hlast, hr, Option.map_some]
        refine ⟨_, rfl, ?_⟩
        rcases hcases with rfl | ⟨call', afterId', e, he, rfl⟩
        · refine Or.inl ?_
          rw [Except.map, hnext, List.take_append_drop]
        · exact Or.inr ⟨call', afterId', e, he, rfl⟩
      · refine ⟨_, by simp only [hmore, decide_false]; rfl, Or.inl ?_⟩
        rw [List.take_of_length_le (not_lt.mp hmore)]

end Follow

/-- **Paging through the messages.**  A call fails exactly if it asks for a page that
    cannot be read or a store holds a thousand messages above the id, and returns the
    first of those above it otherwise.  Call after call, as long as none fails, they are
    all returned, each once. -/
theorem listAfterWith_pages {nv sim : Store} (hapart : Apart nv.items sim.items) (limit : Nat) :
    (∀ fetch afterId, Serves fetch 1 nv → Serves fetch 0 sim →
      ((∃ e, (listAfterWith fetch afterId limit).result = .error e) ↔
        (∃ c ∈ (listAfterWith fetch afterId limit).calls, ∃ e, fetch c.1 c.2 = .error e) ∨
          1000 ≤ (nv.above afterId).length ∨ 1000 ≤ (sim.above afterId).length) ∧
      ∀ items more, (listAfterWith fetch afterId limit).result = .ok (items, more) →
        items = (ascending afterId nv sim).take limit ∧
          (more = true ↔ limit < (ascending afterId nv sim).length)) ∧
    ∀ fetch afterId, 1 ≤ limit → (∀ call, Serves (fetch call) 1 nv) →
      (∀ call, Serves (fetch call) 0 sim) →
      ∃ fuel r, follow fetch limit fuel 0 afterId = some r ∧
        (r = .ok (ascending afterId nv sim) ∨
          ∃ call afterId' e, (listAfterWith (fetch call) afterId' limit).result = .error e ∧
            r = .error e) ∧
        (ascending afterId nv sim).Pairwise (fun a b => idOf a < idOf b) ∧
        ∀ v, v ∈ ascending afterId nv sim ↔
          (v ∈ nv.items ∨ v ∈ sim.items) ∧ afterId < idOf v := by
  refine ⟨?_, ?_⟩
  · intro fetch afterId hnv hsim
    obtain ⟨hfails, hreturns⟩ := listAfterWith_spec afterId limit hnv hsim hapart
    refine ⟨hfails, fun items more hok => ?_⟩
    have hpair := hreturns (items, more) hok
    rw [Prod.mk.injEq] at hpair
    exact ⟨hpair.1, by rw [hpair.2, decide_eq_true_iff]⟩
  · intro fetch afterId hlimit hnv hsim
    obtain ⟨r, hr, hcases⟩ := follow_spec hnv hsim hapart hlimit
      ((ascending afterId nv sim).length + 1) 0 afterId (Nat.lt_succ_self _)
    exact ⟨_, r, hr, hcases, pairwise_ascending afterId hapart, fun v => mem_ascending⟩

/-- The firmware with a few messages, one of which has its id as text. -/
def message (id : Value) : Value := .obj [("id", id), ("tag", .str "1")]

def nvStore : Store :=
  ⟨[message (.num (.int 9)), message (.num (.int 4))], by decide +kernel, by decide +kernel⟩

def simStore : Store := ⟨[message (.str " 7 ")], by decide +kernel, by decide +kernel⟩

def serve (store page : Nat) : Except String Value :=
  let s := if store = 1 then nvStore else simStore
  .ok (.obj [("messages", .arr (s.page page))])

theorem listAfterWith_pages_two :
    (listAfterWith serve 4 1).result = .ok ([message (.str " 7 ")], true) ∧
      [message (.str " 7 ")] = (ascending 4 nvStore simStore).take 1 := by
  have hok : (listAfterWith serve 4 1).result = .ok ([message (.str " 7 ")], true) := by
    decide +kernel
  have hnv : Serves serve 1 nvStore := fun page reply h => by
    rw [← Except.ok.inj h]
    rfl
  have hsim : Serves serve 0 simStore := fun page reply h => by
    rw [← Except.ok.inj h]
    rfl
  have hapart : Apart nvStore.items simStore.items := by
    unfold Apart
    decide +kernel
  obtain ⟨hcall, -⟩ := listAfterWith_pages hapart 1
  exact ⟨hok, ((hcall serve 4 hnv hsim).2 _ _ hok).1⟩

end Sms

end Datad
