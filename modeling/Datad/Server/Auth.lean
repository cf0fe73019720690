/-
  Datad/Server/Auth.lean
  ======================
  **The table of logins: `Sessions` of `auth.rs`.**

  A session is dropped lazily, by the next call that looks at it after it has run out, and
  evicted when the table is full.  Here the table is compared with the history of all
  calls: who is in it are those who were issued, were in use at every call since, and were
  not evicted.

  `issue` reads the clock once more for each session it looks at; `look` gives the reading
  for each.  How the clock goes plays no part.
-/
import Datad.Lib.Bytes
import Mathlib.Data.List.Forall2
import Mathlib.Data.List.MinMax
import Mathlib.Data.List.Nodup

namespace Datad.Auth

open Bytes

def SESSION_TTL : Nat := 12 * 60 * 60
def SESSION_LIMIT : Nat := 16

structure Session where
  token : String
  expiresAt : Nat
deriving DecidableEq

abbrev Sessions := List Session

/-- `secure_eq`: as long, and no byte differs. -/
def secureEq (a b : String) : Bool :=
  let a := utf8 a
  let b := utf8 b
  a.length == b.length && (a.zip b).foldl (fun diff p => diff ||| (p.1 ^^^ p.2)) (0 : UInt8) == 0

/-- Give the first session of the token twelve hours from now. -/
def renew (token : String) (now : Nat) : Sessions → Option Sessions
  | [] => none
  | s :: rest =>
      if secureEq s.token token then some ({ s with expiresAt := now + SESSION_TTL } :: rest)
      else (renew token now rest).map (s :: ·)

/-- `self.0.retain(|s| s.expires_at > now())` -/
def Sessions.retain (ss : Sessions) (look : String → Nat) : Sessions :=
  ss.filter fun s => look s.token < s.expiresAt

def Sessions.validate (ss : Sessions) (token : String) (now : Nat) : Bool × Sessions :=
  let kept := ss.retain fun _ => now
  match renew token now kept with
  | some renewed => (true, renewed)
  | none => (false, kept)

/-- The place of the session that runs out first. -/
def Sessions.oldest (ss : Sessions) : Nat :=
  ((ss.zipIdx.argmin fun p => p.1.expiresAt).map Prod.snd).getD 0

/-- Make room for one more. -/
def Sessions.evict (ss : Sessions) : Sessions :=
  if SESSION_LIMIT ≤ ss.length then ss.eraseIdx ss.oldest else ss

/-- `issue`, with the token read from `/dev/urandom`. -/
def Sessions.issue (ss : Sessions) (token : String) (now : Nat) (look : String → Nat) :
    (String × Nat) × Sessions :=
  let expiresAt := now + SESSION_TTL
  ((token, expiresAt), (ss.retain look).evict ++ [{ token := token, expiresAt := expiresAt }])

/-! ### Histories -/

/-- A call; `noToken` is an `issue` that could not read `/dev/urandom`. -/
inductive Call where
  | validate (token : String) (now : Nat)
  | issue (token : String) (now : Nat) (look : String → Nat)
  | noToken

def Call.token? : Call → Option String
  | .issue token _ _ => some token
  | _ => none

/-- What is remembered of a call, with what it answered or whom it evicted. -/
inductive Event where
  | validated (token : String) (now : Nat) (ok : Bool)
  | issued (token : String) (now : Nat) (look : String → Nat) (evicted : Option String)

/-- Whom an `issue` evicts. -/
def Sessions.evicted (ss : Sessions) (look : String → Nat) : Option String :=
  let kept := ss.retain look
  if SESSION_LIMIT ≤ kept.length then kept[kept.oldest]?.map Session.token else none

/-- The table, and the events so far, the last one first. -/
def step (st : Sessions × List Event) : Call → Sessions × List Event
  | .validate token now =>
      let (ok, ss) := st.1.validate token now
      (ss, .validated token now ok :: st.2)
  | .issue token now look =>
      ((st.1.issue token now look).2, .issued token now look (st.1.evicted look) :: st.2)
  | .noToken => st

def run (calls : List Call) : Sessions × List Event := calls.foldl step ([], [])

/-! ### What the history says -/

def Issued (log : List Event) (token : String) : Prop :=
  ∃ now look evicted, .issued token now look evicted ∈ log

def Evicted (log : List Event) (token : String) : Prop :=
  ∃ token' now look, .issued token' now look (some token) ∈ log

/-- When the token was issued, or last validated with success. -/
def lastUse (token : String) : List Event → Option Nat
  | [] => none
  | .validated token' now ok :: past =>
      if token' = token ∧ ok = true then some now else lastUse token past
  | .issued token' now _ _ :: past => if token' = token then some now else lastUse token past

/-- The clock when the call looked at the session of the token. -/
def Event.moment (token : String) : Event → Nat
  | .validated _ now _ => now
  | .issued _ _ look _ => look token

/-- At every call since its issue the token had been used less than twelve hours before. -/
def NeverIdle (log : List Event) (token : String) : Prop :=
  ∀ e past, e :: past <:+ log → ∀ used, lastUse token past = some used →
    e.moment token < used + SESSION_TTL

/-- By the history alone, the token is good at the moment `now`. -/
structure Live (log : List Event) (token : String) (now : Nat) : Prop where
  issued : Issued log token
  kept : ¬Evicted log token
  neverIdle : NeverIdle log token
  used : ∀ used, lastUse token log = some used → now < used + SESSION_TTL

/-! ### Comparing tokens -/

/-- No bit is left of the differences when no byte differs. -/
theorem foldl_diff_eq_zero (l : List (UInt8 × UInt8)) (d : UInt8) :
    l.foldl (fun diff p => diff ||| (p.1 ^^^ p.2)) d = 0 ↔ d = 0 ∧ ∀ p ∈ l, p.1 = p.2 := by
  induction l generalizing d with
  | nil => simp
  | cons p l ih =>
    rw [List.foldl_cons, ih, List.forall_mem_cons, UInt8.or_eq_zero_iff, UInt8.xor_eq_zero_iff,
      and_assoc]

theorem secureEq_iff {a b : String} : secureEq a b = true ↔ a = b := by
  have hbytes : secureEq a b = true ↔ utf8 a = utf8 b := by
    rw [secureEq]
    simp only [Bool.and_eq_true, beq_iff_eq, foldl_diff_eq_zero, true_and]
    rw [← List.forall₂_eq_eq_eq, List.forall₂_iff_zip]
    constructor
    · rintro ⟨hlen, hall⟩
      exact ⟨hlen, fun h => hall _ h⟩
    · rintro ⟨hlen, hall⟩
      exact ⟨hlen, fun p hp => hall hp⟩
  rw [hbytes]
  exact ⟨utf8_inj, congrArg utf8⟩

/-! ### The operations of the table -/

variable {ss ss' : Sessions} {token : String} {now : Nat} {look : String → Nat} {s : Session}

theorem mem_retain : s ∈ ss.retain look ↔ s ∈ ss ∧ look s.token < s.expiresAt := by
  simp [Sessions.retain]

theorem retain_sublist (ss : Sessions) (look : String → Nat) : (ss.retain look).Sublist ss :=
  List.filter_sublist

/-- No two sessions have one token. -/
def Apart (ss : Sessions) : Prop := (ss.map Session.token).Nodup

theorem Apart.sublist (h : Apart ss) (hs : ss'.Sublist ss) : Apart ss' :=
  List.Nodup.sublist (hs.map Session.token) h

theorem renew_eq_none : renew token now ss = none ↔ ∀ s ∈ ss, s.token ≠ token := by
  induction ss with
  | nil => simp [renew]
  | cons s ss ih =>
    rw [renew, List.forall_mem_cons]
    split
    · rename_i h
      simp [secureEq_iff.1 h]
    · rename_i h
      rw [secureEq_iff] at h
      rw [Option.map_eq_none_iff, ih]
      exact ⟨fun hrest => ⟨h, hrest⟩, And.right⟩

theorem renew_tokens (h : renew token now ss = some ss') :
    ss'.map Session.token = ss.map Session.token := by
  induction ss generalizing ss' with
  | nil => cases h
  | cons s ss ih =>
    rw [renew] at h
    split at h
    · cases h
      rfl
    · obtain ⟨rest, hrest, rfl⟩ := Option.map_eq_some_iff.1 h
      rw [List.map_cons, List.map_cons, ih hrest]

theorem mem_renew (hapart : Apart ss) (h : renew token now ss = some ss') :
    s ∈ ss' ↔ (s.token = token ∧ s.expiresAt = now + SESSION_TTL) ∨ (s.token ≠ token ∧ s ∈ ss) := by
  induction ss generalizing ss' with
  | nil => cases h
  | cons t ss ih =>
    obtain ⟨hnot, hrest⟩ := List.nodup_cons.1 hapart
    rw [renew] at h
    split at h
    · rename_i htok
      have htok := secureEq_iff.1 htok
      have hother : ∀ s ∈ ss, s.token ≠ token := by
        intro s hs heq
        exact hnot (List.mem_map.2 ⟨s, hs, heq.trans htok.symm⟩)
      cases h
      rw [List.mem_cons, List.mem_cons]
      constructor
      · rintro (rfl | hs)
        · exact .inl ⟨htok, rfl⟩
        · exact .inr ⟨hother s hs, .inr hs⟩
      · rintro (⟨heq, hexp⟩ | ⟨hne, rfl | hs⟩)
        · left
          cases s
          cases heq.trans htok.symm
          cases hexp
          rfl
        · exact absurd htok hne
        · exact .inr hs
    · rename_i htok
      rw [secureEq_iff] at htok
      obtain ⟨rest, hrenew, rfl⟩ := Option.map_eq_some_iff.1 h
      rw [List.mem_cons, List.mem_cons, ih hrest hrenew]
      constructor
      · rintro (rfl | hnew | ⟨hne, hs⟩)
        · exact .inr ⟨htok, .inl rfl⟩
        · exact .inl hnew
        · exact .inr ⟨hne, .inr hs⟩
      · rintro (hnew | ⟨hne, rfl | hs⟩)
        · exact .inr (.inl hnew)
        · exact .inl rfl
        · exact .inr (.inr ⟨hne, hs⟩)

/-- The oldest session is there, and none runs out before it. -/
theorem oldest_spec (h : ss ≠ []) :
    ∃ v ∈ ss, ss[ss.oldest]? = some v ∧ ∀ s ∈ ss, v.expiresAt ≤ s.expiresAt := by
  have hne : ss.zipIdx.argmin (fun p => p.1.expiresAt) ≠ none := by
    rw [Ne, List.argmin_eq_none, List.zipIdx_eq_nil_iff]
    exact h
  obtain ⟨⟨v, i⟩, hmin⟩ := Option.ne_none_iff_exists'.1 hne
  have hget := List.mem_zipIdx_iff_getElem?.1 (List.argmin_mem hmin)
  have holdest : ss.oldest = i := by
    rw [Sessions.oldest, hmin]
    rfl
  refine ⟨v, List.mem_of_getElem? hget, by rwa [holdest], ?_⟩
  intro s hs
  obtain ⟨j, hj⟩ := List.mem_iff_getElem?.1 hs
  have hmem : (s, j) ∈ ss.zipIdx := List.mem_zipIdx_iff_getElem?.2 hj
  exact List.le_of_mem_argmin (f := fun p : Session × Nat => p.1.expiresAt) hmem hmin

/-- A full table loses the oldest session and no other. -/
theorem evict_full (hapart : Apart ss) (h : SESSION_LIMIT ≤ ss.length) :
    ∃ v ∈ ss, ss[ss.oldest]? = some v ∧ (∀ s ∈ ss, v.expiresAt ≤ s.expiresAt) ∧
      (∀ s, s ∈ ss.evict ↔ s ∈ ss ∧ s.token ≠ v.token) ∧
      ss.evict.length + 1 = ss.length := by
  have hne : ss ≠ [] := by
    rintro rfl
    exact absurd h (by decide)
  obtain ⟨v, hv, hget, hmin⟩ := oldest_spec hne
  obtain ⟨hlt, hgetv⟩ := List.getElem?_eq_some_iff.1 hget
  refine ⟨v, hv, hget, hmin, ?_, ?_⟩
  · intro s
    rw [Sessions.evict, if_pos h, List.mem_eraseIdx_iff_getElem?]
    constructor
    · rintro ⟨i, hi, hgeti⟩
      refine ⟨List.mem_of_getElem? hgeti, ?_⟩
      intro heq
      have hsame : (ss.map Session.token)[i]? = (ss.map Session.token)[ss.oldest]? := by
        rw [List.getElem?_map, List.getElem?_map, hgeti, hget, Option.map_some, Option.map_some,
          heq]
      have hlti : i < (ss.map Session.token).length := by
        rw [List.length_map]
        exact (List.getElem?_eq_some_iff.1 hgeti).1
      exact hi ((List.getElem?_inj hlti hapart).1 hsame)
    · rintro ⟨hs, hother⟩
      obtain ⟨i, hgeti⟩ := List.mem_iff_getElem?.1 hs
      refine ⟨i, ?_, hgeti⟩
      rintro rfl
      rw [hget] at hgeti
      exact hother (congrArg Session.token (Option.some.inj hgeti)).symm
  · rw [Sessions.evict, if_pos h, List.length_eraseIdx, if_pos hlt]
    omega

theorem evict_room (h : ss.length < SESSION_LIMIT) : ss.evict = ss := by
  rw [Sessions.evict, if_neg (Nat.not_le.2 h)]

/-! ### One event more -/

variable {log : List Event} {ev : Event} {t : String}

theorem NeverIdle.cons :
    NeverIdle (ev :: log) t ↔
      (∀ used, lastUse t log = some used → ev.moment t < used + SESSION_TTL) ∧
        NeverIdle log t := by
  constructor
  · intro h
    refine ⟨h ev log List.suffix_rfl, ?_⟩
    intro e past hsuffix
    exact h e past (hsuffix.trans (List.suffix_cons ev log))
  · rintro ⟨hlast, hpast⟩ e past hsuffix
    rcases List.suffix_cons_iff.1 hsuffix with heq | hsuffix
    · cases heq
      exact hlast
    · exact hpast e past hsuffix

/-- What a session in the table has behind it. -/
structure Kept (log : List Event) (t : String) : Prop where
  issued : Issued log t
  kept : ¬Evicted log t
  neverIdle : NeverIdle log t

theorem live_iff {now : Nat} :
    Live log t now ↔
      Kept log t ∧ ∀ used, lastUse t log = some used → now < used + SESSION_TTL := by
  constructor
  · intro h
    exact ⟨⟨h.issued, h.kept, h.neverIdle⟩, h.used⟩
  · rintro ⟨h, hused⟩
    exact ⟨h.issued, h.kept, h.neverIdle, hused⟩

theorem issued_validated {ok : Bool} :
    Issued (.validated token now ok :: log) t ↔ Issued log t := by
  simp [Issued]

theorem evicted_validated {ok : Bool} :
    Evicted (.validated token now ok :: log) t ↔ Evicted log t := by
  simp [Evicted]

theorem issued_issued {evicted : Option String} :
    Issued (.issued token now look evicted :: log) t ↔ t = token ∨ Issued log t := by
  constructor
  · rintro ⟨now', look', evicted', h⟩
    rcases List.mem_cons.1 h with heq | h
    · injection heq with htok
      exact .inl htok
    · exact .inr ⟨_, _, _, h⟩
  · rintro (rfl | ⟨_, _, _, h⟩)
    · exact ⟨_, _, _, List.mem_cons_self⟩
    · exact ⟨_, _, _, List.mem_cons_of_mem _ h⟩

theorem evicted_issued {evicted : Option String} :
    Evicted (.issued token now look evicted :: log) t ↔ evicted = some t ∨ Evicted log t := by
  constructor
  · rintro ⟨token', now', look', h⟩
    rcases List.mem_cons.1 h with heq | h
    · injection heq with _ _ _ hev
      exact .inl hev.symm
    · exact .inr ⟨_, _, _, h⟩
  · rintro (rfl | ⟨_, _, _, h⟩)
    · exact ⟨_, _, _, List.mem_cons_self⟩
    · exact ⟨_, _, _, List.mem_cons_of_mem _ h⟩

theorem kept_validated {ok : Bool} :
    Kept (.validated token now ok :: log) t ↔ Live log t now := by
  rw [live_iff]
  constructor
  · rintro ⟨hissued, hkept, hidle⟩
    obtain ⟨hlast, hpast⟩ := NeverIdle.cons.1 hidle
    exact ⟨⟨issued_validated.1 hissued, fun h => hkept (evicted_validated.2 h), hpast⟩, hlast⟩
  · rintro ⟨⟨hissued, hkept, hpast⟩, hlast⟩
    exact ⟨issued_validated.2 hissued, fun h => hkept (evicted_validated.1 h),
      NeverIdle.cons.2 ⟨hlast, hpast⟩⟩

theorem kept_issued {evicted : Option String} (hne : t ≠ token) :
    Kept (.issued token now look evicted :: log) t ↔
      Live log t (look t) ∧ evicted ≠ some t := by
  rw [live_iff]
  constructor
  · rintro ⟨hissued, hkept, hidle⟩
    obtain ⟨hlast, hpast⟩ := NeverIdle.cons.1 hidle
    have hbefore : Issued log t := (issued_issued.1 hissued).resolve_left hne
    exact ⟨⟨⟨hbefore, fun h => hkept (evicted_issued.2 (.inr h)), hpast⟩, hlast⟩,
      fun h => hkept (evicted_issued.2 (.inl h))⟩
  · rintro ⟨⟨⟨hissued, hkept, hpast⟩, hlast⟩, hev⟩
    refine ⟨issued_issued.2 (.inr hissued), ?_, NeverIdle.cons.2 ⟨hlast, hpast⟩⟩
    intro h
    rcases evicted_issued.1 h with h | h
    · exact hev h
    · exact hkept h

/-! ### The table and the history -/

/-- The table is what the history says. -/
structure Holds (ss : Sessions) (log : List Event) : Prop where
  apart : Apart ss
  length_le : ss.length ≤ SESSION_LIMIT
  mem : ∀ s, s ∈ ss ↔
    Kept log s.token ∧ ∃ used, lastUse s.token log = some used ∧ s.expiresAt = used + SESSION_TTL
  /-- Of a token not issued there is no trace. -/
  used_issued : ∀ past, past <:+ log → ∀ t used, lastUse t past = some used → Issued log t
  evicted_issued : ∀ t, Evicted log t → Issued log t

theorem Holds.init : Holds [] [] where
  apart := List.nodup_nil
  length_le := Nat.zero_le _
  mem s := by
    constructor
    · intro h
      cases h
    · rintro ⟨⟨⟨_, _, _, h⟩, _, _⟩, _⟩
      cases h
  used_issued past hpast t used h := by
    rw [List.suffix_nil.1 hpast] at h
    cases h
  evicted_issued := by
    rintro t ⟨_, _, _, h⟩
    cases h

/-- Those a call finds in the table are the live ones. -/
theorem Holds.mem_retain (h : Holds ss log) (look : String → Nat) :
    s ∈ ss.retain look ↔ Live log s.token (look s.token) ∧
      ∃ used, lastUse s.token log = some used ∧ s.expiresAt = used + SESSION_TTL := by
  rw [Auth.mem_retain, h.mem, live_iff]
  constructor
  · rintro ⟨⟨hkept, used, hused, hexp⟩, hlt⟩
    refine ⟨⟨hkept, ?_⟩, used, hused, hexp⟩
    intro used' hused'
    rw [hused] at hused'
    cases hused'
    rwa [← hexp]
  · rintro ⟨⟨hkept, hlive⟩, used, hused, hexp⟩
    refine ⟨⟨hkept, used, hused, hexp⟩, ?_⟩
    rw [hexp]
    exact hlive used hused

/-- A token that was issued has been used. -/
theorem lastUse_of_issued (h : Issued log t) : ∃ used, lastUse t log = some used := by
  obtain ⟨now, look, evicted, h⟩ := h
  induction log with
  | nil => cases h
  | cons e log ih =>
    cases e with
    | validated token' now' ok =>
        have hpast := ih ((List.mem_cons.1 h).resolve_left (by simp))
        rw [lastUse]
        split
        · exact ⟨_, rfl⟩
        · exact hpast
    | issued token' now' look' evicted' =>
        rw [lastUse]
        split
        · exact ⟨_, rfl⟩
        · rename_i hne
          refine ih ((List.mem_cons.1 h).resolve_left ?_)
          rintro heq
          injection heq with htok
          exact hne htok.symm

/-- A token is in the table at a call when it is live then. -/
theorem Holds.token_mem_retain (h : Holds ss log) (look : String → Nat) :
    (∃ s ∈ ss.retain look, s.token = t) ↔ Live log t (look t) := by
  constructor
  · rintro ⟨s, hs, rfl⟩
    exact ((h.mem_retain look).1 hs).1
  · intro hlive
    obtain ⟨used, hused⟩ := lastUse_of_issued hlive.issued
    exact ⟨⟨t, used + SESSION_TTL⟩, (h.mem_retain look).2 ⟨hlive, used, hused, rfl⟩, rfl⟩

theorem Holds.retain_apart (h : Holds ss log) (look : String → Nat) : Apart (ss.retain look) :=
  h.apart.sublist (retain_sublist ss look)

theorem Holds.retain_length_le (h : Holds ss log) (look : String → Nat) :
    (ss.retain look).length ≤ SESSION_LIMIT :=
  (retain_sublist ss look).length_le.trans h.length_le

/-- A use is noted of issued tokens only. -/
theorem Holds.used_cons (h : Holds ss log)
    (hnew : ∀ t used, lastUse t (ev :: log) = some used → Issued (ev :: log) t)
    (hold : ∀ t, Issued log t → Issued (ev :: log) t) :
    ∀ past, past <:+ ev :: log → ∀ t used, lastUse t past = some used →
      Issued (ev :: log) t := by
  intro past hpast t used hused
  rcases List.suffix_cons_iff.1 hpast with rfl | hpast
  · exact hnew t used hused
  · exact hold t (h.used_issued past hpast t used hused)

theorem lastUse_validated {ok : Bool} (hno : ¬(token = t ∧ ok = true)) :
    lastUse t (.validated token now ok :: log) = lastUse t log := by
  rw [lastUse, if_neg hno]

theorem Holds.refuse (h : Holds ss log) :
    Holds (ss.retain fun _ => now) (.validated token now false :: log) where
  apart := h.retain_apart _
  length_le := h.retain_length_le _
  mem s := by
    rw [h.mem_retain, kept_validated, lastUse_validated (by simp)]
  used_issued := by
    refine h.used_cons ?_ fun t => issued_validated.2
    intro t used hused
    rw [lastUse_validated (by simp)] at hused
    exact issued_validated.2 (h.used_issued log List.suffix_rfl t used hused)
  evicted_issued t ht := issued_validated.2 (h.evicted_issued t (evicted_validated.1 ht))

theorem Holds.accept (h : Holds ss log) (hlive : Live log token now)
    (hrenew : renew token now (ss.retain fun _ => now) = some ss') :
    Holds ss' (.validated token now true :: log) where
  apart := by
    rw [Apart, renew_tokens hrenew]
    exact h.retain_apart _
  length_le := by
    have htokens := congrArg List.length (renew_tokens hrenew)
    rw [List.length_map, List.length_map] at htokens
    rw [htokens]
    exact h.retain_length_le _
  mem s := by
    rw [mem_renew (h.retain_apart _) hrenew, kept_validated]
    by_cases htok : s.token = token
    · subst htok
      have huse : lastUse s.token (.validated s.token now true :: log) = some now := by
        rw [lastUse, if_pos ⟨rfl, rfl⟩]
      simp [huse, hlive]
    · have huse : lastUse s.token (.validated token now true :: log) = lastUse s.token log :=
        lastUse_validated fun hand => htok hand.1.symm
      rw [huse, h.mem_retain]
      simp [htok]
  used_issued := by
    refine h.used_cons ?_ fun t => issued_validated.2
    intro t used hused
    rw [issued_validated]
    by_cases htok : token = t
    · exact htok ▸ hlive.issued
    · rw [lastUse_validated fun hand => htok hand.1] at hused
      exact h.used_issued log List.suffix_rfl t used hused
  evicted_issued t ht := issued_validated.2 (h.evicted_issued t (evicted_validated.1 ht))

/-- **A token is accepted when the history says that it is good.** -/
theorem Holds.validate_iff (h : Holds ss log) (token : String) (now : Nat) :
    (ss.validate token now).1 = true ↔ Live log token now := by
  rw [← h.token_mem_retain fun _ => now]
  cases hrenew : renew token now (ss.retain fun _ => now) with
  | none =>
      have hnot := renew_eq_none.1 hrenew
      simp only [Sessions.validate, hrenew, Bool.false_eq_true, false_iff]
      rintro ⟨s, hs, htok⟩
      exact hnot s hs htok
  | some renewed =>
      simp only [Sessions.validate, hrenew, true_iff]
      by_contra hnot
      push Not at hnot
      rw [renew_eq_none.2 hnot] at hrenew
      cases hrenew

theorem Holds.validate (h : Holds ss log) (token : String) (now : Nat) :
    Holds (ss.validate token now).2 (.validated token now (ss.validate token now).1 :: log) := by
  have hiff := h.validate_iff token now
  cases hrenew : renew token now (ss.retain fun _ => now) with
  | none =>
      simp only [Sessions.validate, hrenew]
      exact h.refuse
  | some renewed =>
      simp only [Sessions.validate, hrenew, true_iff] at hiff ⊢
      exact h.accept hiff hrenew

/-! ### Issuing -/

/-- A token not issued before has left no trace. -/
theorem Holds.kept_new (h : Holds ss log) (hnew : ¬Issued log token) {evicted : Option String}
    (hev : evicted ≠ some token) : Kept (.issued token now look evicted :: log) token where
  issued := issued_issued.2 (.inl rfl)
  kept hbad := by
    rcases Auth.evicted_issued.1 hbad with hbad | hbad
    · exact hev hbad
    · exact hnew (h.evicted_issued token hbad)
  neverIdle := by
    intro e past hsuffix used hused
    refine absurd (h.used_issued past ?_ token used hused) hnew
    rcases List.suffix_cons_iff.1 hsuffix with heq | hsuffix
    · cases heq
      exact List.suffix_rfl
    · exact (List.suffix_cons e past).trans hsuffix

/-- What making room leaves, and what is noted of it. -/
theorem Holds.evict (h : Holds ss log) (look : String → Nat) :
    (ss.retain look).evict.length < SESSION_LIMIT ∧ Apart (ss.retain look).evict ∧
    (∀ s, s ∈ (ss.retain look).evict ↔
      s ∈ ss.retain look ∧ ss.evicted look ≠ some s.token) := by
  have hapart := h.retain_apart look
  have hlen := h.retain_length_le look
  rcases Nat.lt_or_ge (ss.retain look).length SESSION_LIMIT with hroom | hfull
  · have hnone : ss.evicted look = none := by
      rw [Sessions.evicted, if_neg (Nat.not_le.2 hroom)]
    rw [evict_room hroom, hnone]
    exact ⟨hroom, hapart, by simp⟩
  · obtain ⟨v, -, hget, -, hmem, hlength⟩ := evict_full hapart hfull
    have hsome : ss.evicted look = some v.token := by
      rw [Sessions.evicted, if_pos hfull, hget]
      rfl
    refine ⟨by omega, ?_, ?_⟩
    · rw [Sessions.evict, if_pos hfull]
      exact hapart.sublist (List.eraseIdx_sublist ..)
    · intro s
      rw [hmem, hsome, Ne, Ne, Option.some.injEq, eq_comm]

theorem lastUse_issued_other {evicted : Option String} (hne : t ≠ token) :
    lastUse t (.issued token now look evicted :: log) = lastUse t log := by
  rw [lastUse, if_neg hne.symm]

theorem evicted_mem (h : ss.evicted look = some t) : ∃ s ∈ ss.retain look, s.token = t := by
  rw [Sessions.evicted] at h
  split at h
  · obtain ⟨s, hget, htok⟩ := Option.map_eq_some_iff.1 h
    exact ⟨s, List.mem_of_getElem? hget, htok⟩
  · cases h

theorem Holds.evicted_live (h : Holds ss log) (hev : ss.evicted look = some t) :
    Live log t (look t) :=
  (h.token_mem_retain look).1 (evicted_mem hev)

theorem Holds.issue (h : Holds ss log) (hnew : ¬Issued log token) (now : Nat)
    (look : String → Nat) :
    Holds (ss.issue token now look).2 (.issued token now look (ss.evicted look) :: log) := by
  obtain ⟨hroom, hapart, hmem⟩ := h.evict look
  have hother : ∀ s ∈ (ss.retain look).evict, s.token ≠ token := by
    rintro s hs rfl
    exact hnew ((h.mem_retain look).1 ((hmem s).1 hs).1).1.issued
  have hev : ss.evicted look ≠ some token := fun hev => hnew (h.evicted_live hev).issued
  constructor
  · change ((_ ++ [_] : List Session).map Session.token).Nodup
    rw [List.map_append, List.map_singleton]
    refine List.Nodup.append hapart (List.nodup_singleton _) ?_
    intro t ht hlast
    obtain ⟨s, hs, rfl⟩ := List.mem_map.1 ht
    exact hother s hs (List.mem_singleton.1 hlast)
  · change (_ ++ [_] : List Session).length ≤ _
    rw [List.length_append]
    exact hroom
  · intro s
    change s ∈ (_ ++ [_] : List Session) ↔ _
    rw [List.mem_append, List.mem_singleton, hmem]
    by_cases htok : s.token = token
    · subst htok
      have hno : ¬(s ∈ ss.retain look ∧ ss.evicted look ≠ some s.token) :=
        fun hs => hother s ((hmem s).2 hs) rfl
      have huse : lastUse s.token (.issued s.token now look (ss.evicted look) :: log) =
          some now := by rw [lastUse, if_pos rfl]
      have hkept : Kept (.issued s.token now look (ss.evicted look) :: log) s.token :=
        h.kept_new hnew hev
      simp only [hno, false_or, hkept, huse, true_and, Option.some.injEq, exists_eq_left']
      constructor
      · intro heq
        rw [heq]
      · intro hexp
        rw [← hexp]
    · have hne : s ≠ ⟨token, now + SESSION_TTL⟩ := fun heq => htok (congrArg Session.token heq)
      rw [kept_issued htok, lastUse_issued_other htok, h.mem_retain]
      simp only [hne, or_false]
      exact and_right_comm
  · refine h.used_cons ?_ fun t ht => issued_issued.2 (.inr ht)
    intro t used hused
    rw [issued_issued]
    by_cases htok : t = token
    · exact .inl htok
    · rw [lastUse_issued_other htok] at hused
      exact .inr (h.used_issued log List.suffix_rfl t used hused)
  · intro t ht
    rw [issued_issued]
    rcases Auth.evicted_issued.1 ht with hev | ht
    · exact .inr (h.evicted_live hev).issued
    · exact .inr (h.evicted_issued t ht)

/-! ### Runs -/

theorem run_concat (calls : List Call) (c : Call) :
    run (calls ++ [c]) = step (run calls) c := by
  simp [run]

theorem issued_called (calls : List Call) (h : Issued (run calls).2 t) :
    t ∈ calls.filterMap Call.token? := by
  induction calls using List.reverseRecOn with
  | nil =>
    obtain ⟨_, _, _, h⟩ := h
    cases h
  | append_singleton calls c ih =>
    rw [run_concat] at h
    rw [List.filterMap_append, List.mem_append]
    cases c with
    | validate token now => exact .inl (ih (issued_validated.1 h))
    | issue token now look =>
        rcases issued_issued.1 h with rfl | h
        · exact .inr (by simp [Call.token?])
        · exact .inl (ih h)
    | noToken => exact .inl (ih h)

theorem holds_run (calls : List Call) (hdistinct : (calls.filterMap Call.token?).Nodup) :
    Holds (run calls).1 (run calls).2 := by
  induction calls using List.reverseRecOn with
  | nil => exact .init
  | append_singleton calls c ih =>
    rw [List.filterMap_append] at hdistinct
    have h := ih (List.Nodup.of_append_left hdistinct)
    rw [run_concat]
    cases c with
    | validate token now => exact h.validate token now
    | issue token now look =>
        refine h.issue ?_ now look
        intro hissued
        exact List.disjoint_of_nodup_append hdistinct (issued_called calls hissued)
          (by simp [Call.token?])
    | noToken => exact h

/-- A session of the token is in the table. -/
def Stored (ss : Sessions) (token : String) : Prop := ∃ s ∈ ss, s.token = token

/-- What an `issue` does to the live sessions: it evicts one if there are sixteen, and then
    one whose last use is longest ago. -/
structure Evicts (log : List Event) (look : String → Nat) (evicted : Option String)
    (after : Sessions) (live : List String) : Prop where
  nodup : live.Nodup
  mem : ∀ t, t ∈ live ↔ Live log t (look t)
  full : evicted.isSome = true ↔ live.length = SESSION_LIMIT
  stored : ∀ t ∈ live, Stored after t ↔ evicted ≠ some t
  oldest : ∀ v, evicted = some v → v ∈ live ∧ ∀ t ∈ live, ∀ used used',
    lastUse v log = some used → lastUse t log = some used' → used ≤ used'

theorem evicted_isSome :
    (ss.evicted look).isSome = true ↔ SESSION_LIMIT ≤ (ss.retain look).length := by
  rw [Sessions.evicted]
  split
  · rename_i hfull
    have hne : ss.retain look ≠ [] := by
      intro hnil
      rw [hnil] at hfull
      exact absurd hfull (by decide)
    obtain ⟨v, -, hget, -⟩ := oldest_spec hne
    simp [hget, hfull]
  · rename_i hroom
    simp [hroom]

theorem evicted_oldest {v : String} (hev : ss.evicted look = some v) :
    ∃ x ∈ ss.retain look, x.token = v ∧ ∀ s ∈ ss.retain look, x.expiresAt ≤ s.expiresAt := by
  obtain ⟨y, hy, -⟩ := evicted_mem hev
  obtain ⟨x, hx, hget, hmin⟩ := oldest_spec (List.ne_nil_of_mem hy)
  rw [Sessions.evicted, hget] at hev
  split at hev
  · exact ⟨x, hx, Option.some.inj hev, hmin⟩
  · cases hev

theorem Holds.evicts (h : Holds ss log) (hnew : ¬Issued log token) (now : Nat)
    (look : String → Nat) :
    Evicts log look (ss.evicted look) (ss.issue token now look).2
      ((ss.retain look).map Session.token) := by
  have hmem : ∀ t, t ∈ (ss.retain look).map Session.token ↔ Live log t (look t) := by
    intro t
    rw [← h.token_mem_retain look, List.mem_map]
  obtain ⟨-, -, hroom⟩ := h.evict look
  constructor
  · exact h.retain_apart look
  · exact hmem
  · have hlen := h.retain_length_le look
    rw [evicted_isSome, List.length_map]
    omega
  · intro t ht
    obtain ⟨s, hs, rfl⟩ := List.mem_map.1 ht
    have hne : s.token ≠ token := by
      rintro rfl
      exact hnew ((hmem _).1 ht).issued
    constructor
    · rintro ⟨s', hs', htok⟩
      rcases List.mem_append.1 hs' with hs' | hs'
      · rw [← htok]
        exact ((hroom s').1 hs').2
      · rw [List.mem_singleton.1 hs'] at htok
        exact absurd htok.symm hne
    · intro hev
      exact ⟨s, List.mem_append.2 (.inl ((hroom s).2 ⟨hs, hev⟩)), rfl⟩
  · intro v hv
    obtain ⟨x, hx, rfl, hmin⟩ := evicted_oldest hv
    refine ⟨List.mem_map.2 ⟨x, hx, rfl⟩, ?_⟩
    intro t ht used used' hused hused'
    obtain ⟨s, hs, rfl⟩ := List.mem_map.1 ht
    obtain ⟨-, u, hu, hexp⟩ := (h.mem_retain look).1 hx
    obtain ⟨-, u', hu', hexp'⟩ := (h.mem_retain look).1 hs
    have hle := hmin s hs
    rw [hused] at hu
    rw [hused'] at hu'
    cases hu
    cases hu'
    omega

/-- **The table of logins.**  After any calls there are at most sixteen sessions; a token is
    accepted if and only if it was issued, was never left unused for twelve hours at any
    call, and was not evicted; and an `issue` evicts no one unless sixteen live sessions are
    there, and then one whose last use is longest ago. -/
theorem sessions_exact (calls : List Call) (hdistinct : (calls.filterMap Call.token?).Nodup) :
    (run calls).1.length ≤ SESSION_LIMIT ∧
    (∀ token now, ((run calls).1.validate token now).1 = true ↔ Live (run calls).2 token now) ∧
    (∀ token now look, token ∉ calls.filterMap Call.token? →
      ∃ live, Evicts (run calls).2 look ((run calls).1.evicted look)
        ((run calls).1.issue token now look).2 live) := by
  have h := holds_run calls hdistinct
  refine ⟨h.length_le, h.validate_iff, ?_⟩
  intro token now look hfresh
  exact ⟨_, h.evicts (fun hissued => hfresh (issued_called calls hissued)) now look⟩

theorem sessions_exact_two :
    Live (run [.issue "a" 5 fun _ => 5, .validate "a" 7]).2 "a" 43206 ∧
      ∃ live, Evicts (run [.issue "a" 5 fun _ => 5, .validate "a" 7]).2 (fun _ => 43206)
        ((run [.issue "a" 5 fun _ => 5, .validate "a" 7]).1.evicted fun _ => 43206)
        ((run [.issue "a" 5 fun _ => 5, .validate "a" 7]).1.issue "b" 43206 fun _ => 43206).2
        live := by
  obtain ⟨-, hvalidate, hissue⟩ :=
    sessions_exact [.issue "a" 5 fun _ => 5, .validate "a" 7] (by decide)
  exact ⟨(hvalidate "a" 43206).1 (by decide +kernel), hissue "b" 43206 _ (by decide)⟩

end Datad.Auth
