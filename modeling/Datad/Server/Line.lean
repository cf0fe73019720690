/-
  Datad/Server/Line.lean
  ======================
  **The observer's queue is the engine's.**

  The observer keeps the legacy queue once more, with a label on each request, and
  notes which drain task holds which request.  Both follow the engine in every step.
-/
import Datad.Server.Effects

namespace Datad

/-! ### The operations of the queue, with labels -/

section Labels

variable {st : St} {line : List Ticket}

theorem map_req_filter (p : LegacyReq → Bool) (line : List Ticket) :
    (line.filter fun t => p t.req).map Ticket.req = (line.map Ticket.req).filter p := by
  rw [List.filter_map]
  rfl

theorem any_req (p : LegacyReq → Bool) (line : List Ticket) :
    (line.any fun t => p t.req) = (line.map Ticket.req).any p := by
  rw [List.any_map]
  rfl

theorem popLine_req (h : line.map Ticket.req = st.legacy) (cfg : Config) (now : Nat) :
    (popLine cfg st line now).1.map Ticket.req = (st.popLegacy cfg now).2.2 ∧
      (popLine cfg st line now).2.map Ticket.req = (st.popLegacy cfg now).1.legacy := by
  rw [popLine, St.popLegacy]
  split
  · exact ⟨rfl, h⟩
  · have hf := map_req_filter (fun r => decide (now - r.atMs < cfg.legacyTtlMs)) line
    rw [h] at hf
    dsimp only
    rw [← hf]
    generalize (line.filter fun t => decide (now - t.req.atMs < cfg.legacyTtlMs)) = kept
    cases kept with
    | nil => exact ⟨rfl, rfl⟩
    | cons t rest => exact ⟨rfl, rfl⟩

theorem putBackLine_req (h : line.map Ticket.req = st.legacy) (t : Ticket) :
    (putBackLine line t).map Ticket.req = (st.putBackLegacy t.req).legacy := by
  rw [putBackLine, St.putBackLegacy, any_req (fun q => decide (q.item = t.req.item)), h]
  split
  · exact h
  · rw [List.map_cons, h]

theorem lineAfter_req (h : line.map Ticket.req = st.legacy) (c : Call) (under : Option Nat)
    (draining : Bool) :
    (c.lineAfter under line).map Ticket.req = (c.turn st draining).st.legacy := by
  cases c with
  | enqueueLegacy item action params now =>
      simp only [Call.lineAfter, Call.turn, St.enqueueLegacy, List.map_append, List.map_cons,
        List.map_nil]
      rw [map_req_filter (fun q => decide (q.item ≠ item)), h]
  | preempt => rfl
  | clearLegacy why => rfl
  | legacyGate item safety =>
      cases safety with
      | true => rfl
      | false =>
          simp only [Call.lineAfter, Call.flushes, Call.turn, Bool.false_eq_true, if_false]
          rw [h]
          exact (st.legacyGate_deed item).aside.1.symm
  | revert opId => exact h.trans (St.revert_deed st).aside.1.symm
  | keep opId => exact h.trans (St.keep_deed st).aside.1.symm
  | otherWrite source => exact h.trans (st.otherWrite_deed source).aside.1.symm
  | interrupt source what => exact h.trans (st.interrupt_deed source what).aside.1.symm
  | sessionOpen source id now => exact h.trans (st.sessionOpen_tends source id now).aside.1.symm
  | sessionRenew id now => exact h.trans (st.sessionRenew_tends id now).aside.1.symm
  | sessionClose id result now => exact h.trans (st.sessionClose_tends id result now).aside.1.symm
  | sessionGate action session now =>
      exact h.trans (st.sessionGate_tends action session now).aside.1.symm
  | ack opId source => exact h.trans (St.ack_deed st source).aside.1.symm
  | noticeAck source => exact h.trans (st.noticeAck_deed source).aside.1.symm
  | publishNow => exact h

/-- Only popping and putting back touch the queue. -/
theorem Task.turn_legacy (cfg : Config) (bootId : String) (uid : Nat) (st : St) (draining : Bool)
    (i : Input) {T : Task} (hd : T ≠ .drain) (hb : ∀ r, T ≠ .drainBack r) :
    (T.turn cfg bootId uid st draining i).st.legacy = st.legacy := by
  cases T with
  | drain => exact absurd rfl hd
  | drainBack r => exact absurd rfl (hb r)
  | drainRun r =>
      simp only [turn]
      split <;> rfl
  | drainLower | drainMore | drainRetry => rfl
  | _ => exact (Task.turn_aside cfg bootId uid st draining i rfl).1.1

end Labels

namespace Server

theorem setAt_self {α : Type} (f : Nat → α) (key : Nat) : setAt f key (f key) = f := by
  funext k
  rw [setAt]
  split
  · rename_i hk
    rw [hk]
  · rfl

theorem Run.flush_held {r : Run} {t : Ticket} (h : r.flush = .held t) :
    ∃ t₀, r = .held t₀ ∧ t = { t₀ with flushed := true } := by
  cases r with
  | held t₀ =>
      cases h
      exact ⟨t₀, rfl, rfl⟩
  | _ => cases h

structure Aligned (s : Server) : Prop where
  line : s.line.map Ticket.req = s.world.st.legacy
  held : ∀ key t, s.runs key = .held t → World.handOf (s.world.tasks key) = some t.req
  back : ∀ key r, s.world.tasks key = some (.drainBack r) → ∃ t, s.runs key = .held t

namespace Aligned

variable {cfg : Config} {s s' : Server}

theorem empty : Aligned {} := ⟨rfl, fun _ _ h => (nomatch h), fun _ _ h => (nomatch h)⟩

/-- A slot moves: what it is known to hold afterwards has to be in its hands. -/
theorem slot (h : s.Aligned) {key : Nat} {T : Option Task} {v : Run}
    (hv : ∀ t, v = .held t → World.handOf T = some t.req)
    (hb : ∀ r, T = some (.drainBack r) → ∃ t, v = .held t)
    (ht : s'.world.tasks = setTask s.world.tasks key T)
    (hl : s'.line.map Ticket.req = s'.world.st.legacy) (hr : s'.runs = setAt s.runs key v) :
    s'.Aligned := by
  constructor
  · exact hl
  · intro k t hk
    rw [hr] at hk
    rw [ht]
    rcases setAt_cases hk with ⟨rfl, hk'⟩ | ⟨hne, hk'⟩
    · rw [setTask, if_pos rfl]
      exact hv t hk'
    · rw [setTask, if_neg hne]
      exact h.held k t hk'
  · intro k r hk
    rw [ht] at hk
    rw [hr, setAt]
    rcases setAt_cases (f := s.world.tasks) hk with ⟨rfl, hk'⟩ | ⟨hne, hk'⟩
    · rw [if_pos rfl]
      exact hb r hk'
    · rw [if_neg hne]
      exact h.back k r hk'

theorem empty_slot (h : s.Aligned) {key : Nat} (hk : World.handOf (s.world.tasks key) = none)
    (t : Ticket) : s.runs key ≠ .held t := by
  intro ht
  rw [h.held key t ht] at hk
  cases hk

theorem flush (h : s.Aligned) : Aligned { s with runs := fun k => (s.runs k).flush } := by
  constructor
  · exact h.line
  · intro k t hk
    obtain ⟨t₀, ht₀, rfl⟩ := Run.flush_held hk
    exact h.held k t₀ ht₀
  · intro k r hk
    obtain ⟨t, ht⟩ := h.back k r hk
    refine ⟨{ t with flushed := true }, ?_⟩
    dsimp only
    rw [ht]
    rfl

/-- A slot that holds nothing, before and after. -/
theorem idle (h : s.Aligned) {key : Nat} {T : Option Task}
    (hk : World.handOf (s.world.tasks key) = none) (hT : World.handOf T = none)
    (ht : s'.world.tasks = setTask s.world.tasks key T)
    (hl : s'.line.map Ticket.req = s'.world.st.legacy) (hr : s'.runs = s.runs) : s'.Aligned := by
  refine h.slot (fun t hv => ?_) (fun r hr => ?_) ht hl (hr.trans (setAt_self s.runs key).symm)
  · exact absurd hv (h.empty_slot hk t)
  · rw [hr] at hT
    cases hT

theorem call (h : s.Aligned) {key : Nat} {c : Call} {under : Option Nat}
    (hc : s.call cfg key c under = some s') : s'.Aligned := by
  obtain ⟨-, -, -, -, h5, -, h7, h8, h9, hk⟩ := call_frame hc
  have hline : s'.line.map Ticket.req = s'.world.st.legacy := by
    rw [h7, h5]
    exact lineAfter_req h.line c under _
  have hhand : World.handOf (s.world.tasks key) = none := by
    rw [hk]
    rfl
  have htask : World.handOf (c.turn s.world.st s.world.draining).task = none := by
    rcases hT : (c.turn s.world.st s.world.draining).task with _ | T
    · rfl
    · rcases hr : T.hand with _ | r
      · exact hr
      · exact absurd hr (Call.turn_hand hT)
  split at h8
  · exact h.flush.idle hhand htask h9 hline h8
  · exact h.idle hhand htask h9 hline h8

theorem turn (h : s.Aligned) {key : Nat} {i : Input} (hs : s.turn cfg key i = some s')
    (hi : ∀ r, s.world.tasks key = some (.drainRun r) →
      (∃ t, s.runs key = .held t) ∧ i.ran = false ∨ (∀ t, s.runs key ≠ .held t) ∧ i.ran = true) :
    s'.Aligned := by
  obtain ⟨T, hT, hb⟩ := turn_beside hs
  cases hb with
  | @popped t line hp =>
      obtain ⟨hpop, hrest⟩ := popLine_req h.line cfg i.now
      obtain ⟨hst, htask⟩ := Task.drain_turn cfg s.world.bootId s.world.nextUid s.world.st
        s.world.draining i
      rw [hp] at hpop hrest
      rw [← hpop] at htask
      refine h.slot (fun t' hv => ?_) (fun r hr => ?_) rfl
        (hrest.trans (congrArg St.legacy hst).symm) rfl
      · cases hv
        exact congrArg World.handOf htask
      · exact ⟨t, rfl⟩
  | empty hp =>
      obtain ⟨hpop, hrest⟩ := popLine_req h.line cfg i.now
      obtain ⟨hst, htask⟩ := Task.drain_turn cfg s.world.bootId s.world.nextUid s.world.st
        s.world.draining i
      rw [hp] at hpop hrest
      rw [← hpop] at htask
      refine h.idle (by rw [hT]; rfl) ?_ rfl (hrest.trans (congrArg St.legacy hst).symm) rfl
      exact congrArg World.handOf htask
  | @back r t hr =>
      have hreq : t.req = r := by
        have := h.held key t hr
        rw [hT] at this
        exact (Option.some.inj this).symm
      refine h.slot (fun t' hv => by cases hv) (fun r' hr' => by cases hr') rfl ?_ rfl
      rw [← hreq]
      exact putBackLine_req h.line t
  | nothing hd hback =>
      have hline : s.line.map Ticket.req = (s.world.turnOf cfg T i).st.legacy := by
        refine h.line.trans (Task.turn_legacy cfg _ _ _ _ i hd fun r hr => ?_).symm
        subst hr
        obtain ⟨t, ht⟩ := h.back key r hT
        exact hback r t rfl ht
      refine h.slot (fun t hv => ?_) (fun r hr => ?_) rfl hline (setAt_self s.runs key).symm
      · -- a request that is held stays in the hands of its task
        have hhand : T.hand = some t.req := by
          have := h.held key t hv
          rwa [hT] at this
        cases T with
        | drainRun r =>
            rcases hi r hT with ⟨-, hran⟩ | ⟨hno, -⟩
            · rw [World.turnOf, Task.turn, hran]
              exact hhand
            · exact absurd hv (hno t)
        | drainBack r => exact absurd hv (hback r t rfl)
        | _ => cases hhand
      · rcases (Task.turn_follows hr).2 r rfl with ⟨rfl, -⟩ | ⟨rfl, -, hran⟩
        · exact absurd rfl hd
        · rcases hi r hT with ⟨h1, -⟩ | ⟨-, h2⟩
          · exact h1
          · rw [hran] at h2
            cases h2

/-- Nothing moves in the engine, and no request comes into anyone's hands. -/
theorem still (h : s.Aligned) (hw : s'.world = s.world) (hl : s'.line = s.line)
    (hr : ∀ k t, s'.runs k = .held t → s.runs k = .held t)
    (hb : ∀ k r t, s.world.tasks k = some (.drainBack r) → s.runs k = .held t →
      s'.runs k = .held t) : s'.Aligned := by
  constructor
  · rw [hw, hl]
    exact h.line
  · intro k t hk
    rw [hw]
    exact h.held k t (hr k t hk)
  · intro k r hk
    rw [hw] at hk
    obtain ⟨t, ht⟩ := h.back k r hk
    exact ⟨t, hb k r t hk ht⟩

theorem finish (h : s.Aligned) (j : Job) : (s.finish j).Aligned := by
  refine h.still rfl rfl (fun k t hk => ?_) (fun k r t _ hk => ?_)
  · dsimp only [Server.finish] at hk
    split at hk
    · split at hk <;> cases hk
    · exact hk
  · dsimp only [Server.finish]
    rw [hk]

theorem move (h : s.Aligned) {a : Act} (hm : Move cfg s a s') : s'.Aligned := by
  cases hm with
  | receive => exact h.still rfl rfl (fun _ _ hk => hk) fun _ _ _ _ hk => hk
  | answered => exact h.still rfl rfl (fun _ _ hk => hk) fun _ _ _ _ hk => hk
  | goes => exact h.still rfl rfl (fun _ _ hk => hk) fun _ _ _ _ hk => hk
  | called hp hc hq => exact (h.call hc).still rfl rfl (fun _ _ hk => hk) fun _ _ _ _ hk => hk
  | submit hp hst hw =>
      cases World.next_step hw with
      | submit hu hk => exact h.idle (by rw [hk]; rfl) rfl rfl h.line rfl
  | push => exact h.still rfl rfl (fun _ _ hk => hk) fun _ _ _ _ hk => hk
  | pop => exact h.still rfl rfl (fun _ _ hk => hk) fun _ _ _ _ hk => hk
  | check => exact h.still rfl rfl (fun _ _ hk => hk) fun _ _ _ _ hk => hk
  | checkCall refused hr hc =>
      cases refused with
      | true => exact (h.call hc).finish _
      | false => exact (h.call hc).still rfl rfl (fun _ _ hk => hk) fun _ _ _ _ hk => hk
  | execute => exact h.still rfl rfl (fun _ _ hk => hk) fun _ _ _ _ hk => hk
  | finish hr => exact h.finish _
  | @hand key r t ht hr =>
      refine h.still rfl rfl (fun k t' hk => ?_) (fun k r' t' hb hk => ?_)
      · rcases setAt_cases hk with ⟨-, hk⟩ | ⟨-, hk⟩
        · cases hk
        · exact hk
      · have hne : k ≠ key := by
          rintro rfl
          rw [ht] at hb
          cases hb
        dsimp only
        rw [setAt, if_neg hne]
        exact hk
  | handBusy ht hr hs => exact h.turn hs fun r hT => .inl ⟨⟨_, hr⟩, rfl⟩
  | @ran key r s₁ ht hr hs =>
      have h₁ := h.turn hs fun r hT => .inr ⟨fun t hheld => (by rw [hr] at hheld; cases hheld), rfl⟩
      refine h₁.still rfl rfl (fun k t' hk => ?_) (fun k r' t' hb hk => ?_)
      · rcases setAt_cases hk with ⟨-, hk⟩ | ⟨-, hk⟩
        · cases hk
        · exact hk
      · have hne : k ≠ key := by
          rintro rfl
          obtain ⟨T, hT, hw⟩ := turn_take hs
          rw [ht] at hT
          cases hT
          rw [hw] at hb
          rcases setAt_cases (f := s.world.tasks) hb with ⟨-, hb⟩ | ⟨hne, -⟩
          · cases hb
          · exact hne rfl
        dsimp only
        rw [setAt, if_neg hne]
        exact hk
  | turn ht hs => exact h.turn hs fun r hT => absurd hT (ht r)
  | drop hw =>
      cases World.next_step hw with
      | @drop _ T hT hd =>
          refine h.idle ?_ rfl rfl h.line rfl
          rw [hT]
          cases T with
          | drainRun r => cases hd
          | drainBack r => cases hd
          | _ => rfl
  | publish hc => exact h.call hc
  | takeover hw =>
      cases World.next_step hw with
      | takeover => exact ⟨h.line, h.held, h.back⟩
  | reset hw hl ht =>
      refine ⟨hl.symm, fun k t hk => (by cases hk), fun k r hk => ?_⟩
      have hnone := ht k
      dsimp only [reset] at hk
      rw [hk] at hnone
      cases hnone

end Aligned

/-! ### Labels -/

section Labelled

variable {cfg : Config} {s s' : Server} {P : Ticket → Prop}

/-- A property of all tickets, in the queue and in the hands of the drain tasks. -/
def Labelled (P : Ticket → Prop) (s : Server) : Prop :=
  (∀ t ∈ s.line, P t) ∧ ∀ key t, s.runs key = .held t → P t

theorem popLine_mem {cfg : Config} {st : St} {line line' : List Ticket} {now : Nat}
    {o : Option Ticket} (h : popLine cfg st line now = (o, line')) :
    (∀ t, o = some t → t ∈ line) ∧ ∀ q ∈ line', q ∈ line := by
  rw [popLine] at h
  split at h
  · cases h
    exact ⟨nofun, fun q hq => hq⟩
  · split at h
    · cases h
      exact ⟨nofun, nofun⟩
    · rename_i t rest hf
      have hsub : ∀ q ∈ t :: rest, q ∈ line := by
        intro q hq
        rw [← hf] at hq
        exact List.mem_of_mem_filter hq
      cases h
      refine ⟨fun t' ht' => ?_, fun q hq => hsub q (List.mem_cons_of_mem _ hq)⟩
      cases ht'
      exact hsub t List.mem_cons_self

theorem Labelled.call (h : Labelled P s) {key : Nat} {c : Call} {under : Option Nat}
    (hc : s.call cfg key c under = some s')
    (hnew : ∀ item action params now, c = .enqueueLegacy item action params now →
      ∀ r, P { req := r, under })
    (hflush : c.flushes = true → ∀ key t, s.runs key = .held t → P { t with flushed := true }) :
    Labelled P s' := by
  obtain ⟨-, -, -, -, -, -, h7, h8, -⟩ := call_frame hc
  constructor
  · rw [h7]
    intro t ht
    cases c with
    | enqueueLegacy item action params now =>
        rcases List.mem_append.mp ht with ht | ht
        · exact h.1 t (List.mem_of_mem_filter ht)
        · rw [List.mem_singleton.mp ht]
          exact hnew _ _ _ _ rfl _
    | _ =>
        dsimp only [Call.lineAfter] at ht
        split at ht
        · cases ht
        · exact h.1 t ht
  · intro k t hk
    rw [h8] at hk
    split at hk
    · rename_i hf
      obtain ⟨t₀, ht₀, rfl⟩ := Run.flush_held hk
      exact hflush hf k t₀ ht₀
    · exact h.2 k t hk

theorem Labelled.turn (h : Labelled P s) {key : Nat} {i : Input}
    (hs : s.turn cfg key i = some s') : Labelled P s' := by
  obtain ⟨T, -, hb⟩ := turn_beside hs
  cases hb with
  | @popped t line hp =>
      obtain ⟨ht, hline⟩ := popLine_mem hp
      refine ⟨fun q hq => h.1 q (hline q hq), fun k t' hk => ?_⟩
      rcases setAt_cases hk with ⟨-, hk⟩ | ⟨-, hk⟩
      · cases hk
        exact h.1 t (ht t rfl)
      · exact h.2 k t' hk
  | empty hp => exact ⟨fun q hq => h.1 q ((popLine_mem hp).2 q hq), h.2⟩
  | @back r t hr =>
      refine ⟨fun q hq => ?_, fun k t' hk => ?_⟩
      · dsimp only [putBackLine] at hq
        split at hq
        · exact h.1 q hq
        · rcases List.mem_cons.mp hq with rfl | hq
          · exact h.2 key q hr
          · exact h.1 q hq
      · rcases setAt_cases hk with ⟨-, hk⟩ | ⟨-, hk⟩
        · cases hk
        · exact h.2 k t' hk
  | nothing hd hb => exact h

theorem Labelled.finish (h : Labelled P s) (j : Job) : Labelled P (s.finish j) := by
  refine ⟨h.1, fun k t hk => h.2 k t ?_⟩
  dsimp only [Server.finish] at hk
  split at hk
  · split at hk <;> cases hk
  · exact hk

/-- Tickets are as before, or new, or flushed. -/
theorem Labelled.move (h : Labelled P s) {a : Act} (hm : Move cfg s a s')
    (hnew : ∀ id p r, s.reqs id = some p → P { req := r, under := p.under })
    (hflush : s.flushing a = true → ∀ key t, s.runs key = .held t → P { t with flushed := true }) :
    Labelled P s' := by
  cases hm with
  | called hp hc hq =>
      have h₁ := h.call hc (fun _ _ _ _ _ r => hnew _ _ r hp)
        fun hf => hflush (hq.flushing hp hf)
      exact h₁
  | checkCall refused hr hc =>
      have h₁ := h.call hc nofun nofun
      cases refused with
      | true => exact h₁.finish _
      | false => exact h₁
  | finish hr => exact h.finish _
  | hand ht hr =>
      refine ⟨h.1, fun k t' hk => ?_⟩
      rcases setAt_cases hk with ⟨-, hk⟩ | ⟨-, hk⟩
      · cases hk
      · exact h.2 k t' hk
  | handBusy ht hr hs => exact h.turn hs
  | ran ht hr hs =>
      have h₁ := h.turn hs
      refine ⟨h₁.1, fun k t' hk => ?_⟩
      rcases setAt_cases hk with ⟨-, hk⟩ | ⟨-, hk⟩
      · cases hk
      · exact h₁.2 k t' hk
  | turn ht hs => exact h.turn hs
  | publish hc => exact h.call hc nofun nofun
  | reset hw hl ht => exact ⟨nofun, fun k t hk => (by cases hk)⟩
  | _ => exact h

end Labelled

end Server

end Datad
