/-
  Datad/Ops/Exclusion.lean
  ========================
  **The write lock is exclusive.**  However requests, sessions, timers and drivers
  interleave after `start`, at most one transaction is under way, never beside a
  session, and only an overridable transaction gives way to another one.

  A transaction is under way from the first time the process saves it until the
  journal line that records its end; both are events of the log, so this does not
  rest on the engine having a single field for it.
-/
import Datad.Ops.WorldInvariant

namespace Datad

open Transition

/-- Accepted or resumed in this stretch of the log, and not ended in it. -/
def UnderWay (l : List Event) (uid : Nat) : Prop :=
  (∃ t : Txn, .fx (.save t) ∈ l ∧ t.uid = uid) ∧
    ∀ t : Txn, .fx (.append (.txn t)) ∈ l → t.uid ≠ uid

/-- What happens within one life of the process, after `start`. -/
def Act.serving : Act → Bool
  | .submit .. | .task .. | .call .. | .drop _ | .takeover => true
  | .start .. | .crash | .crashTask .. | .crashCall .. | .crashStart .. => false

namespace Sect

variable {who : Option String} {may : Bool} {fresh : Option Nat} {a a' : Option Txn}
  {l : List Effect}

/-- A transaction that is active or saved by the section is active after it, or
    its end is recorded. -/
theorem accounted (h : Sect who may fresh a a' l) {t : Txn} (ht : a = some t ∨ .save t ∈ l) :
    (∃ t', a' = some t' ∧ t'.uid = t.uid) ∨
      ∃ t', .append (.txn t') ∈ l ∧ t'.uid = t.uid ∧ t'.phase.isFinal = true := by
  rcases ht with ht | ht
  · cases h with
    | stay => exact .inl ⟨t, ht, rfl⟩
    | resave u => exact .inl ⟨t, ht, rfl⟩
    | advance hi hm hid hf hl =>
      cases ht
      exact .inl ⟨_, rfl, congrArg Txn.Ident.uid hid⟩
    | landed hw hs hid hf =>
      cases ht
      exact .inl ⟨_, rfl, congrArg Txn.Ident.uid hid⟩
    | @close u u' l hm hid hf hc hl =>
      cases ht
      refine .inr ⟨u', ?_, congrArg Txn.Ident.uid hid, hf⟩
      rcases hl with rfl | rfl <;> simp
    | accept hu ho =>
      subst ht
      refine .inr ⟨t.cancel .superseded, by simp, ?_, t.cancel_final .superseded⟩
      have hw : Reason.superseded.cancels = true := rfl
      exact congrArg Txn.Ident.uid (t.cancel_moves hw).2
  · exact .inl ⟨t, h.saved ht, rfl⟩

/-- The active transaction stays the same one, or it may be overridden. -/
theorem replaced (h : Sect who may fresh a a' l) {t t' : Txn} (ht : a = some t)
    (ht' : a' = some t') :
    t'.ident = t.ident ∨ t'.item = t.item ∧ (t.phase = .verifying ∨ t.phase = .rollingBack) ∧
      t.intent = none ∧ t'.source.mayOverride = true := by
  cases h with
  | stay =>
    rw [ht] at ht'
    exact .inl (by rw [Option.some.inj ht'])
  | resave u =>
    rw [ht] at ht'
    exact .inl (by rw [Option.some.inj ht'])
  | advance hi hm hid hf hl =>
    cases ht
    cases ht'
    exact .inl hid
  | landed hw hs hid hf =>
    cases ht
    cases ht'
    exact .inl hid
  | close => cases ht'
  | accept hu ho =>
    cases ht'
    obtain ⟨h1, h2, h3, h4⟩ := ho t ht
    exact .inr ⟨h1.symm, h2, h3, h4⟩

end Sect

/-- Outside the lock a turn answers, runs a legacy request, or starts a write. -/
theorem Task.turn_events (cfg : Config) (bootId : String) (uid : Nat) (st : St)
    (draining : Bool) (i : Input) (task : Task) (e : Effect) :
    .fx e ∉ (task.turn cfg bootId uid st draining i).events := by
  cases task with
  | submit req opId =>
    simp only [Task.turn]
    split <;> simp
  | submitRead req opId =>
    simp only [Task.turn]
    split
    · simp
    · split <;> simp
  | drive opId =>
    simp only [Task.turn]
    split
    · simp
    · split <;> simp
  | rollback opId uid value generation spec =>
    simp only [Task.turn]
    split <;> simp
  | rollbackRead opId uid value generation spec =>
    simp only [Task.turn]
    split <;> simp
  | read opId generation spec =>
    simp only [Task.turn]
    split
    · split
      · simp
      · split <;> simp
    · simp
  | feed opId generation reading =>
    simp only [Task.turn]
    split <;> simp
  | drain =>
    simp only [Task.turn]
    split <;> simp
  | drainRun r =>
    simp only [Task.turn]
    split <;> simp
  | _ => simp [Task.turn]

theorem Call.turn_events (st : St) (draining : Bool) (c : Call) :
    (c.turn st draining).events = [] := by
  cases c <;> rfl

namespace World

/-- What the process has done since `w₁` accounts for every transaction under
    way: it is the active one. -/
def Accounted (w₁ w : World) : Prop :=
  ∃ l, w.log = w₁.log ++ l ∧
    ∀ uid, UnderWay l uid → ∃ t, w.st.active = some t ∧ t.uid = uid

theorem Accounted.take {w₁ w : World} (h : Accounted w₁ w) {who : Option String} {may : Bool}
    {fresh : Option Nat} {key : Nat} {turn : Turn}
    (hs : Shift who may fresh w.st turn.st turn.fx) (he : ∀ e, .fx e ∉ turn.events) :
    Accounted w₁ (w.take key turn) := by
  obtain ⟨l, hlog, hl⟩ := h
  refine ⟨l ++ (turn.fx.map .fx ++ turn.events), ?_, ?_⟩
  · show w.log ++ _ = _
    rw [hlog, List.append_assoc]
  · rintro uid ⟨⟨t, hsave, hu⟩, hend⟩
    have hnew : ∀ {e}, .fx e ∈ turn.fx.map Event.fx ++ turn.events → e ∈ turn.fx := by
      intro e hm
      rcases List.mem_append.mp hm with hm | hm
      · obtain ⟨e', he', heq⟩ := List.mem_map.mp hm
        cases heq
        exact he'
      · exact absurd hm (he e)
    have hacc : ∀ t₁ : Txn, w.st.active = some t₁ ∨ .save t₁ ∈ trail turn.fx → t₁.uid = uid →
        ∃ t', turn.st.active = some t' ∧ t'.uid = uid := by
      intro t₁ ht₁ hu₁
      rcases hs.sect.accounted ht₁ with ⟨t', ht', huid⟩ | ⟨t', hm, huid, -⟩
      · exact ⟨t', ht', huid.trans hu₁⟩
      · refine absurd (huid.trans hu₁) (hend t' ?_)
        refine List.mem_append_right _ (List.mem_append_left _ ?_)
        exact List.mem_map_of_mem (mem_trail.mp hm).1
    rcases List.mem_append.mp hsave with hm | hm
    · obtain ⟨t₁, ht₁, hu₁⟩ :=
        hl uid ⟨⟨t, hm, hu⟩, fun t' h' => hend t' (List.mem_append_left _ h')⟩
      exact hacc t₁ (.inl ht₁) hu₁
    · exact hacc t (.inr (mem_trail.mpr ⟨hnew hm, rfl⟩)) hu

theorem Accounted.step {cfg : Config} {w₁ w w' : World} {a : Act} (hok : w.Ok)
    (h : Accounted w₁ w) (ha : a.serving = true) (hs : Step cfg w a w') : Accounted w₁ w' := by
  cases hs with
  | submit => exact h
  | task ht =>
    exact h.take (turnOf_shift cfg hok.st _ _) (Task.turn_events cfg _ _ _ _ _ _)
  | @call key c hu hk =>
    apply h.take (call_shift c w)
    rw [Call.turn_events]
    simp
  | drop => exact h
  | takeover => exact h
  | start => cases ha
  | crash => cases ha
  | crashTask => cases ha
  | crashCall => cases ha
  | crashStart => cases ha

/-- `start` saves the transaction it resumes, and nothing else. -/
theorem Accounted.start {cfg : Config} {w w' : World} {key : Nat} {bootId : String} {now : Nat}
    (hok : w.Ok) (hs : Step cfg w (.start key bootId now) w') : Accounted w w' := by
  cases hs with
  | start hu =>
    refine ⟨_, rfl, ?_⟩
    rintro uid ⟨⟨t, hsave, huid⟩, -⟩
    obtain ⟨e, he, heq⟩ := List.mem_map.mp hsave
    cases heq
    exact ⟨t, (hok.resumed bootId now).2.saved (mem_trail.mpr ⟨he, rfl⟩), huid⟩

/-- **Mutual exclusion of the write lock.**  `w₁` is any state in which the process
    is down (whatever crashes led to it), `w₀` the state `start` leaves and `w` any
    state reached while the process serves. -/
theorem write_lock_exclusive {cfg : Config} {w₁ w₀ w : World} {key : Nat} {bootId : String}
    {now : Nat} (h₁ : Exec (next cfg) (fun _ _ => True) {} w₁)
    (hstart : next cfg w₁ (.start key bootId now) = some w₀)
    (h : Exec (next cfg) (fun _ a => a.serving = true) w₀ w) :
    (∃ l, w.log = w₁.log ++ l ∧
      ∀ uid uid', UnderWay l uid → UnderWay l uid' → uid = uid') ∧
    (∀ t ∈ w.st.recent, t.phase.isFinal = true) ∧
    ¬ (w.st.active.isSome = true ∧ w.st.session.isSome = true) ∧
    ∀ a w', a.serving = true → next cfg w a = some w' →
      ∀ t t', w.st.active = some t → w'.st.active = some t' →
        t'.ident = t.ident ∨
          t'.item = t.item ∧ (t.phase = .verifying ∨ t.phase = .rollingBack) ∧
            t.intent = none ∧ (t'.source.isUser = true ∨ t'.source = .guard) := by
  have hok₁ : w₁.Ok := Ok.empty.exec h₁
  have hok₀ : w₀.Ok := hok₁.step (next_step hstart)
  have hboth : w.Ok ∧ Accounted w₁ w := by
    refine h.invariant (fun w => w.Ok ∧ Accounted w₁ w) ?_
      ⟨hok₀, Accounted.start hok₁ (next_step hstart)⟩
    rintro v v' a ⟨hv, hacc⟩ ha hs
    exact ⟨hv.step (next_step hs), hacc.step hv ha (next_step hs)⟩
  obtain ⟨hok, l, hlog, hl⟩ := hboth
  refine ⟨⟨l, hlog, ?_⟩, hok.st.recent, ?_, ?_⟩
  · intro uid uid' hu hu'
    obtain ⟨t, ht, rfl⟩ := hl uid hu
    obtain ⟨t', ht', rfl⟩ := hl uid' hu'
    rw [ht] at ht'
    rw [Option.some.inj ht']
  · rintro ⟨hact, hses⟩
    rw [hok.st.alone hact] at hses
    cases hses
  · intro a w' ha hs t t' ht ht'
    have hover : t'.source.mayOverride = true → t'.source.isUser = true ∨ t'.source = .guard := by
      intro hm
      simpa [Source.mayOverride] using hm
    have hsect : ∃ who may fresh l, Sect who may fresh w.st.active w'.st.active l := by
      cases next_step hs with
      | submit => exact ⟨none, false, none, [], .stay _⟩
      | task htask => exact ⟨_, _, _, _, (turnOf_shift cfg hok.st _ _).sect⟩
      | call => exact ⟨_, _, _, _, (call_shift _ w).sect⟩
      | drop => exact ⟨none, false, none, [], .stay _⟩
      | takeover => exact ⟨none, false, none, [], .stay _⟩
      | start => cases ha
      | crash => cases ha
      | crashTask => cases ha
      | crashCall => cases ha
      | crashStart => cases ha
    obtain ⟨who, may, fresh, l, hsect⟩ := hsect
    rcases hsect.replaced ht ht' with h | ⟨h1, h2, h3, h4⟩
    · exact .inl h
    · exact .inr ⟨h1, h2, h3, hover h4⟩

def sampleConfig : Config where
  rollback := true
  legacyTtlMs := 60000
  deadlineEnv := fun _ => none

def sampleRequest (opId : String) : Request where
  spec := SPECS.head (List.cons_ne_nil _ _)
  target := "Only_LTE"
  source := .screen
  opId := some opId
  undo := false

/-- A client's `submit` as far as its acceptance. -/
def submitted (key : Nat) (opId : String) : List Act :=
  [.submit key (sampleRequest opId) opId, .task key {},
    .task key { reading := .ok (Txn.sampleReading "WL_AND_5G" "89860000000000000001") }]

/-- A session is asked for while a change is under way. -/
theorem session_refused_exclusive :
    ∃ w₀ w, next sampleConfig {} (.start 0 "boot" 5) = some w₀ ∧
      Exec (next sampleConfig) (fun _ a => a.serving = true) w₀ w ∧
      w.st.active.isSome = true ∧
      ¬ (w.st.active.isSome = true ∧ w.st.session.isSome = true) := by
  rcases hstart : next sampleConfig {} (.start 0 "boot" 5) with _ | w₀
  · cases hstart
  · have hrun : ((next sampleConfig {} (.start 0 "boot" 5)).any fun w₀ =>
        (run (next sampleConfig) (fun _ a => a.serving) w₀
          (submitted 1 "a" ++ [.call 2 (.sessionOpen .web "s" 9)])).any
            fun w => w.st.active.isSome) = true := by decide +kernel
    rw [hstart] at hrun
    obtain ⟨w, hw, hact⟩ := Exec.exists_of_run (fun _ _ h => h) (.refl w₀) hrun
    exact ⟨w₀, w, rfl, hw, hact, (write_lock_exclusive (.refl _) hstart hw).2.2.1⟩

end World

end Datad
