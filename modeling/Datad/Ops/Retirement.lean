/-
  Datad/Ops/Retirement.lean
  =========================
  **How a finished transaction is filed.**

  The engine keeps finished transactions in two places in memory, the list of the
  most recent ones and the very last one, and two on disk, the journal and
  `last.json`.  A locked section files at most one transaction, and always in the
  same way; the only other change is the user's "got it" on the last one.
-/
import Datad.Ops.Deeds
import Datad.Ops.WorldInvariant

namespace Datad

/-! ### The books -/

/-- Effects that record a finished transaction. -/
def Effect.onBooks : Effect → Bool
  | .append (.txn _) | .saveLast _ => true
  | _ => false

def books (fx : List Effect) : List Effect := fx.filter Effect.onBooks

@[simp] theorem books_nil : books [] = [] := rfl

@[simp] theorem books_append (fx fx' : List Effect) :
    books (fx ++ fx') = books fx ++ books fx' := List.filter_append ..

theorem mem_books {fx : List Effect} {e : Effect} :
    e ∈ books fx ↔ e ∈ fx ∧ e.onBooks = true := List.mem_filter

/-- Lines about something else than a transaction that ended. -/
theorem books_lines {lines : List Line} (h : ∀ line ∈ lines, (Effect.append line).onBooks = false) :
    books (lines.map .append) = [] := by
  apply List.filter_eq_nil_iff.mpr
  intro e he
  obtain ⟨line, hmem, rfl⟩ := List.mem_map.mp he
  rw [h line hmem]
  exact Bool.false_ne_true

/-- The most recent transactions once this one has ended. -/
def rememberIn (recent : List Txn) (t : Txn) : List Txn :=
  (if recent.length ≥ RECENT then recent.drop 1 else recent) ++ [t]

/-- What a section does to the recent transactions, the last one, and the books. -/
inductive Filed (recent : List Txn) (last : Option Last) :
    List Txn → Option Last → List Effect → Prop where
  | none : Filed recent last recent last []
  | retire {t : Txn} (hf : t.phase.isFinal = true) :
      Filed recent last (rememberIn recent t) (some ⟨t, false⟩)
        [.append (.txn t), .saveLast ⟨t, false⟩]
  | ack {l : Last} (hl : last = some l) :
      Filed recent last recent (some { l with acked := true })
        [.saveLast { l with acked := true }]

/-- A section, seen from the books. -/
def Files (st st' : St) (fx : List Effect) : Prop :=
  Filed st.recent st.last st'.recent st'.last (books fx)

namespace Files

variable {st st₁ st' : St} {fx fx' : List Effect}

theorem of_frame (hr : st'.recent = st.recent) (hl : st'.last = st.last)
    (hfx : books fx = []) : Files st st' fx := by
  rw [Files, hr, hl, hfx]
  exact .none

theorem refl (st : St) (hfx : books fx = []) : Files st st fx := of_frame rfl rfl hfx

/-- Something that leaves the books alone comes first. -/
theorem before (hr : st₁.recent = st.recent) (hl : st₁.last = st.last) (hfx : books fx = [])
    (h : Files st₁ st' fx') : Files st st' (fx ++ fx') := by
  rw [Files, hr, hl] at h
  rw [Files, books_append, hfx, List.nil_append]
  exact h

/-- Something that leaves the books alone comes after. -/
theorem after (h : Files st st₁ fx) (hr : st'.recent = st₁.recent) (hl : st'.last = st₁.last)
    (hfx : books fx' = []) : Files st st' (fx ++ fx') := by
  rw [Files, hr, hl, books_append, hfx, List.append_nil]
  exact h

end Files

/-! ### The sections -/

namespace St

variable {st : St}

theorem persist_books (st : St) (force : Bool) :
    (st.persist force).1.recent = st.recent ∧ (st.persist force).1.last = st.last ∧
      books (st.persist force).2 = [] := by
  rw [persist]
  split
  · exact ⟨rfl, rfl, rfl⟩
  · split
    · exact ⟨rfl, rfl, rfl⟩
    · split <;> exact ⟨rfl, rfl, rfl⟩

theorem retire_files {t : Txn} (ha : st.active = some t) (hf : t.phase.isFinal = true) :
    Files st st.retire.1 st.retire.2 := by
  rw [retire]
  rw [ha]
  exact .retire hf

theorem finish_files (st : St) : Files st st.finish.1 st.finish.2 := by
  rw [finish]
  split
  · rename_i t ha
    split
    · rename_i hf
      exact (retire_files ha hf).after rfl rfl rfl
    · exact .refl st rfl
  · exact .refl st rfl

theorem supersede_files (st : St) : Files st st.supersede.1 st.supersede.2 := by
  rw [supersede]
  split
  · rename_i t ha
    exact retire_files (st.setActive_active _) (t.cancel_final .superseded)
  · exact .refl st rfl

end St

section

variable {st st' : St} {fx : List Effect}

theorem Deed.files (h : Deed st st' fx) : Files st st' fx := by
  cases h with
  | idle => exact .refl st rfl
  | persist =>
    obtain ⟨hr, hl, hfx⟩ := st.persist_books true
    exact .of_frame hr hl hfx
  | save t =>
    obtain ⟨hr, hl, hfx⟩ := (st.setActive t).persist_books true
    exact .of_frame hr hl hfx
  | close t => exact (st.setActive t).finish_files
  | interrupt t hf source opId item what =>
    exact (st.setActive t).finish_files.after rfl rfl rfl
  | beat t force =>
    obtain ⟨hr, hl, hfx⟩ := (st.setActive t).persist_books force
    exact .before hr hl hfx (St.finish_files _)
  | accept t =>
    obtain ⟨hr, hl, hfx⟩ := (st.supersede.1.setActive t).persist_books true
    exact st.supersede_files.after hr hl hfx
  | publish => exact .refl st rfl
  | ack hl => exact .ack hl
  | noticeAck => exact .of_frame rfl rfl rfl

theorem Tends.files (h : Tends st st' fx) : Files st st' fx := by
  obtain ⟨session, lines, rfl, rfl, hlines⟩ := h
  refine .of_frame rfl rfl (books_lines ?_)
  intro line hmem
  obtain ⟨s, result, reason, age, rfl⟩ := hlines line hmem
  rfl

theorem Does.files (h : Does st st' fx) : Files st st' fx := by
  cases h with
  | deed h => exact h.files
  | tends h => exact h.files
  | queues h hq =>
    obtain ⟨legacy, lines, rfl, rfl, hlines⟩ := hq
    refine h.files.after rfl rfl (books_lines ?_)
    intro line hmem
    obtain ⟨r, result, reason, rfl⟩ := hlines line hmem
    rfl
  | owner => exact .refl st rfl

end

/-! ### Turns -/

theorem Task.turn_files (cfg : Config) (bootId : String) (uid : Nat) (st : St)
    (draining : Bool) (i : Input) (T : Task) :
    Files st (T.turn cfg bootId uid st draining i).st (T.turn cfg bootId uid st draining i).fx :=
  (T.turn_does cfg bootId uid st draining i).files

theorem Call.turn_files (st : St) (draining : Bool) (c : Call) :
    Files st (c.turn st draining).st (c.turn st draining).fx :=
  (c.turn_does st draining).files

/-- `start` files what it ends, on top of what it read from `last.json`. -/
theorem Disk.start_files (d : Disk) (bootId : String) (now : Nat) :
    Files d.boot (d.start bootId now).1 (d.start bootId now).2 := by
  have htake : books (if d.takeover then [Effect.takeTakeover] else []) = [] := by
    cases d.takeover <;> rfl
  rw [start]
  split
  · exact .refl _ htake
  · rename_i p hp
    dsimp only
    generalize (if d.takeover = true then p.cancel .takeover else (p.resume bootId now).1) = t
    obtain ⟨hr, hl, hfx⟩ := (d.boot.setActive t).persist_books true
    refine .before hr hl ?_ (St.finish_files _)
    rw [books_append, htake, hfx]
    rfl

end Datad
