/-
  Datad/Ops/Journal.lean
  ======================
  **The journal** (`rust/src/ops/record.rs`): one thread appends lines to
  `journal.jsonl`, and `list` reads them back, newest first.

  A file is the list of the writes that made it, of which only the bytes can be read.  A
  write that fails, or that the end of the process cuts off, leaves a part of its line.
  The writer opens the file for appending and goes on, without a look at how it ends; so
  the next line is glued to what is left, and the two are read as one that is no JSON
  text, or no text at all.  When a line is lost in this way, and only then, the list is
  not what was written (`list_whole_iff`).

  serde_json is a parameter: what it writes, and what of it the proofs rely on, is
  `SerdeJson.Lawful`.
-/
import Datad.Lib.Brackets
import Datad.Lib.ByteLines
import Datad.Lib.Transition
import Datad.Ubus.BlobRoundTrip

namespace Datad

namespace Journal

open BufRead Bytes Transition

/-! ### The text of a line -/

structure SerdeJson where
  toVec : Value → List UInt8
  fromStr : String → Option Value

/-- What JSON and serde_json say of texts. -/
structure SerdeJson.Lawful (json : SerdeJson) : Prop where
  /-- What is written is UTF-8, with control characters escaped. -/
  text : ∀ v, IsUtf8 (json.toVec v)
  lf : ∀ v, LF ∉ json.toVec v
  cr : ∀ v, CR ∉ json.toVec v
  /-- An object begins with a brace. -/
  brace : ∀ m, ∃ rest, json.toVec (.obj m) = 123 :: rest
  /-- It is read back, unless it is nested deeper than the reader goes. -/
  read_back : ∀ m, Ubus.nesting (.obj m) ≤ 127 →
    ∃ s v, json.toVec (.obj m) = utf8 s ∧ json.fromStr s = some v
  /-- What is read is one value and nothing more. -/
  balanced : ∀ s v rest, json.fromStr s = some v → utf8 s = 123 :: rest →
    Brackets.scan .start (utf8 s) = .done

/-- The value a line is read as. -/
def SerdeJson.read (json : SerdeJson) (line : List UInt8) : Option Value :=
  (fromUtf8 line).bind json.fromStr

/-! ### Files -/

/-- What a write leaves in the file: a line with its newline, or the first bytes of it. -/
inductive Piece where
  | full (line : List UInt8)
  | torn (line : List UInt8) (n : Nat)
deriving DecidableEq, Repr

namespace Piece

def line : Piece → List UInt8
  | full b => b
  | torn b _ => b

def bytes : Piece → List UInt8
  | full b => b ++ [LF]
  | torn b n => (b ++ [LF]).take n

def isTorn : Piece → Bool
  | full _ => false
  | torn _ _ => true

end Piece

def content (f : List Piece) : List UInt8 := f.flatMap Piece.bytes

structure Dir where
  journal : Option (List Piece) := none
  old : Option (List Piece) := none

/-! ### Reading -/

section Read

variable (json : SerdeJson)

/-- Up to the first line that cannot be read. -/
def mapWhile {α : Type} : List (Option α) → List α
  | some a :: l => a :: mapWhile l
  | _ => []

/-- The lines of a file that are JSON. -/
def readFile (bytes : List UInt8) : List Value := (mapWhile (lines bytes)).filterMap json.fromStr

def collect (limit : Nat) : List (Option (List Piece)) → List Value → List Value
  | [], out => out
  | none :: files, out => collect limit files out
  | some f :: files, out =>
      let out := out ++ (readFile json (content f)).reverse
      if limit ≤ out.length then out else collect limit files out

/-- `Record::list`. -/
def list (dir : Dir) (limit : Nat) : List Value :=
  (collect json limit [dir.journal, dir.old] []).take limit

end Read

/-! ### Writing -/

/-- The writer between two messages.  How many writes were torn is counted on the side. -/
structure Writer where
  dir : Dir := {}
  size : Nat := 0
  opened : Bool := false
  tears : Nat := 0

/-- A line, with what comes of it; or a restart, perhaps in the middle of a line. -/
inductive Event where
  | unopened (line : List UInt8)
  | failed (line : List UInt8) (n : Nat)
  | written (line : List UInt8) (renamed : Bool)
  | crashed (line : List UInt8) (n : Nat)
  | restart

def Event.line? : Event → Option (List UInt8)
  | unopened b => some b
  | failed b _ => some b
  | written b _ => some b
  | crashed b _ => some b
  | restart => none

def append (f : Option (List Piece)) (p : Piece) : Option (List Piece) := some (f.getD [] ++ [p])

/-- The length of the file, as its metadata has it. -/
def Dir.size (dir : Dir) : Nat := (content (dir.journal.getD [])).length

def Dir.append (dir : Dir) (p : Piece) : Dir := { dir with journal := Journal.append dir.journal p }

/-- `rename` over the older file. -/
def Dir.roll (dir : Dir) : Dir := { journal := none, old := dir.journal }

/-- One message of the writer. -/
def next (max : Nat) (w : Writer) : Event → Option Writer
  | .unopened _ => if w.opened then none else some w
  | .failed b n =>
      some { w with dir := w.dir.append (.torn b n), opened := false, tears := w.tears + 1 }
  | .written b renamed =>
      let dir := w.dir.append (.full b)
      let size := w.size + (b.length + 1)
      if max ≤ size then
        some { w with dir := if renamed then dir.roll else dir, size := 0, opened := false }
      else some { w with dir := dir, size := size, opened := true }
  | .crashed b n =>
      let dir := w.dir.append (.torn b n)
      some { dir := dir, size := dir.size, opened := false, tears := w.tears + 1 }
  | .restart => some { w with size := w.dir.size, opened := false }

/-! ### What the list should be -/

/-- The lines of a file as values; the one that was torn may be there or not. -/
def entries (json : SerdeJson) (extra : Option Value) (f : List Piece) : List Value :=
  f.filterMap fun p =>
    match p with
    | .full b => json.read b
    | .torn _ _ => extra

def wholeFiles (json : SerdeJson) (extra : Option Value) (dir : Dir) : List Value :=
  (entries json extra (dir.journal.getD [])).reverse ++
    (entries json extra (dir.old.getD [])).reverse

/-- With a limit that is large enough, the list has every line that was written. -/
def Whole (json : SerdeJson) (dir : Dir) : Prop :=
  ∃ extra n, ∀ limit, n ≤ limit → list json dir limit = wholeFiles json extra dir

/-- Part of a line, without its newline, is not the last in the file. -/
def Glued (f : List Piece) : Prop :=
  ∃ before b n after, f = before ++ .torn b n :: after ∧ 0 < n ∧ n ≤ b.length ∧ after ≠ []

/-! ### Reading what was written -/

/-- What the writer is handed: the text of an object. -/
def Handed (json : SerdeJson) (line : List UInt8) : Prop :=
  ∃ m, line = json.toVec (.obj m) ∧ Ubus.nesting (.obj m) ≤ 127

section Lines

variable {json : SerdeJson} {b u rest : List UInt8}

theorem Handed.lf (h : Handed json b) (hjson : json.Lawful) : LF ∉ b := by
  obtain ⟨m, rfl, -⟩ := h
  exact hjson.lf _

theorem Handed.cr (h : Handed json b) (hjson : json.Lawful) : CR ∉ b := by
  obtain ⟨m, rfl, -⟩ := h
  exact hjson.cr _

/-- A line is read as a value. -/
theorem Handed.read (h : Handed json b) (hjson : json.Lawful) : ∃ v, json.read b = some v := by
  obtain ⟨m, rfl, hdeep⟩ := h
  obtain ⟨s, v, hs, hv⟩ := hjson.read_back m hdeep
  refine ⟨v, ?_⟩
  rw [SerdeJson.read, fromUtf8_eq_some.mpr hs, Option.bind_some, hv]

/-- It is one text from its first brace to its last. -/
theorem Handed.scan (h : Handed json b) (hjson : json.Lawful) :
    ∃ bs, b = 123 :: bs ∧ Brackets.scan .start (123 :: bs) = .done := by
  obtain ⟨m, rfl, hdeep⟩ := h
  obtain ⟨s, v, hs, hv⟩ := hjson.read_back m hdeep
  obtain ⟨bs, hbs⟩ := hjson.brace m
  refine ⟨bs, hbs, ?_⟩
  have hscan := hjson.balanced s v bs hv (hs.symm.trans hbs)
  rwa [← hs, hbs] at hscan

theorem readFile_nil : readFile json [] = [] := rfl

theorem readFile_line (hlf : LF ∉ u) (hcr : CR ∉ u) {v : Value} (h : json.read u = some v) :
    readFile json (u ++ LF :: rest) = v :: readFile json rest := by
  obtain ⟨s, hs, hv⟩ := Option.bind_eq_some_iff.mp h
  simp [readFile, lines_line hlf hcr, hs, mapWhile, hv]

/-- A line that is not read adds nothing, and may hide the rest. -/
theorem readFile_unread (hlf : LF ∉ u) (hcr : CR ∉ u) (h : json.read u = none) :
    (readFile json (u ++ LF :: rest)).length ≤ (readFile json rest).length := by
  cases hs : fromUtf8 u with
  | none => simp [readFile, lines_line hlf hcr, hs, mapWhile]
  | some s =>
    have hnone : json.fromStr s = none := by simpa [SerdeJson.read, hs] using h
    simp [readFile, lines_line hlf hcr, hs, mapWhile, hnone]

theorem readFile_last (hne : u ≠ []) (hlf : LF ∉ u) :
    readFile json u = (json.read u).toList := by
  cases hs : fromUtf8 u with
  | none => simp [readFile, lines_last hne hlf, hs, mapWhile, SerdeJson.read]
  | some s =>
    cases hv : json.fromStr s <;>
      simp [readFile, lines_last hne hlf, hs, mapWhile, SerdeJson.read, hv]

/-- **Two lines in one** are not read: the first has its beginning only, or nothing but
    its newline is missing. -/
theorem read_glued (hjson : json.Lawful) {b' : List UInt8} (hb : Handed json b)
    (hb' : Handed json b') {n : Nat} (hn : 0 < n) : json.read (b.take n ++ b') = none := by
  obtain ⟨bs, rfl, -⟩ := hb.scan hjson
  obtain ⟨bs', rfl, hscan⟩ := hb'.scan hjson
  obtain ⟨n, rfl⟩ : ∃ k, n = k + 1 := ⟨n - 1, by omega⟩
  rw [Option.eq_none_iff_forall_ne_some]
  intro v hv
  obtain ⟨s, hs, hv⟩ := Option.bind_eq_some_iff.mp hv
  rw [fromUtf8_eq_some] at hs
  have hdone := hjson.balanced s v (bs.take n ++ 123 :: bs') hv hs.symm
  rw [← hs] at hdone
  exact Brackets.scan_append_ne_done rfl hscan hdone

end Lines

/-! ### Whole files -/

section Files

variable {json : SerdeJson} {f : List Piece}

/-- All that was handed to the writer is fit for it. -/
def AllHanded (json : SerdeJson) (f : List Piece) : Prop := ∀ p ∈ f, Handed json p.line

theorem readFile_full (hjson : json.Lawful) {b : List UInt8} (hb : Handed json b)
    (f : List Piece) (extra : Option Value) :
    ∃ v, readFile json (content (.full b :: f)) = v :: readFile json (content f) ∧
      entries json extra (.full b :: f) = v :: entries json extra f := by
  obtain ⟨v, hv⟩ := hb.read hjson
  refine ⟨v, ?_, by simp [entries, hv]⟩
  have hcontent : content (.full b :: f) = b ++ LF :: content f := by
    simp [content, Piece.bytes]
  rw [hcontent]
  exact readFile_line (hb.lf hjson) (hb.cr hjson) hv

/-- A file of whole lines is read as it was written. -/
theorem readFile_whole (hjson : json.Lawful) (hf : AllHanded json f)
    (htorn : f.countP Piece.isTorn = 0) (extra : Option Value) :
    readFile json (content f) = entries json extra f := by
  induction f with
  | nil => rfl
  | cons p f ih =>
    have hrest : AllHanded json f := fun q hq => hf q (List.mem_cons_of_mem _ hq)
    cases p with
    | torn b n => simp [Piece.isTorn] at htorn
    | full b =>
      have hb : Handed json b := hf _ List.mem_cons_self
      obtain ⟨v, hread, hentries⟩ := readFile_full hjson hb f extra
      rw [hread, hentries, ih hrest (by simpa [Piece.isTorn] using htorn)]

theorem Glued.of_cons_full {b : List UInt8} (h : Glued (.full b :: f)) : Glued f := by
  obtain ⟨before, c, n, after, heq, hn⟩ := h
  cases before with
  | nil => simp at heq
  | cons p before =>
    rw [List.cons_append, List.cons.injEq] at heq
    exact ⟨before, c, n, after, heq.2, hn⟩

theorem Glued.cons {p : Piece} (h : Glued f) : Glued (p :: f) := by
  obtain ⟨before, c, n, after, heq, hn⟩ := h
  exact ⟨p :: before, c, n, after, by rw [heq, List.cons_append], hn⟩

theorem Glued.torn (h : Glued f) : 0 < f.countP Piece.isTorn := by
  obtain ⟨before, c, n, after, rfl, -⟩ := h
  simp [List.countP_append, Piece.isTorn]

theorem content_torn (b : List UInt8) (n : Nat) :
    content (.torn b n :: f) = (b ++ [LF]).take n ++ content f := by
  simp [content, Piece.bytes]

/-- What was torn and has nothing glued to it: nothing of the line, all of it, or the end
    of the file. -/
theorem readFile_torn (hjson : json.Lawful) {b : List UInt8} (hb : Handed json b) {n : Nat}
    (hf : ∀ extra, readFile json (content f) = entries json extra f)
    (hn : n = 0 ∨ b.length < n ∨ f = []) :
    ∃ extra, readFile json (content (.torn b n :: f)) = entries json extra (.torn b n :: f) := by
  by_cases hzero : n = 0
  · refine ⟨none, ?_⟩
    rw [content_torn, hzero, List.take_zero, List.nil_append, hf none]
    rfl
  by_cases hall : b.length < n
  · obtain ⟨v, hv⟩ := hb.read hjson
    refine ⟨some v, ?_⟩
    rw [content_torn, List.take_of_length_le (by simp; omega), List.append_assoc,
      List.singleton_append, readFile_line (hb.lf hjson) (hb.cr hjson) hv, hf (some v)]
    rfl
  · have hnil : f = [] := (hn.resolve_left hzero).resolve_left hall
    have hne : b.take n ≠ [] := by
      obtain ⟨bs, rfl, -⟩ := hb.scan hjson
      simp [hzero]
    refine ⟨json.read (b.take n), ?_⟩
    rw [content_torn, hnil, List.take_append_of_le_length (not_lt.mp hall)]
    simp only [content, List.flatMap_nil, List.append_nil]
    rw [readFile_last hne fun h => hb.lf hjson (List.mem_of_mem_take h)]
    cases hread : json.read (b.take n) <;> simp [entries]

/-- A line after what was torn is lost, whatever else is. -/
theorem readFile_torn_full (hjson : json.Lawful) {b b' : List UInt8} (hb : Handed json b)
    (hb' : Handed json b') {n : Nat} (hpos : 0 < n) (hle : n ≤ b.length) :
    (readFile json (content (.torn b n :: .full b' :: f))).length ≤
      (readFile json (content f)).length := by
  have hcontent : content (.torn b n :: .full b' :: f) = (b.take n ++ b') ++ LF :: content f := by
    simp [content, Piece.bytes, List.take_append_of_le_length hle]
  rw [hcontent]
  apply readFile_unread
  · rw [List.mem_append, not_or]
    exact ⟨fun h => hb.lf hjson (List.mem_of_mem_take h), hb'.lf hjson⟩
  · rw [List.mem_append, not_or]
    exact ⟨fun h => hb.cr hjson (List.mem_of_mem_take h), hb'.cr hjson⟩
  · exact read_glued hjson hb hb' hpos

/-- Behind a line that was torn there is no other. -/
theorem countP_torn {b : List UInt8} {n : Nat}
    (h : (Piece.torn b n :: f).countP Piece.isTorn ≤ 1) : f.countP Piece.isTorn = 0 := by
  simp only [List.countP_cons, Piece.isTorn, if_true] at h
  omega

/-- A line that was torn costs nothing but itself, as long as nothing is glued to it. -/
theorem readFile_unglued (hjson : json.Lawful) (hf : AllHanded json f)
    (htorn : f.countP Piece.isTorn ≤ 1) (hglued : ¬Glued f) :
    ∃ extra, readFile json (content f) = entries json extra f := by
  induction f with
  | nil => exact ⟨none, rfl⟩
  | cons p f ih =>
    have hrest : AllHanded json f := fun q hq => hf q (List.mem_cons_of_mem _ hq)
    cases p with
    | full b =>
      have hb : Handed json b := hf _ List.mem_cons_self
      obtain ⟨extra, hextra⟩ := ih hrest (by simpa [Piece.isTorn] using htorn) fun h =>
        hglued h.cons
      obtain ⟨v, hread, hentries⟩ := readFile_full hjson hb f extra
      exact ⟨extra, by rw [hread, hentries, hextra]⟩
    | torn b n =>
      have hb : Handed json b := hf _ List.mem_cons_self
      apply readFile_torn hjson hb (readFile_whole hjson hrest (countP_torn htorn))
      by_contra h
      push Not at h
      exact hglued ⟨[], b, n, f, rfl, Nat.pos_of_ne_zero h.1, h.2.1, h.2.2⟩

/-- A line that is glued to what was torn is lost. -/
theorem readFile_glued (hjson : json.Lawful) (hf : AllHanded json f)
    (htorn : f.countP Piece.isTorn ≤ 1) (hglued : Glued f) (extra : Option Value) :
    (readFile json (content f)).length < (entries json extra f).length := by
  induction f with
  | nil =>
    have := hglued.torn
    simp at this
  | cons p f ih =>
    have hrest : AllHanded json f := fun q hq => hf q (List.mem_cons_of_mem _ hq)
    cases p with
    | full b =>
      have hb : Handed json b := hf _ List.mem_cons_self
      have hlt := ih hrest (by simpa [Piece.isTorn] using htorn) hglued.of_cons_full
      obtain ⟨v, hread, hentries⟩ := readFile_full hjson hb f extra
      rw [hread, hentries]
      simpa using hlt
    | torn b n =>
      have hb : Handed json b := hf _ List.mem_cons_self
      have hnone := countP_torn htorn
      obtain ⟨before, b₀, n₀, after, heq, hpos, hle, hne⟩ := hglued
      cases before with
      | cons q before =>
        rw [List.cons_append, List.cons.injEq] at heq
        simp [heq.2, List.countP_append, Piece.isTorn] at hnone
      | nil =>
        rw [List.nil_append, List.cons.injEq, Piece.torn.injEq] at heq
        obtain ⟨⟨rfl, rfl⟩, rfl⟩ := heq
        rcases f with _ | ⟨b' | ⟨b', n'⟩, f⟩
        · exact absurd rfl hne
        · have hb' : Handed json b' := hrest _ List.mem_cons_self
          have hshort := readFile_torn_full (f := f) hjson hb hb' hpos hle
          have hwhole := readFile_whole hjson (fun q hq => hrest q (List.mem_cons_of_mem _ hq))
            (by simpa [Piece.isTorn] using hnone) extra
          obtain ⟨v, hv⟩ := hb'.read hjson
          have hentries : (entries json extra f).length + 1 ≤
              (entries json extra (.torn b n :: .full b' :: f)).length := by
            cases extra <;> simp [entries, hv]
          rw [hwhole] at hshort
          omega
        · simp [Piece.isTorn] at hnone

end Files

/-! ### The list -/

section List

variable {json : SerdeJson} {dir : Dir}

theorem collect_take (limit : Nat) (files : List (Option (List Piece))) (out : List Value) :
    (collect json limit files out).take limit =
      (out ++ files.flatMap fun f => (readFile json (content (f.getD []))).reverse).take limit := by
  induction files generalizing out with
  | nil => simp [collect]
  | cons f files ih =>
    cases f with
    | none =>
      rw [collect, ih]
      simp [content, readFile_nil]
    | some f =>
      rw [collect]
      simp only [List.flatMap_cons, Option.getD_some]
      rw [← List.append_assoc]
      split
      · rename_i hle
        rw [List.take_append_of_le_length hle]
      · exact ih _

/-- Stopping early is the same as cutting the whole. -/
theorem list_eq (limit : Nat) :
    list json dir limit = ((readFile json (content (dir.journal.getD []))).reverse ++
      (readFile json (content (dir.old.getD []))).reverse).take limit := by
  simp [list, collect_take]

/-- What has been written to the files. -/
structure Dir.Sound (json : SerdeJson) (dir : Dir) (tears : Nat) : Prop where
  journal : AllHanded json (dir.journal.getD [])
  old : AllHanded json (dir.old.getD [])
  torn : (dir.journal.getD []).countP Piece.isTorn + (dir.old.getD []).countP Piece.isTorn ≤ tears

theorem Dir.Sound.append {tears : Nat} (h : dir.Sound json tears) {p : Piece}
    (hp : Handed json p.line) :
    (dir.append p).Sound json (tears + if p.isTorn then 1 else 0) := by
  refine ⟨?_, h.old, ?_⟩
  · intro q hq
    simp only [Dir.append, Journal.append, Option.getD_some, List.mem_append,
      List.mem_singleton] at hq
    rcases hq with hq | rfl
    · exact h.journal q hq
    · exact hp
  · have := h.torn
    simp only [Dir.append, Journal.append, Option.getD_some, List.countP_append,
      List.countP_singleton]
    split <;> omega

theorem Dir.Sound.roll {tears : Nat} (h : dir.Sound json tears) : dir.roll.Sound json tears := by
  refine ⟨by simp [Dir.roll, AllHanded], h.journal, ?_⟩
  have := h.torn
  simp only [Dir.roll, Option.getD_none, List.countP_nil]
  omega

/-- **The list has every line that was written**, exactly if nothing is glued. -/
theorem whole_iff (hjson : json.Lawful) (h : dir.Sound json 1) :
    Whole json dir ↔ ¬Glued (dir.journal.getD []) ∧ ¬Glued (dir.old.getD []) := by
  have htorn := h.torn
  constructor
  · rintro ⟨extra, n, hn⟩
    have hlist := hn (max n ((readFile json (content (dir.journal.getD []))).length +
      (readFile json (content (dir.old.getD []))).length)) (le_max_left _ _)
    rw [list_eq, List.take_of_length_le (by simp)] at hlist
    have hlen := congrArg List.length hlist
    simp only [wholeFiles, List.length_append, List.length_reverse] at hlen
    refine ⟨fun hg => ?_, fun hg => ?_⟩
    · have hlt := readFile_glued hjson h.journal (by omega) hg extra
      have := hg.torn
      rw [readFile_whole hjson h.old (by omega) extra] at hlen
      omega
    · have hlt := readFile_glued hjson h.old (by omega) hg extra
      have := hg.torn
      rw [readFile_whole hjson h.journal (by omega) extra] at hlen
      omega
  · rintro ⟨hj, ho⟩
    have hboth : ∃ extra,
        readFile json (content (dir.journal.getD [])) = entries json extra (dir.journal.getD []) ∧
          readFile json (content (dir.old.getD [])) = entries json extra (dir.old.getD []) := by
      by_cases hzero : (dir.journal.getD []).countP Piece.isTorn = 0
      · obtain ⟨extra, hextra⟩ := readFile_unglued hjson h.old (by omega) ho
        exact ⟨extra, readFile_whole hjson h.journal hzero extra, hextra⟩
      · obtain ⟨extra, hextra⟩ := readFile_unglued hjson h.journal (by omega) hj
        exact ⟨extra, hextra, readFile_whole hjson h.old (by omega) extra⟩
    obtain ⟨extra, hjournal, hold⟩ := hboth
    refine ⟨extra, (wholeFiles json extra dir).length, fun limit hlimit => ?_⟩
    rw [list_eq, hjournal, hold]
    exact List.take_of_length_le hlimit

end List

/-! ### Runs -/

section Runs

variable {json : SerdeJson} {limit : Nat}

/-- The lines of an event are fit for the writer. -/
def Fit (json : SerdeJson) (_ : Writer) (e : Event) : Prop :=
  ∀ b, e.line? = some b → Handed json b

theorem next_sound {w w' : Writer} {e : Event} (h : w.dir.Sound json w.tears) (he : Fit json w e)
    (hs : next limit w e = some w') : w'.dir.Sound json w'.tears := by
  cases e with
  | unopened b =>
    simp only [next] at hs
    split at hs
    · cases hs
    · cases hs
      exact h
  | failed b n =>
    cases hs
    exact h.append (p := .torn b n) (he b rfl)
  | written b renamed =>
    have hfull := h.append (p := .full b) (he b rfl)
    simp only [next] at hs
    split at hs
    · cases hs
      cases renamed
      · exact hfull
      · exact hfull.roll
    · cases hs
      exact hfull
  | crashed b n =>
    cases hs
    exact h.append (p := .torn b n) (he b rfl)
  | restart =>
    cases hs
    exact h

/-- **A torn line.**  After any run in which one write was torn at most, the list has all
    lines that were written and are still in the files, newest first and each once, if
    and only if in neither file a line comes after one that was torn and has left a part
    without its newline. -/
theorem list_whole_iff (hjson : json.Lawful) {w : Writer}
    (h : Exec (next limit) (Fit json) {} w) (htears : w.tears ≤ 1) :
    Whole json w.dir ↔ ¬Glued (w.dir.journal.getD []) ∧ ¬Glued (w.dir.old.getD []) := by
  have hsound : w.dir.Sound json w.tears := by
    apply h.invariant (fun w => w.dir.Sound json w.tears) next_sound
    exact ⟨by simp [AllHanded], by simp [AllHanded], by simp⟩
  exact whole_iff hjson ⟨hsound.journal, hsound.old, hsound.torn.trans htears⟩

end Runs

/-! ### One line three times -/

/-- A line with its text, and serde_json as far as it reads and writes that and the empty
    object. -/
def sampleValue : Value := .obj [("ts", .num (.int 1))]
def sampleText : String := "\x7b\"ts\":1\x7d"
def sampleLine : List UInt8 := utf8 sampleText

def sampleJson : SerdeJson where
  toVec := fun v => if v = sampleValue then sampleLine else utf8 "\x7b\x7d"
  fromStr := fun s =>
    if s = sampleText then some sampleValue
    else if s = "\x7b\x7d" then some (.obj []) else none

theorem sampleJson_toVec {P : List UInt8 → Prop} (h₁ : P sampleLine) (h₂ : P (utf8 "\x7b\x7d"))
    (v : Value) : P (sampleJson.toVec v) := by
  show P (if v = sampleValue then sampleLine else utf8 "\x7b\x7d")
  split
  · exact h₁
  · exact h₂

theorem sampleJson_lawful : sampleJson.Lawful where
  text := sampleJson_toVec ⟨_, rfl⟩ ⟨_, rfl⟩
  lf := sampleJson_toVec (P := fun bs => LF ∉ bs) (by decide +kernel) (by decide +kernel)
  cr := sampleJson_toVec (P := fun bs => CR ∉ bs) (by decide +kernel) (by decide +kernel)
  brace := fun m => sampleJson_toVec (P := fun bs => ∃ rest, bs = 123 :: rest) ⟨_, rfl⟩ ⟨_, rfl⟩ _
  read_back := fun m _ => sampleJson_toVec
    (P := fun bs => ∃ s v, bs = utf8 s ∧ sampleJson.fromStr s = some v)
    ⟨sampleText, sampleValue, rfl, by decide +kernel⟩
    ⟨"\x7b\x7d", .obj [], rfl, by decide +kernel⟩ _
  balanced := by
    intro s v rest h _
    simp only [sampleJson] at h
    split at h
    · rename_i hs
      rw [hs]
      decide +kernel
    · split at h
      · rename_i hs
        rw [hs]
        decide +kernel
      · cases h

theorem sampleLine_handed : Handed sampleJson sampleLine :=
  ⟨[("ts", .num (.int 1))], rfl, by decide +kernel⟩

/-- A line is written, and once more up to its third byte, where the disk is full. -/
def tornWriter : Writer :=
  { dir := { journal := some [.full sampleLine, .torn sampleLine 3] }, size := 9, tears := 1 }

/-- The same with a third line, for which the disk had room again. -/
def gluedWriter : Writer :=
  { dir := { journal := some [.full sampleLine, .torn sampleLine 3, .full sampleLine] },
    size := 18, opened := true, tears := 1 }

theorem fit_sample {w : Writer} {e : Event} (h : e.line? = some sampleLine) :
    Fit sampleJson w e := by
  intro b hb
  rw [h] at hb
  exact Option.some.inj hb ▸ sampleLine_handed

theorem length_sampleLine : sampleLine.length = 8 := by decide +kernel

theorem exec_tornWriter : Exec (next 1000) (Fit sampleJson) {} tornWriter := by
  have hfirst : Exec (next 1000) (Fit sampleJson) {}
      { dir := { journal := some [.full sampleLine] }, size := 9, opened := true } := by
    apply Exec.tail (.refl _) (.written sampleLine false) (fit_sample rfl)
    simp [next, length_sampleLine, Dir.append, append]
  exact hfirst.tail (.failed sampleLine 3) (fit_sample rfl) rfl

theorem exec_gluedWriter : Exec (next 1000) (Fit sampleJson) {} gluedWriter := by
  apply Exec.tail exec_tornWriter (.written sampleLine false) (fit_sample rfl)
  simp [next, length_sampleLine, Dir.append, append, tornWriter, gluedWriter]

/-- As long as nothing comes after the torn line, the one before it is there. -/
theorem list_whole_iff_torn : Whole sampleJson tornWriter.dir := by
  apply (list_whole_iff sampleJson_lawful exec_tornWriter (by decide)).mpr
  refine ⟨?_, ?_⟩
  · rintro ⟨before, b, n, after, h, -, -, hafter⟩
    rcases before with _ | ⟨p, _ | ⟨q, before⟩⟩
    · simp [tornWriter] at h
    · simp only [tornWriter, Option.getD_some, List.cons_append, List.nil_append,
        List.cons.injEq] at h
      exact hafter h.2.2.symm
    · simp [tornWriter] at h
  · intro h
    have := h.torn
    simp [tornWriter] at this

/-- Two lines were written, one of them is lost. -/
theorem whole_false :
    ¬∀ (json : SerdeJson), json.Lawful → ∀ (limit : Nat) (w : Writer),
      Exec (next limit) (Fit json) {} w → w.tears ≤ 1 → Whole json w.dir := by
  intro h
  obtain ⟨extra, n, hn⟩ := h sampleJson sampleJson_lawful 1000 gluedWriter exec_gluedWriter
    (by decide)
  have hread : readFile sampleJson (content [.full sampleLine, .torn sampleLine 3,
      .full sampleLine]) = [sampleValue] := by decide +kernel
  have hline : sampleJson.read sampleLine = some sampleValue := by decide +kernel
  have hlist := hn (n + 3) (Nat.le_add_right _ _)
  rw [list_eq] at hlist
  have hlen := congrArg List.length hlist
  simp only [gluedWriter, Option.getD_some, Option.getD_none, hread, wholeFiles] at hlen
  cases extra <;> simp [entries, hline, content, readFile_nil] at hlen

end Journal

end Datad
