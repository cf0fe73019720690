/-
  Datad/Lib/EventStream.lean
  ==========================
  **`text/event-stream`**: messages in a stream of bytes, as a browser reads them.

  A line ends at 10, at 13, or at 13 with 10 after it.  A line is a field, its name before
  the first colon; an empty line ends the message, and one without data is none.  The reader
  takes one byte at a time and holds back what is not complete, so that of a stream that is
  cut off anywhere it has the messages before the cut and no other (`parse_front`).
-/
import Mathlib.Data.List.Basic
import Mathlib.Data.List.Infix

namespace EventStream

def LF : UInt8 := 10
def CR : UInt8 := 13
def COLON : UInt8 := 58
def SPACE : UInt8 := 32

/-- `event`, `data` and `message` in ASCII. -/
def EVENT : List UInt8 := [101, 118, 101, 110, 116]
def DATA : List UInt8 := [100, 97, 116, 97]
def MESSAGE : List UInt8 := [109, 101, 115, 115, 97, 103, 101]

structure Message where
  event : List UInt8
  data : List UInt8
deriving DecidableEq

/-! ### The reader -/

structure Reader where
  /-- The line so far. -/
  line : List UInt8 := []
  /-- The last byte was 13. -/
  afterCr : Bool := false
  event : List UInt8 := []
  data : List UInt8 := []
  /-- What has been dispatched, the first first. -/
  out : List Message := []

/-- What stands behind the colon, less one space. -/
def valueOf (line : List UInt8) : List UInt8 :=
  match line.dropWhile (· ≠ COLON) with
  | _ :: b :: value => if b = SPACE then value else b :: value
  | _ => []

namespace Reader

def dispatch (r : Reader) : Reader :=
  if r.data = [] then { r with event := [] }
  else
    { r with
      event := []
      data := []
      out := r.out ++ [⟨if r.event = [] then MESSAGE else r.event, r.data.dropLast⟩] }

/-- Fields of other names are passed over, comments among them. -/
def field (r : Reader) (name value : List UInt8) : Reader :=
  if name = EVENT then { r with event := value }
  else if name = DATA then { r with data := r.data ++ value ++ [LF] }
  else r

def endLine (r : Reader) : Reader :=
  if r.line = [] then r.dispatch
  else { r.field (r.line.takeWhile (· ≠ COLON)) (valueOf r.line) with line := [] }

def feed (r : Reader) (b : UInt8) : Reader :=
  if b = LF ∧ r.afterCr = true then { r with afterCr := false }
  else if b = LF ∨ b = CR then { r.endLine with afterCr := decide (b = CR) }
  else { r with line := r.line ++ [b], afterCr := false }

end Reader

def parse (bs : List UInt8) : List Message := (bs.foldl Reader.feed {}).out

/-! ### A stream that is cut off -/

namespace Reader

theorem out_dispatch (r : Reader) : r.out <+: r.dispatch.out := by
  unfold dispatch
  split
  · exact List.prefix_rfl
  · exact List.prefix_append _ _

theorem out_endLine (r : Reader) : r.out <+: r.endLine.out := by
  unfold endLine
  split
  · exact r.out_dispatch
  · unfold field
    split
    · exact List.prefix_rfl
    · split
      · exact List.prefix_rfl
      · exact List.prefix_rfl

theorem out_feed (r : Reader) (b : UInt8) : r.out <+: (r.feed b).out := by
  unfold feed
  split
  · exact List.prefix_rfl
  · split
    · exact r.out_endLine
    · exact List.prefix_rfl

theorem out_foldl (bs : List UInt8) (r : Reader) : r.out <+: (bs.foldl feed r).out := by
  induction bs generalizing r with
  | nil => exact List.prefix_rfl
  | cons b bs ih => exact (r.out_feed b).trans (ih (r.feed b))

end Reader

/-- **What has been read stays read.** -/
theorem parse_front {bs bs' : List UInt8} (h : bs <+: bs') : parse bs <+: parse bs' := by
  obtain ⟨rest, rfl⟩ := h
  unfold parse
  rw [List.foldl_append]
  exact Reader.out_foldl rest _

/-! ### Frames -/

/-- A message in two lines, and the empty one that ends it. -/
def frame (m : Message) : List UInt8 :=
  EVENT ++ [COLON, SPACE] ++ m.event ++ [LF] ++ (DATA ++ [COLON, SPACE] ++ m.data ++ [LF]) ++ [LF]

/-- A text within one line. -/
def OneLine (u : List UInt8) : Prop := LF ∉ u ∧ CR ∉ u

/-- A message that two lines can hold. -/
structure Message.Plain (m : Message) : Prop where
  event : OneLine m.event ∧ m.event ≠ []
  data : OneLine m.data ∧ m.data ≠ []

theorem foldl_oneLine {u : List UInt8} (hu : OneLine u) (hne : u ≠ []) (r : Reader) :
    u.foldl Reader.feed r = { r with line := r.line ++ u, afterCr := false } := by
  induction u generalizing r with
  | nil => exact absurd rfl hne
  | cons b u ih =>
    have hb : b ≠ LF ∧ b ≠ CR :=
      ⟨fun h => hu.1 (h ▸ List.mem_cons_self), fun h => hu.2 (h ▸ List.mem_cons_self)⟩
    have hfeed : r.feed b = { r with line := r.line ++ [b], afterCr := false } := by
      rw [Reader.feed, if_neg fun h => hb.1 h.1, if_neg fun h => h.elim hb.1 hb.2]
    rw [List.foldl_cons, hfeed]
    by_cases hnil : u = []
    · rw [hnil]
      rfl
    · have hu' : OneLine u :=
        ⟨fun h => hu.1 (List.mem_cons_of_mem _ h), fun h => hu.2 (List.mem_cons_of_mem _ h)⟩
      rw [ih hu' hnil]
      simp only [List.append_assoc, List.singleton_append]

theorem foldl_line {u : List UInt8} (hu : OneLine u) (hne : u ≠ []) {r : Reader}
    (hline : r.line = []) :
    (u ++ [LF]).foldl Reader.feed r =
      { r.field (u.takeWhile (· ≠ COLON)) (valueOf u) with line := [], afterCr := false } := by
  rw [List.foldl_append, foldl_oneLine hu hne, hline, List.nil_append, List.foldl_cons,
    List.foldl_nil, Reader.feed, if_neg (by simp), if_pos (Or.inl rfl), Reader.endLine,
    if_neg hne]
  unfold Reader.field
  split
  · rfl
  · split
    · rfl
    · rfl

/-- **A field in a line of its own.** -/
theorem foldl_field {name value : List UInt8} (hname : OneLine name ∧ COLON ∉ name)
    (hvalue : OneLine value) {r : Reader} (hline : r.line = []) :
    (name ++ [COLON, SPACE] ++ value ++ [LF]).foldl Reader.feed r =
      { r.field name value with line := [], afterCr := false } := by
  have hlf : LF ∉ ([COLON, SPACE] : List UInt8) := by decide
  have hcr : CR ∉ ([COLON, SPACE] : List UInt8) := by decide
  have hone : OneLine (name ++ [COLON, SPACE] ++ value) := by
    constructor
    · intro h
      rcases List.mem_append.mp h with h | h
      · exact (List.mem_append.mp h).elim hname.1.1 hlf
      · exact hvalue.1 h
    · intro h
      rcases List.mem_append.mp h with h | h
      · exact (List.mem_append.mp h).elim hname.1.2 hcr
      · exact hvalue.2 h
  have hne : name ++ [COLON, SPACE] ++ value ≠ [] := by simp
  have hkept : ∀ b ∈ name, decide (b ≠ COLON) = true := fun b hb =>
    decide_eq_true fun h => hname.2 (h ▸ hb)
  rw [foldl_line hone hne hline, valueOf, List.append_assoc,
    List.takeWhile_append_of_pos hkept, List.dropWhile_append_of_pos hkept]
  simp

/-- Between two messages. -/
def between (ms : List Message) : Reader := { out := ms }

theorem foldl_frame {m : Message} (hm : m.Plain) (ms : List Message) :
    (frame m).foldl Reader.feed (between ms) = between (ms ++ [m]) := by
  have hevent : OneLine EVENT ∧ COLON ∉ EVENT := by
    unfold OneLine
    decide
  have hdata : OneLine DATA ∧ COLON ∉ DATA := by
    unfold OneLine
    decide
  have hread : (between ms).field EVENT m.event = { between ms with event := m.event } := if_pos rfl
  rw [frame, List.foldl_append, List.foldl_append, foldl_field hevent hm.event.1 rfl, hread,
    foldl_field hdata hm.data.1 rfl]
  have hmore : ∀ r : Reader, r.field DATA m.data = { r with data := r.data ++ m.data ++ [LF] } :=
    fun r => (if_neg (by decide)).trans (if_pos rfl)
  rw [hmore, List.foldl_cons, List.foldl_nil, Reader.feed, if_neg (by simp), if_pos (Or.inl rfl),
    Reader.endLine, if_pos rfl, Reader.dispatch, if_neg (by simp)]
  simp [between, hm.event.2, LF, CR]

theorem foldl_frames {ms : List Message} (h : ∀ m ∈ ms, m.Plain) (before : List Message) :
    (ms.flatMap frame).foldl Reader.feed (between before) = between (before ++ ms) := by
  induction ms generalizing before with
  | nil =>
    rw [List.append_nil]
    rfl
  | cons m ms ih =>
    rw [List.flatMap_cons, List.foldl_append, foldl_frame (h m List.mem_cons_self),
      ih (fun m hm => h m (List.mem_cons_of_mem _ hm)), List.append_assoc]
    rfl

/-- **The messages that were written are read.** -/
theorem parse_frames {ms : List Message} (h : ∀ m ∈ ms, m.Plain) :
    parse (ms.flatMap frame) = ms := by
  have hread := foldl_frames h []
  rw [List.nil_append] at hread
  exact congrArg Reader.out hread

/-- **Of a stream that is cut off** the first messages are read, all that are there whole. -/
theorem parse_cut {ms : List Message} (h : ∀ m ∈ ms, m.Plain) {bs : List UInt8}
    (hbs : bs <+: ms.flatMap frame) : ∃ n ≤ ms.length, parse bs = ms.take n ∧
      ∀ k ≤ ms.length, (ms.take k).flatMap frame <+: bs → k ≤ n := by
  have hpre := parse_front hbs
  rw [parse_frames h] at hpre
  refine ⟨(parse bs).length, hpre.length_le, List.prefix_iff_eq_take.mp hpre, ?_⟩
  intro k hk hwhole
  have hread := (parse_front hwhole).length_le
  rw [parse_frames fun m hm => h m (List.mem_of_mem_take hm), List.length_take_of_le hk] at hread
  exact hread

end EventStream
