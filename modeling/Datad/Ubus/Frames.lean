/-
  Datad/Ubus/Frames.lean
  ======================
  **Frames on the socket** (`rust/src/ubus/blob.rs`): a header of 8 bytes and one blob
  around the attributes of the message.

  The writer pads the outer blob to a multiple of four bytes, but the reader takes only
  its raw length off the stream.  The two stay in step because every attribute inside is
  padded, so that the bodies the client builds need no padding of their own
  (`length_build`).  On this rests the round trip of a whole stream (`readFrames_encode`).
-/
import Datad.Ubus.BlobRoundTrip

namespace Datad

namespace Ubus

open Bytes

/-! ### Attributes of a message -/

namespace attr

def STATUS : Nat := 1
def OBJPATH : Nat := 2
def OBJID : Nat := 3
def METHOD : Nat := 4
def DATA : Nat := 7
def MAX : Nat := 14

end attr

def putU32 (out : List UInt8) (id : Nat) (v : UInt32) : Option (List UInt8) :=
  putAttr out id false (beBytes 4 v.toNat)

def putString (out : List UInt8) (id : Nat) (s : String) : Option (List UInt8) :=
  putAttr out id false (utf8 s ++ [0])

/-- One slot for each id below `MAX`; a later attribute replaces an earlier one. -/
def fillSlots (out : List (Option Attr)) (as : List Attr) : List (Option Attr) :=
  as.foldl (fun out a => out.set a.id (some a)) out

def msgAttrs (children : List UInt8) : Except String (List (Option Attr)) :=
  match parseAttrs children with
  | .error e => .error e
  | .ok as => .ok (fillSlots (List.replicate attr.MAX none) as)

/-! ### Frames -/

namespace Blob

def UBUS_MSGHDR_LEN : Nat := 8
def UBUS_MAX_MSGLEN : Nat := 1048576

structure MsgHdr where
  version : UInt8
  msgType : UInt8
  seq : UInt16
  peer : UInt32
deriving DecidableEq, Repr

structure Frame where
  hdr : MsgHdr
  body : List UInt8
deriving DecidableEq, Repr

/-- The header on the wire. -/
def hdrBytes (hdr : MsgHdr) : List UInt8 :=
  [hdr.version, hdr.msgType] ++ beBytes 2 hdr.seq.toNat ++ beBytes 4 hdr.peer.toNat

def encodeFrame (hdr : MsgHdr) (body : List UInt8) : Option (List UInt8) :=
  putAttr (hdrBytes hdr) 0 false body

/-- Header and raw length of the outer blob. -/
def decodeHead (head : List UInt8) : Except String (MsgHdr × Nat) :=
  let hdr : MsgHdr :=
    { version := head.getD 0 0
      msgType := head.getD 1 0
      seq := UInt16.ofNat (ofBe ((head.drop 2).take 2))
      peer := UInt32.ofNat (ofBe ((head.drop 4).take 4)) }
  let idLen := ofBe ((head.drop UBUS_MSGHDR_LEN).take BLOB_HDR_LEN)
  let rawLen := idLen % (BLOB_ATTR_LEN_MASK + 1)
  if rawLen < BLOB_HDR_LEN then .error "ubus message blob shorter than its header"
  else if rawLen > UBUS_MAX_MSGLEN then .error s!"ubus message too large ({rawLen} bytes)"
  else .ok (hdr, rawLen)

inductive ReadError where
  | io
  | protocol (message : String)
deriving DecidableEq, Repr

/-- `read_exact`: `n` bytes off the stream, or an error at its end. -/
def readExact (n : Nat) (stream : List UInt8) : Except ReadError (List UInt8 × List UInt8) :=
  if n ≤ stream.length then .ok (stream.take n, stream.drop n) else .error .io

/-- A frame, and what is left of the stream. -/
def readFrame (stream : List UInt8) : Except ReadError (Frame × List UInt8) :=
  match readExact (UBUS_MSGHDR_LEN + BLOB_HDR_LEN) stream with
  | .error e => .error e
  | .ok (head, rest) =>
      match decodeHead head with
      | .error e => .error (.protocol e)
      | .ok (hdr, rawLen) =>
          match readExact (rawLen - BLOB_HDR_LEN) rest with
          | .error e => .error e
          | .ok (body, rest) => .ok (⟨hdr, body⟩, rest)

/-- `n` frames, one after another. -/
def readFrames : Nat → List UInt8 → Except ReadError (List Frame × List UInt8)
  | 0, stream => .ok ([], stream)
  | n + 1, stream =>
      match readFrame stream with
      | .error e => .error e
      | .ok (f, rest) =>
          match readFrames n rest with
          | .error e => .error e
          | .ok (fs, rest) => .ok (f :: fs, rest)

/-! ### Bodies -/

/-- A call that appends one attribute. -/
inductive Put where
  | attr (id : Nat) (extended : Bool) (payload : List UInt8)
  | u32 (id : Nat) (v : UInt32)
  | string (id : Nat) (s : String)

def Put.run (out : List UInt8) : Put → Option (List UInt8)
  | attr id extended payload => putAttr out id extended payload
  | u32 id v => putU32 out id v
  | string id s => putString out id s

/-- A body from such calls. -/
def build : List UInt8 → List Put → Option (List UInt8)
  | out, [] => some out
  | out, p :: ps => (p.run out).bind fun out => build out ps

/-- The body of a `lookup`. -/
def lookupBody (object : String) : Option (List UInt8) := putString [] attr.OBJPATH object

/-- The body of an `invoke`. -/
def invokeBody (id : UInt32) (method : String) (data : List UInt8) : Option (List UInt8) :=
  (putU32 [] attr.OBJID id).bind fun body =>
    (putString body attr.METHOD method).bind fun body => putAttr body attr.DATA false data

theorem lookupBody_eq (object : String) :
    lookupBody object = build [] [.string attr.OBJPATH object] := by
  simp [lookupBody, build, Put.run]

theorem invokeBody_eq (id : UInt32) (method : String) (data : List UInt8) :
    invokeBody id method data =
      build [] [.u32 attr.OBJID id, .string attr.METHOD method, .attr attr.DATA false data] := by
  simp [invokeBody, build, Put.run]

/-- The attribute a call appends. -/
def Put.toAttr : Put → Attr
  | attr id extended payload => ⟨id, extended, payload⟩
  | u32 id v => ⟨id, false, beBytes 4 v.toNat⟩
  | string id s => ⟨id, false, utf8 s ++ [0]⟩

theorem Put.run_eq (p : Put) (out : List UInt8) :
    p.run out = putAttr out p.toAttr.id p.toAttr.extended p.toAttr.data := by
  cases p <;> rfl

/-- The encoder compares lengths in 32 bits; below the limit for messages that is no
    difference. -/
theorem fits_of_run {p : Put} {out out' : List UInt8} (h : p.run out = some out')
    (hlen : out'.length ≤ UBUS_MAX_MSGLEN) : Fits p.toAttr := by
  rw [Put.run_eq, putAttr] at h
  dsimp only at h
  split at h
  · rename_i hok
    have hout := Option.some.inj h
    have hshort : BLOB_HDR_LEN + p.toAttr.data.length ≤ out'.length := by
      rw [← hout]
      simp only [List.length_append, length_beBytes, BLOB_HDR_LEN]
      omega
    refine ⟨hok.2, (hshort.trans hlen).trans ?_⟩
    decide
  · cases h

/-- What a body consists of. -/
theorem build_eq {ps : List Put} {out body : List UInt8} (h : build out ps = some body)
    (hlen : body.length ≤ UBUS_MAX_MSGLEN) :
    body = out ++ (ps.map Put.toAttr).flatMap attrBytes ∧ ∀ p ∈ ps, Fits p.toAttr := by
  induction ps generalizing out with
  | nil =>
    rw [build, Option.some.injEq] at h
    simp [h]
  | cons p ps ih =>
    rw [build, Option.bind_eq_some_iff] at h
    obtain ⟨mid, hrun, hrest⟩ := h
    obtain ⟨hbody, hfits⟩ := ih hrest
    have hmid : mid.length ≤ UBUS_MAX_MSGLEN := by
      rw [hbody, List.length_append] at hlen
      omega
    have hfit := fits_of_run hrun hmid
    rw [Put.run_eq, putAttr_eq hfit, Option.some.injEq] at hrun
    refine ⟨?_, ?_⟩
    · rw [hbody, ← hrun, List.map_cons, List.flatMap_cons, List.append_assoc]
    · intro q hq
      rcases List.mem_cons.mp hq with rfl | hq
      · exact hfit
      · exact hfits q hq

theorem parseAttrs_flatMap {as : List Attr} (h : ∀ a ∈ as, Fits a) :
    parseAttrs (as.flatMap attrBytes) = .ok as := by
  induction as with
  | nil => exact parseAttrs_nil
  | cons a as ih =>
    rw [List.flatMap_cons]
    apply parseAttrs_append (h a List.mem_cons_self)
    exact ih fun b hb => h b (List.mem_cons_of_mem _ hb)

theorem dvd_align (n : Nat) : 4 ∣ align n := Nat.dvd_mul_left _ _

/-- Every attribute is padded, and so is what they make up together. -/
theorem dvd_length_flatMap (as : List Attr) : 4 ∣ (as.flatMap attrBytes).length := by
  induction as with
  | nil => simp
  | cons a as ih =>
    rw [List.flatMap_cons, List.length_append, length_attrBytes]
    exact Nat.dvd_add (dvd_align _) ih

/-- **A body the client builds needs no padding.** -/
theorem length_build {ps : List Put} {body : List UInt8} (h : build [] ps = some body)
    (hlen : body.length ≤ UBUS_MAX_MSGLEN) : 4 ∣ body.length := by
  rw [(build_eq h hlen).1, List.nil_append]
  exact dvd_length_flatMap _

/-! ### Slots -/

theorem length_fillSlots (as : List Attr) (out : List (Option Attr)) :
    (fillSlots out as).length = out.length := by
  induction as generalizing out with
  | nil => rfl
  | cons a as ih =>
    have hrest := ih (out.set a.id (some a))
    rwa [List.length_set] at hrest

/-- The last attribute with an id is the one in its slot. -/
theorem getElem?_fillSlots (as : List Attr) (out : List (Option Attr)) {id : Nat}
    (hid : id < out.length) :
    (fillSlots out as)[id]? =
      some ((as.reverse.find? fun a => a.id == id).or (out[id]?.join)) := by
  induction as generalizing out with
  | nil => simp [fillSlots, hid]
  | cons a as ih =>
    have hnext : id < (out.set a.id (some a)).length := by rwa [List.length_set]
    have hstep : fillSlots out (a :: as) = fillSlots (out.set a.id (some a)) as := rfl
    rw [hstep, ih _ hnext, List.reverse_cons, List.find?_append, Option.or_assoc]
    congr 2
    by_cases h : a.id = id
    · simp [h, hid]
    · simp [h, List.getElem?_set_ne h]

/-! ### The stream -/

/-- A message of the client: its body is built by the calls, and short enough. -/
structure Message where
  hdr : MsgHdr
  puts : List Put
  body : List UInt8
  built : build [] puts = some body
  short : BLOB_HDR_LEN + body.length ≤ UBUS_MAX_MSGLEN

namespace Message

variable (m : Message)

def frame : Frame := ⟨m.hdr, m.body⟩

def bytes : Option (List UInt8) := encodeFrame m.hdr m.body

theorem length_body : m.body.length ≤ UBUS_MAX_MSGLEN :=
  (Nat.le_add_left _ _).trans m.short

/-- The outer blob. -/
def outer : Attr := ⟨0, false, m.body⟩

theorem fits_outer : Fits m.outer := by
  refine ⟨Nat.zero_le _, m.short.trans ?_⟩
  decide

/-- The outer blob gets no padding. -/
theorem attrBytes_outer : attrBytes m.outer = beBytes 4 (headerOf m.outer) ++ m.body := by
  have hdvd := length_build m.built m.length_body
  have hpad : align (BLOB_HDR_LEN + m.body.length) - (BLOB_HDR_LEN + m.body.length) = 0 := by
    simp only [align, BLOB_ATTR_ALIGN, BLOB_HDR_LEN]
    omega
  have hdata : m.outer.data = m.body := rfl
  simp only [attrBytes, hdata, hpad, List.replicate_zero, List.append_nil]

theorem bytes_eq :
    m.bytes = some (hdrBytes m.hdr ++ beBytes 4 (headerOf m.outer) ++ m.body) := by
  have hput := putAttr_eq m.fits_outer (hdrBytes m.hdr)
  rw [attrBytes_outer, ← List.append_assoc] at hput
  exact hput

theorem decodeHead_eq :
    decodeHead (hdrBytes m.hdr ++ beBytes 4 (headerOf m.outer)) =
      .ok (m.hdr, BLOB_HDR_LEN + m.body.length) := by
  have hlen : (hdrBytes m.hdr).length = UBUS_MSGHDR_LEN := by
    simp [hdrBytes, UBUS_MSGHDR_LEN]
  have hraw : ofBe (((hdrBytes m.hdr ++ beBytes 4 (headerOf m.outer)).drop UBUS_MSGHDR_LEN).take
      BLOB_HDR_LEN) % (BLOB_ATTR_LEN_MASK + 1) = BLOB_HDR_LEN + m.body.length := by
    rw [List.drop_left' hlen, List.take_of_length_le (by simp [BLOB_HDR_LEN]), ofBe_beBytes,
      Nat.mod_eq_of_lt (headerOf_lt m.fits_outer)]
    exact headerOf_length m.fits_outer
  have hseq : UInt16.ofNat (ofBe (((hdrBytes m.hdr ++ beBytes 4 (headerOf m.outer)).drop 2).take
      2)) = m.hdr.seq := by
    have hcut : ((hdrBytes m.hdr ++ beBytes 4 (headerOf m.outer)).drop 2).take 2 =
        beBytes 2 m.hdr.seq.toNat := by simp [hdrBytes]
    rw [hcut, ofBe_beBytes, Nat.mod_eq_of_lt (by simpa using m.hdr.seq.toNat_lt),
      UInt16.ofNat_toNat]
  have hpeer : UInt32.ofNat (ofBe (((hdrBytes m.hdr ++ beBytes 4 (headerOf m.outer)).drop 4).take
      4)) = m.hdr.peer := by
    have hcut : ((hdrBytes m.hdr ++ beBytes 4 (headerOf m.outer)).drop 4).take 4 =
        beBytes 4 m.hdr.peer.toNat := by simp [hdrBytes]
    rw [hcut, ofBe_beBytes, Nat.mod_eq_of_lt (by simpa using m.hdr.peer.toNat_lt),
      UInt32.ofNat_toNat]
  rw [decodeHead]
  simp only [hraw, hseq, hpeer]
  rw [if_neg (by omega), if_neg (by simpa using m.short)]
  rfl

end Message

theorem readExact_append {a : List UInt8} {n : Nat} (h : a.length = n) (rest : List UInt8) :
    readExact n (a ++ rest) = .ok (a, rest) := by
  simp [readExact, ← h]

/-- A frame is read back, and the stream stands at the next one. -/
theorem readFrame_append {m : Message} {bytes : List UInt8} (h : m.bytes = some bytes)
    (rest : List UInt8) : readFrame (bytes ++ rest) = .ok (m.frame, rest) := by
  rw [m.bytes_eq, Option.some.injEq] at h
  rw [← h, readFrame, List.append_assoc, readExact_append (by simp [hdrBytes, UBUS_MSGHDR_LEN,
    BLOB_HDR_LEN])]
  simp only [m.decodeHead_eq]
  rw [Nat.add_sub_cancel_left, readExact_append rfl]
  rfl

/-- The bytes of several messages. -/
def encodeAll : List Message → Option (List UInt8)
  | [] => some []
  | m :: ms => m.bytes.bind fun bytes => (encodeAll ms).map (bytes ++ ·)

theorem readFrames_append (ms : List Message) (rest : List UInt8) :
    ∃ stream, encodeAll ms = some stream ∧
      readFrames ms.length (stream ++ rest) = .ok (ms.map Message.frame, rest) := by
  induction ms with
  | nil => exact ⟨[], rfl, rfl⟩
  | cons m ms ih =>
    obtain ⟨stream, hstream, hread⟩ := ih
    refine ⟨hdrBytes m.hdr ++ beBytes 4 (headerOf m.outer) ++ m.body ++ stream, ?_, ?_⟩
    · rw [encodeAll, m.bytes_eq, Option.bind_some, hstream, Option.map_some]
    · rw [List.length_cons, readFrames, List.append_assoc, readFrame_append m.bytes_eq]
      simp only [hread, List.map_cons]

/-- **Frame stream.**  The frames of any messages are written, and read back one by one
    as they were, with no byte left over.  In the slots of each body stands, for every id
    that has one, the last attribute put with it. -/
theorem readFrames_encode (ms : List Message) :
    (∃ stream, encodeAll ms = some stream ∧
      readFrames ms.length stream = .ok (ms.map Message.frame, [])) ∧
    ∀ m ∈ ms, ∃ slots, msgAttrs m.body = .ok slots ∧ slots.length = attr.MAX ∧
      ∀ id < attr.MAX, slots[id]? =
        some ((m.puts.map Put.toAttr).reverse.find? fun a => a.id == id) := by
  refine ⟨?_, ?_⟩
  · obtain ⟨stream, hstream, hread⟩ := readFrames_append ms []
    rw [List.append_nil] at hread
    exact ⟨stream, hstream, hread⟩
  · intro m _
    obtain ⟨hbody, hfits⟩ := build_eq m.built m.length_body
    have hparse : parseAttrs m.body = .ok (m.puts.map Put.toAttr) := by
      rw [hbody, List.nil_append]
      apply parseAttrs_flatMap
      intro a ha
      obtain ⟨p, hp, rfl⟩ := List.mem_map.mp ha
      exact hfits p hp
    refine ⟨fillSlots (List.replicate attr.MAX none) (m.puts.map Put.toAttr), ?_, ?_, ?_⟩
    · rw [msgAttrs, hparse]
    · rw [length_fillSlots, List.length_replicate]
    · intro id hid
      rw [getElem?_fillSlots _ _ (by simpa using hid)]
      simp [hid]

/-- A lookup of `system`, and an invocation of it that says its method twice. -/
def lookupSystem : Message :=
  ⟨⟨0, 4, 1, 0⟩, [.string attr.OBJPATH "system"],
    [2, 0, 0, 11, 115, 121, 115, 116, 101, 109, 0, 0], by decide +kernel, by decide⟩

def invokeSystem : Message :=
  ⟨⟨0, 5, 65535, 0x12345678⟩,
    [.u32 attr.OBJID 7, .string attr.METHOD "é", .string attr.METHOD "id"],
    [3, 0, 0, 8, 0, 0, 0, 7, 4, 0, 0, 7, 195, 169, 0, 0, 4, 0, 0, 7, 105, 100, 0, 0],
    by decide +kernel, by decide⟩

theorem readFrames_encode_calls :
    (∃ stream, encodeAll [lookupSystem, invokeSystem] = some stream ∧
      readFrames 2 stream = .ok ([lookupSystem.frame, invokeSystem.frame], [])) ∧
    ∃ slots, msgAttrs invokeSystem.body = .ok slots ∧
      slots[attr.METHOD]? = some (some ⟨attr.METHOD, false, [105, 100, 0]⟩) := by
  obtain ⟨hstream, hslots⟩ := readFrames_encode [lookupSystem, invokeSystem]
  obtain ⟨slots, hok, -, hslot⟩ := hslots invokeSystem (by simp)
  refine ⟨hstream, slots, hok, (hslot attr.METHOD (by decide)).trans ?_⟩
  decide +kernel

end Blob

end Ubus

end Datad
