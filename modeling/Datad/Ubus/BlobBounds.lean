/-
  Datad/Ubus/BlobBounds.lean
  ==========================
  **The decoder of blobs stays inside its buffers** (`parse_attrs`, `msg_attrs`,
  `decode_at`, `object_at`, `array_at`).

  Here the decoder is written with its slices, indices, unwraps and additions, each of
  which would stop the program when it is out of range.  The loop over the attributes has
  a number of turns to spend, and the recursion a number of calls of `decode_at` that may
  be open at once.  On every buffer it does what the decoder of `Blob.lean` does, with a
  turn for each byte and one call more than there are levels.
-/
import Datad.Lib.Checked
import Datad.Ubus.Frames

namespace Datad

namespace Ubus

open Bytes Checked

/-- What the decoder may do: fail with a message, or stop. -/
abbrev Decoder (α : Type) := Checked String α

/-! ### Attributes -/

/-- The bits of a `usize` on the smallest of the targets. -/
def USIZE_BITS : Nat := 32

/-- `align`, with its addition. -/
def alignChecked (n : Nat) : Decoder Nat :=
  if n + BLOB_ATTR_ALIGN < 2 ^ USIZE_BITS then pure (align n) else stop

structure AttrsLoop where
  out : List Attr
  rest : List UInt8

/-- One turn of the loop of `parse_attrs`. -/
def attrsTurn (s : AttrsLoop) : Decoder (LoopStep AttrsLoop (List Attr)) :=
  if s.rest.length = 0 then pure (.done s.out)
  else if s.rest.length < BLOB_HDR_LEN then throw "truncated blob attribute header"
  else do
    let idLen := ofBe [← index s.rest 0, ← index s.rest 1, ← index s.rest 2, ← index s.rest 3]
    let rawLen := idLen % (BLOB_ATTR_LEN_MASK + 1)
    if rawLen < BLOB_HDR_LEN then throw "blob attribute shorter than its header"
    else if rawLen > s.rest.length then throw "blob attribute longer than its container"
    else do
      let a : Attr :=
        { id := idLen / 2 ^ BLOB_ATTR_ID_SHIFT % 128
          extended := decide (BLOB_ATTR_EXTENDED ≤ idLen)
          data := ← slice s.rest BLOB_HDR_LEN rawLen }
      let rest ← sliceFrom s.rest (min (← alignChecked rawLen) s.rest.length)
      pure (.next ⟨s.out ++ [a], rest⟩)

def parseAttrsChecked (turns : Nat) (buf : List UInt8) : Decoder (List Attr) :=
  loop attrsTurn turns ⟨[], buf⟩

def msgAttrsChecked (turns : Nat) (children : List UInt8) : Decoder (List (Option Attr)) := do
  let as ← parseAttrsChecked turns children
  pure (fillSlots (List.replicate attr.MAX none) as)

/-! ### Fields -/

/-- `fixed(n)?.try_into().unwrap()` -/
def fixedChecked (id n : Nat) (d : List UInt8) : Decoder (List UInt8) :=
  if d.length = n then toArray n d
  else throw s!"blobmsg type {id} has wrong length {d.length}"

def scalarChecked (ty : BlobmsgType) (d : List UInt8) : Decoder Value :=
  match ty with
  | .string => do
      let stop := (d.findIdx? (· = 0)).getD d.length
      pure (.str (fromUtf8Lossy (← slice d 0 stop)))
  | .int64 => do pure (.num (.int (Int.bmod (ofBe (← fixedChecked ty.id 8 d)) (2 ^ 64))))
  | .int32 => do pure (.num (.int (Int.bmod (ofBe (← fixedChecked ty.id 4 d)) (2 ^ 32))))
  | .int16 => do pure (.num (.int (Int.bmod (ofBe (← fixedChecked ty.id 2 d)) (2 ^ 16))))
  | .int8 => do
      let b ← index (← fixedChecked ty.id 1 d) 0
      pure (.bool (decide (b ≠ 0)))
  | .double => do
      let f := ofBe (← fixedChecked ty.id 8 d)
      pure (if isFinite f then .num (.float (UInt64.ofNat f)) else .null)
  | .unspec | .array | .table => pure .null

def objectOf (turns : Nat) (decode : Attr → Decoder (String × Value)) (buf : List UInt8) :
    Decoder (List (String × Value)) := do
  let as ← parseAttrsChecked turns buf
  as.foldlM (fun m a => do
    let (k, v) ← decode a
    pure (insertMember k v m)) []

def arrayOf (turns : Nat) (decode : Attr → Decoder (String × Value)) (buf : List UInt8) :
    Decoder (List Value) := do
  let as ← parseAttrsChecked turns buf
  as.mapM fun a => Prod.snd <$> decode a

/-- `decode_at` with `stack` calls of it that may be open at once, this one among them. -/
def decodeAtChecked (turns : Nat) : Nat → Attr → Nat → Decoder (String × Value)
  | 0, _, _ => stop
  | stack + 1, a, depth =>
      if a.extended = false then throw "blobmsg attribute without the extended bit"
      else if a.data.length < 3 then throw "truncated blobmsg header"
      else do
        let namelen := ofBe [← index a.data 0, ← index a.data 1]
        let hdrlen ← alignChecked (2 + namelen + 1)
        if hdrlen > a.data.length then throw "blobmsg name longer than attribute"
        else do
          let name := fromUtf8Lossy (← slice a.data 2 (2 + namelen))
          let d ← sliceFrom a.data hdrlen
          match BlobmsgType.ofId a.id with
          | none => throw s!"unknown blobmsg type {a.id}"
          | some .array =>
              if depth ≥ MAX_DEPTH then throw s!"blobmsg nested deeper than {MAX_DEPTH}"
              else do
                let items ← arrayOf turns (decodeAtChecked turns stack · (depth + 1)) d
                pure (name, .arr items)
          | some .table =>
              if depth ≥ MAX_DEPTH then throw s!"blobmsg nested deeper than {MAX_DEPTH}"
              else do
                let map ← objectOf turns (decodeAtChecked turns stack · (depth + 1)) d
                pure (name, .obj map)
          | some ty => do
              let v ← scalarChecked ty d
              pure (name, v)

/-- `blobmsg_object` -/
def objectChecked (turns stack : Nat) (buf : List UInt8) : Decoder (List (String × Value)) :=
  objectOf turns (decodeAtChecked turns stack · 0) buf

/-! ### The attributes stay inside their buffer -/

theorem alignChecked_eq {n : Nat} (h : n < 2 ^ 31) : alignChecked n = pure (align n) := by
  refine if_pos ?_
  simp only [BLOB_ATTR_ALIGN, USIZE_BITS]
  omega

/-- A turn takes at least the header away, whether or not the padding is there. -/
theorem length_drop_align {rest : List UInt8} {rawLen : Nat} (hrest : ¬rest.length = 0)
    (hraw : ¬rawLen < BLOB_HDR_LEN) :
    (rest.drop (min (align rawLen) rest.length)).length < rest.length := by
  have hal := le_align rawLen
  simp only [BLOB_HDR_LEN] at hraw
  rw [List.length_drop]
  omega

theorem four_bytes {rest : List UInt8} (h : ¬rest.length < BLOB_HDR_LEN) :
    ∃ b₀ b₁ b₂ b₃ tail, rest = b₀ :: b₁ :: b₂ :: b₃ :: tail := by
  match rest, h with
  | b₀ :: b₁ :: b₂ :: b₃ :: tail, _ => exact ⟨b₀, b₁, b₂, b₃, tail, rfl⟩
  | [], h | [_], h | [_, _], h | [_, _, _], h => exact absurd (by simp [BLOB_HDR_LEN]) h

theorem attrsTurn_spec (s : AttrsLoop) :
    Progress (fun _ => True) (fun s => s.rest.length) Eq
      (fun s => (s.out ++ ·) <$> parseAttrs s.rest) s.rest.length
      ((s.out ++ ·) <$> parseAttrs s.rest) (attrsTurn s) := by
  obtain ⟨out, rest⟩ := s
  by_cases hempty : rest.length = 0
  · rw [attrsTurn, if_pos hempty]
    refine .done (b := out) ?_ rfl
    rw [parseAttrs, if_pos hempty]
    exact congrArg Except.ok (List.append_nil out)
  by_cases hshort : rest.length < BLOB_HDR_LEN
  · rw [attrsTurn, if_neg hempty, if_pos hshort]
    refine .throw ?_
    rw [parseAttrs, if_neg hempty, if_pos hshort]
    rfl
  obtain ⟨b₀, b₁, b₂, b₃, tail, rfl⟩ := four_bytes hshort
  rw [attrsTurn, if_neg hempty, if_neg hshort, index_eq rfl, index_eq rfl, index_eq rfl,
    index_eq rfl]
  simp only [pure_bind]
  generalize hrest : b₀ :: b₁ :: b₂ :: b₃ :: tail = rest at hempty hshort ⊢
  generalize hid : ofBe [b₀, b₁, b₂, b₃] = idLen
  have hparse := parseAttrs.eq_def rest
  have hidLen : ofBe (rest.take BLOB_HDR_LEN) = idLen := by
    rw [← hrest]
    exact hid
  rw [if_neg hempty, if_neg hshort] at hparse
  dsimp only at hparse
  rw [hidLen] at hparse
  by_cases hlow : idLen % (BLOB_ATTR_LEN_MASK + 1) < BLOB_HDR_LEN
  · rw [if_pos hlow]
    refine .throw ?_
    rw [hparse, if_pos hlow]
    rfl
  by_cases hlong : idLen % (BLOB_ATTR_LEN_MASK + 1) > rest.length
  · rw [if_neg hlow, if_pos hlong]
    refine .throw ?_
    rw [hparse, if_neg hlow, if_pos hlong]
    rfl
  rw [if_neg hlow, if_neg hlong, slice_eq (Nat.le_of_not_lt hlow) (Nat.le_of_not_lt hlong),
    alignChecked_eq (by simp only [BLOB_ATTR_LEN_MASK]; omega), pure_bind, pure_bind,
    sliceFrom_eq (Nat.min_le_right _ _), pure_bind]
  refine .next trivial ?_ ?_
  · exact length_drop_align hempty hlow
  · rw [hparse, if_neg hlow, if_neg hlong]
    cases parseAttrs (rest.drop _) with
    | error e => rfl
    | ok as => exact congrArg Except.ok (List.append_cons ..)

theorem parseAttrsChecked_meets {turns : Nat} {buf : List UInt8} (h : buf.length < turns) :
    Meets Eq (parseAttrsChecked turns buf) (parseAttrs buf) := by
  have hloop := Meets.loop (fun s _ _ => attrsTurn_spec s) (s := ⟨[], buf⟩) trivial h
  have hout : (([] : List Attr) ++ ·) <$> parseAttrs buf = parseAttrs buf := id_map _
  exact hout ▸ hloop

/-- The data of an attribute lie inside the buffer, behind its header. -/
def Inside (buf : List UInt8) (a : Attr) : Prop :=
  ∃ start, start + BLOB_HDR_LEN + a.data.length ≤ buf.length ∧
    a.data = (buf.drop (start + BLOB_HDR_LEN)).take a.data.length

theorem inside_of_mem {buf : List UInt8} {as : List Attr} (h : parseAttrs buf = .ok as) :
    ∀ a ∈ as, Inside buf a := by
  fun_induction parseAttrs buf generalizing as with
  | case1 => 
    cases h
    intro a ha
    cases ha
  | case2 => cases h
  | case3 => cases h
  | case4 => cases h
  | case5 => cases h
  | case6 rest hne hhdr idLen rawLen hlow hlong a out hout =>
    rename_i ih
    cases h
    intro b hb
    rcases List.mem_cons.1 hb with rfl | hb
    · have hlen : a.data.length = rawLen - BLOB_HDR_LEN := by
        simp only [a, List.length_drop, List.length_take]
        omega
      refine ⟨0, by omega, ?_⟩
      rw [hlen, Nat.zero_add, ← List.drop_take]
    · obtain ⟨start, hle, hdata⟩ := ih hout b hb
      rw [List.length_drop] at hle
      refine ⟨min (align rawLen) rest.length + start, by omega, ?_⟩
      rw [List.drop_drop] at hdata
      rw [Nat.add_assoc]
      exact hdata

theorem Inside.length_le {buf : List UInt8} {a : Attr} (h : Inside buf a) :
    a.data.length ≤ buf.length := by
  obtain ⟨start, hle, _⟩ := h
  omega


/-! ### The fields stay inside their attribute -/

theorem fixedChecked_meets {id n : Nat} {d : List UInt8} {f : List UInt8 → Decoder Value}
    {v : Value} (h : d.length = n → f d = pure v) :
    Meets Eq (fixedChecked id n d >>= f)
      (if d.length = n then .ok v
        else .error s!"blobmsg type {id} has wrong length {d.length}") := by
  by_cases hn : d.length = n
  · rw [fixedChecked, if_pos hn, if_pos hn, toArray_eq hn, pure_bind, h hn]
    exact .pure rfl
  · rw [fixedChecked, if_neg hn, if_neg hn]
    exact .throw _

theorem scalarChecked_meets (ty : BlobmsgType) (d : List UInt8) :
    Meets Eq (scalarChecked ty d) (scalarOf ty d) := by
  cases ty with
  | unspec => exact .pure rfl
  | array => exact .pure rfl
  | table => exact .pure rfl
  | string =>
    rw [scalarChecked, scalarOf, slice_findIdx?, pure_bind]
    have hbytes : (d.takeWhile fun b => !(decide (b = 0))) = d.takeWhile (· ≠ 0) := by
      simp only [decide_not]
    rw [hbytes]
    exact .pure rfl
  | int64 => exact fixedChecked_meets fun _ => rfl
  | int32 => exact fixedChecked_meets fun _ => rfl
  | int16 => exact fixedChecked_meets fun _ => rfl
  | int8 =>
    refine fixedChecked_meets fun hone => ?_
    obtain ⟨b, rfl⟩ := List.length_eq_one_iff.1 hone
    rw [index_eq rfl, pure_bind]
    simp
  | double => exact fixedChecked_meets fun _ => rfl

section Containers

variable {turns : Nat} {check : Attr → Decoder (String × Value)}
  {decode : Attr → Except String (String × Value)}

theorem membersOf_meets {as : List Attr} (h : ∀ a ∈ as, Meets Eq (check a) (decode a))
    (m : List (String × Value)) :
    Meets Eq (as.foldlM (fun m a => do
      let (k, v) ← check a
      pure (insertMember k v m)) m) (membersOf decode m as) := by
  induction as generalizing m with
  | nil => exact .pure rfl
  | cons a as ih =>
    have ha := h a List.mem_cons_self
    rw [List.foldlM_cons, membersOf]
    generalize check a = c at ha ⊢
    generalize decode a = x at ha ⊢
    cases ha with
    | throw e => exact .throw e
    | pure hkv =>
      subst hkv
      exact ih (fun b hb => h b (List.mem_cons_of_mem _ hb)) _

theorem itemsOf_meets {as : List Attr} (h : ∀ a ∈ as, Meets Eq (check a) (decode a)) :
    Meets Eq (as.mapM fun a => Prod.snd <$> check a) (itemsOf decode as) := by
  induction as with
  | nil => exact .pure rfl
  | cons a as ih =>
    have ha := h a List.mem_cons_self
    have has := ih fun b hb => h b (List.mem_cons_of_mem _ hb)
    rw [List.mapM_cons, itemsOf]
    generalize check a = c at ha ⊢
    generalize decode a = x at ha ⊢
    cases ha with
    | throw e => exact .throw e
    | pure hkv =>
      subst hkv
      simp only [map_pure, pure_bind]
      generalize as.mapM (fun a => Prod.snd <$> check a) = cs at has ⊢
      generalize itemsOf decode as = x at has ⊢
      cases has with
      | throw e => exact .throw e
      | pure hvs =>
        subst hvs
        exact .pure rfl

theorem objectOf_meets {buf : List UInt8} (hbuf : buf.length < turns)
    (h : ∀ a : Attr, a.data.length < turns → Meets Eq (check a) (decode a)) :
    Meets Eq (objectOf turns check buf) ((parseAttrs buf).bind (membersOf decode [])) := by
  refine (parseAttrsChecked_meets hbuf).bind fun as _ hparse heq => ?_
  subst heq
  exact membersOf_meets (fun a ha => h a
    (lt_of_le_of_lt (inside_of_mem hparse a ha).length_le hbuf)) []

theorem arrayOf_meets {buf : List UInt8} (hbuf : buf.length < turns)
    (h : ∀ a : Attr, a.data.length < turns → Meets Eq (check a) (decode a)) :
    Meets Eq (arrayOf turns check buf) ((parseAttrs buf).bind (itemsOf decode)) := by
  refine (parseAttrsChecked_meets hbuf).bind fun as _ hparse heq => ?_
  subst heq
  exact itemsOf_meets fun a ha => h a
    (lt_of_le_of_lt (inside_of_mem hparse a ha).length_le hbuf)

end Containers

/-- The name and its length are there, as long as the padded header is. -/
theorem header_le {data : List UInt8} {namelen : Nat}
    (h : ¬align (2 + namelen + 1) > data.length) : 2 + namelen ≤ data.length := by
  have hal := le_align (2 + namelen + 1)
  omega

theorem two_bytes {data : List UInt8} (h : ¬data.length < 3) :
    ∃ b₀ b₁ tail, data = b₀ :: b₁ :: tail := by
  match data, h with
  | b₀ :: b₁ :: tail, _ => exact ⟨b₀, b₁, tail, rfl⟩
  | [], h | [_], h => exact absurd (by simp) h

theorem ofBe_two_lt (b₀ b₁ : UInt8) : ofBe [b₀, b₁] < 2 ^ 16 := by
  have h₀ := b₀.toNat_lt
  have h₁ := b₁.toNat_lt
  simp only [ofBe, List.foldl_cons, List.foldl_nil]
  omega

/-- What comes last in a field: the value is put behind the name. -/
theorem named_meets {α : Type} {m : Decoder α} {x : Except String α} {f : α → String × Value}
    {y : Except String (String × Value)} (h : Meets Eq m x)
    (herror : ∀ e, x = .error e → y = .error e) (hok : ∀ v, x = .ok v → y = .ok (f v)) :
    Meets Eq (m >>= fun v => pure (f v)) y := by
  cases h with
  | throw e =>
    rw [herror e rfl]
    exact .throw e
  | pure h =>
    rw [hok _ rfl]
    exact .pure (congrArg f h)

theorem decodeAtChecked_meets {turns : Nat} (levels : Nat) : ∀ {stack depth : Nat} {a : Attr},
    depth + levels = MAX_DEPTH → levels < stack → a.data.length < turns →
      Meets Eq (decodeAtChecked turns stack a depth) (decodeAt levels a) := by
  induction levels using Nat.strong_induction_on with
  | _ levels ih =>
    intro stack depth a hdepth hstack ha
    cases stack with
    | zero => cases hstack
    | succ stack =>
      rw [decodeAtChecked, decodeAt.eq_def]
      refine Meets.ite (fun _ => .throw _) fun _ => ?_
      refine Meets.ite (fun _ => .throw _) fun hshort => ?_
      obtain ⟨b₀, b₁, tail, hdata⟩ := two_bytes hshort
      have h₀ : a.data[0]? = some b₀ := hdata ▸ rfl
      have h₁ : a.data[1]? = some b₁ := hdata ▸ rfl
      have htake : a.data.take 2 = [b₀, b₁] := hdata ▸ rfl
      have hlt := ofBe_two_lt b₀ b₁
      rw [index_eq h₀, index_eq h₁, htake, pure_bind, pure_bind]
      generalize ofBe [b₀, b₁] = namelen at hlt
      dsimp only
      rw [alignChecked_eq (by omega), pure_bind]
      refine Meets.ite (fun _ => .throw _) fun hlong => ?_
      rw [slice_eq (Nat.le_add_right _ _) (header_le hlong), pure_bind,
        sliceFrom_eq (Nat.le_of_not_lt hlong), pure_bind, List.drop_take, Nat.add_sub_cancel_left]
      have hd : (a.data.drop (align (2 + namelen + 1))).length < turns := by
        rw [List.length_drop]
        omega
      generalize a.data.drop (align (2 + namelen + 1)) = d at hd
      generalize fromUtf8Lossy ((a.data.drop 2).take namelen) = name
      cases hty : BlobmsgType.ofId a.id with
      | none => exact .throw _
      | some ty =>
        cases ty with
        | array =>
          cases levels with
          | zero =>
            dsimp only
            rw [if_pos (by omega)]
            exact .throw _
          | succ levels =>
            have hfields : ∀ b : Attr, b.data.length < turns →
                Meets Eq (decodeAtChecked turns stack b (depth + 1)) (decodeAt levels b) :=
              fun b hb => ih levels (Nat.lt_succ_self _) (by omega) (by omega) hb
            dsimp only
            rw [if_neg (by omega)]
            exact named_meets (arrayOf_meets hd hfields) (fun e he => by rw [he])
              fun v hv => by rw [hv]
        | table =>
          cases levels with
          | zero =>
            dsimp only
            rw [if_pos (by omega)]
            exact .throw _
          | succ levels =>
            have hfields : ∀ b : Attr, b.data.length < turns →
                Meets Eq (decodeAtChecked turns stack b (depth + 1)) (decodeAt levels b) :=
              fun b hb => ih levels (Nat.lt_succ_self _) (by omega) (by omega) hb
            dsimp only
            rw [if_neg (by omega)]
            exact named_meets (objectOf_meets hd hfields) (fun e he => by rw [he])
              fun v hv => by rw [hv]
        | unspec | string | int64 | int32 | int16 | int8 | double =>
          dsimp only
          exact named_meets (scalarChecked_meets _ d) (fun e he => by rw [he])
            fun v hv => by rw [hv]

theorem objectChecked_meets {turns stack : Nat} {buf : List UInt8} (hturns : buf.length < turns)
    (hstack : MAX_DEPTH < stack) :
    Meets Eq (objectChecked turns stack buf) (blobmsgObject buf) :=
  objectOf_meets hturns fun _ ha => decodeAtChecked_meets MAX_DEPTH (Nat.zero_add _) hstack ha

/-! ### What is nested too deep -/

/-- What is behind the name of a field. -/
def contents (a : Attr) : List UInt8 :=
  a.data.drop (align (2 + ofBe (a.data.take 2) + 1))

def Container (a : Attr) : Prop :=
  BlobmsgType.ofId a.id = some .array ∨ BlobmsgType.ofId a.id = some .table

/-- So many containers, each a field of the one before; the outermost is `a`. -/
inductive Nested : Nat → Attr → Prop
  | last {a : Attr} (h : Container a) : Nested 1 a
  | field {n : Nat} {a b : Attr} {as : List Attr} (h : Container a)
      (hparse : parseAttrs (contents a) = .ok as) (hb : b ∈ as) (hn : Nested n b) :
      Nested (n + 1) a

section Errors

variable {decode : Attr → Except String (String × Value)} {b : Attr} {e : String}

theorem itemsOf_error {as : List Attr} (hb : b ∈ as) (he : decode b = .error e) :
    ∃ e, itemsOf decode as = .error e := by
  induction as with
  | nil => cases hb
  | cons a as ih =>
    rw [itemsOf]
    cases ha : decode a with
    | error e => exact ⟨e, rfl⟩
    | ok r =>
      rcases List.mem_cons.1 hb with rfl | hb
      · rw [he] at ha
        cases ha
      · obtain ⟨e, h⟩ := ih hb
        dsimp only
        rw [h]
        exact ⟨e, rfl⟩

theorem membersOf_error {as : List Attr} (hb : b ∈ as) (he : decode b = .error e)
    (m : List (String × Value)) : ∃ e, membersOf decode m as = .error e := by
  induction as generalizing m with
  | nil => cases hb
  | cons a as ih =>
    rw [membersOf]
    cases ha : decode a with
    | error e => exact ⟨e, rfl⟩
    | ok r =>
      rcases List.mem_cons.1 hb with rfl | hb
      · rw [he] at ha
        cases ha
      · exact ih hb _

end Errors

/-- A container is an error when no level is left for it, or one of its fields is. -/
theorem decodeAt_container {a : Attr} {levels : Nat} (hc : Container a)
    (hin : ∀ l, levels = l + 1 → ∃ as b e,
      parseAttrs (contents a) = .ok as ∧ b ∈ as ∧ decodeAt l b = .error e) :
    ∃ e, decodeAt levels a = .error e := by
  rw [decodeAt.eq_def]
  split
  · exact ⟨_, rfl⟩
  split
  · exact ⟨_, rfl⟩
  dsimp only
  split
  · exact ⟨_, rfl⟩
  cases levels with
  | zero =>
    rcases hc with hty | hty <;> rw [hty] <;> exact ⟨_, rfl⟩
  | succ levels =>
    obtain ⟨as, b, e, hparse, hb, he⟩ := hin levels rfl
    rw [contents] at hparse
    rw [hparse]
    rcases hc with hty | hty
    · obtain ⟨e, h⟩ := itemsOf_error hb he
      rw [hty]
      dsimp only [Except.bind]
      rw [h]
      exact ⟨e, rfl⟩
    · obtain ⟨e, h⟩ := membersOf_error hb he []
      rw [hty]
      dsimp only [Except.bind]
      rw [h]
      exact ⟨e, rfl⟩

theorem decodeAt_nested {n : Nat} {a : Attr} (h : Nested n a) :
    ∀ levels, levels < n → ∃ e, decodeAt levels a = .error e := by
  induction h with
  | last hc =>
    intro levels hlt
    refine decodeAt_container hc fun l hl => ?_
    omega
  | field hc hparse hb _ ih =>
    intro levels hlt
    refine decodeAt_container hc fun l hl => ?_
    obtain ⟨e, he⟩ := ih l (by omega)
    exact ⟨_, _, e, hparse, hb, he⟩

/-- **The decoder is safe on arbitrary bytes.**  With a turn for each byte and the calls
    for `MAX_DEPTH` levels it never stops the program; the data of every attribute lie in
    its buffer, a turn that goes on leaves fewer bytes, and what is nested deeper is an
    error. -/
theorem decoder_safe (buf : List UInt8) :
    (∀ turns, buf.length < turns →
      (parseAttrsChecked turns buf).run = some (parseAttrs buf) ∧
      (msgAttrsChecked turns buf).run = some (msgAttrs buf) ∧
      (objectChecked turns (MAX_DEPTH + 1) buf).run = some (blobmsgObject buf)) ∧
    (∀ as, parseAttrs buf = .ok as → ∀ a ∈ as, Inside buf a) ∧
    (∀ s s', attrsTurn s = pure (.next s') → s'.rest.length < s.rest.length) ∧
    (∀ as, parseAttrs buf = .ok as → ∀ a ∈ as, Nested (MAX_DEPTH + 1) a →
      ∃ e, blobmsgObject buf = .error e) := by
  refine ⟨?_, fun as h => inside_of_mem h, fun s s' h => (attrsTurn_spec s).lt h, ?_⟩
  · intro turns hturns
    have hparse := parseAttrsChecked_meets hturns
    refine ⟨hparse.eq_some, ?_, (objectChecked_meets hturns (Nat.lt_succ_self _)).eq_some⟩
    rw [msgAttrsChecked, msgAttrs]
    generalize parseAttrsChecked turns buf = m at hparse
    generalize parseAttrs buf = x at hparse
    cases hparse with
    | throw e => rfl
    | pure h =>
      subst h
      rfl
  · intro as hparse a ha hn
    obtain ⟨e, he⟩ := decodeAt_nested hn MAX_DEPTH (Nat.lt_succ_self _)
    rw [blobmsgObject, objectAt, hparse]
    exact membersOf_error ha he []

end Ubus

end Datad
