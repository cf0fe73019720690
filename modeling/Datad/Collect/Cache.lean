/-
  Datad/Collect/Cache.lean
  ========================
  **The old collection and its cache** (`state.rs`): a round reads some two dozen ubus
  methods one after the other, most of them through a cache with a time to live.

  A read (`ubus_ttl_read`) looks in the cache, sends a request if it finds nothing, and
  stores the answer, failures included.  These are separate steps: in between, the
  handler of an event may drop the SMS entries and a control action may drop everything.
  Jobs of the executor run only before the look-up of a read; one of them may be a round
  itself, so the rounds under way form a stack.

  The code does not keep the fields marked as the observer's.
-/
import Datad.Hub.Block
import Datad.Lib.Transition
import Datad.Ubus.Call

namespace Datad.Collect

open Hub Transition Ubus

/-! ### The cache -/

structure Cached where
  at_ : Instant
  ttl : Duration
  value : Except String Value
  /-- How many SMS invalidations there were when the request went out (observer). -/
  issued : Nat := 0

/-- The entries by service, method and arguments. -/
abbrev Cache := Invocation → Option Cached

def isSmsKey (key : Invocation) : Bool :=
  decide (key.service = "zwrt_wms") &&
    (decide (key.method = "zwrt_wms_get_wms_capacity") ||
      decide (key.method = "zte_libwms_get_sms_data"))

/-- An entry that has not expired. -/
def cacheGet (c : Cache) (key : Invocation) (now : Instant) : Option Cached :=
  (c key).bind fun e => if now - e.at_ < e.ttl then some e else none

def cachePut (c : Cache) (key : Invocation) (e : Cached) : Cache :=
  fun k => if k = key then some e else c k

/-- The last value of a key, expired or not, unless it is a failure. -/
def cacheLastOk (c : Cache) (key : Invocation) : Option (Value × Nat) :=
  (c key).bind fun e =>
    match e.value with
    | .ok v => some (v, e.issued)
    | .error _ => none

/-! ### The reads of a round -/

inductive Read where
  | common | board | info | net | traffic | accounting | limit | clearDay | sim | imei
  | lanClients | wifiClients | routerStatus | thermal | hightemp | usb | nfc
  | smsCapacity | smsNv | smsSim | lanIf | wan4If | wan6If | lanConfig | cellular
deriving DecidableEq, Repr

def args (members : List (String × Value)) : Value := .obj members

def int (i : Int) : Value := .num (.int i)

def firstPage (memStore : Int) : Value :=
  args [("data_per_page", int 8), ("mem_store", int memStore),
    ("order_by", .str "order by id desc"), ("page", int 0), ("tags", int 10)]

def accessList : Value := args [("end_id", int 64), ("start_id", int 1)]

/-- Seconds to live, and the call. -/
def Read.spec : Read → Nat × Invocation
  | .common => (60, ⟨"zwrt_zte_mdm.api", "get_zwrt_common_info", args []⟩)
  | .board => (300, ⟨"system", "board", args []⟩)
  | .info => (0, ⟨"system", "info", args []⟩)
  | .net => (0, ⟨"zte_nwinfo_api", "nwinfo_get_netinfo", args []⟩)
  | .traffic =>
      (0, ⟨"zwrt_data", "get_wwandst",
        args [("cid", int 1), ("source_module", .str "deviceui"), ("type", int 1)]⟩)
  | .accounting =>
      (10, ⟨"zwrt_data", "get_wwandst",
        args [("cid", int 1), ("source_module", .str "web"), ("type", int 4)]⟩)
  | .limit =>
      (60, ⟨"zwrt_data", "get_wwandst_monthlimit",
        args [("cid", int 1), ("source_module", .str "web")]⟩)
  | .clearDay =>
      (60, ⟨"zwrt_data", "get_wwandst_clearday",
        args [("cid", int 1), ("source_module", .str "web")]⟩)
  | .sim => (30, ⟨"zwrt_zte_mdm.api", "get_sim_info", args []⟩)
  | .imei => (300, ⟨"zwrt_zte_mdm.api", "get_imei", args []⟩)
  | .lanClients => (10, ⟨"zwrt_router.api", "router_lan_access_list", accessList⟩)
  | .wifiClients => (10, ⟨"zwrt_router.api", "router_wireless_access_list", accessList⟩)
  | .routerStatus => (5, ⟨"zwrt_router.api", "router_get_status_no_auth", args []⟩)
  | .thermal => (5, ⟨"zwrt_bsp.thermal", "get_cpu_temp", args []⟩)
  | .hightemp =>
      (30, ⟨"uci", "get",
        args [("config", .str "zwrt_zte_mc_tmp"), ("option", .str "hightemp_datalimit_status"),
          ("section", .str "cpe")]⟩)
  | .usb => (30, ⟨"zwrt_bsp.usb", "list", args []⟩)
  | .nfc => (60, ⟨"zwrt_nfc", "zwrt_nfc_wifi_get", args []⟩)
  | .smsCapacity => (30, ⟨"zwrt_wms", "zwrt_wms_get_wms_capacity", args []⟩)
  | .smsNv => (10, ⟨"zwrt_wms", "zte_libwms_get_sms_data", firstPage 1⟩)
  | .smsSim => (10, ⟨"zwrt_wms", "zte_libwms_get_sms_data", firstPage 0⟩)
  | .lanIf => (5, ⟨"network.interface.lan", "status", args []⟩)
  | .wan4If => (5, ⟨"network.interface.zte_wan", "status", args []⟩)
  | .wan6If => (5, ⟨"network.interface.zte_wan6", "status", args []⟩)
  | .lanConfig => (60, ⟨"zwrt_router.api", "router_get_lan_info", args []⟩)
  | .cellular =>
      (5, ⟨"zwrt_data", "get_wwaniface",
        args [("cid", int 1), ("connect_status", .str ""), ("source_module", .str "web")]⟩)

def Read.ttl (r : Read) : Nat := r.spec.1

def Read.key (r : Read) : Invocation := r.spec.2

/-- The reads in the order of `read_inputs`. -/
def READS : List Read :=
  [.common, .board, .info, .net, .traffic, .accounting, .limit, .clearDay, .sim, .imei,
    .lanClients, .wifiClients, .routerStatus, .thermal, .hightemp, .usb, .nfc, .smsCapacity,
    .smsNv, .smsSim, .lanIf, .wan4If, .wan6If, .lanConfig, .cellular]

/-! ### Rounds -/

/-- Where the result of a read is from (observer). -/
inductive Origin where
  /-- An entry of the cache that had not expired. -/
  | hit (issued : Nat)
  | answered
  /-- No request went out; the value, if there is one, is the last one in the cache. -/
  | skipped (issued : Option Nat)
deriving DecidableEq

/-- What `ubus_ttl_read` returns. -/
structure Got where
  result : Except String Value
  read : Bool
  origin : Origin
  /-- How many SMS invalidations there were when the read began (observer). -/
  begun : Nat

/-- Where a round is in its current read. -/
inductive Stage where
  /-- Between two reads. -/
  | idle
  /-- At the safe point before the look-up. -/
  | begun (at_ : Nat)
  /-- Nothing found, the request is next. -/
  | missed (begun : Nat)
  /-- The request is out. -/
  | waiting (begun issued : Nat)
  /-- Answered, to be stored. -/
  | storing (begun issued : Nat) (v : Except String Value)

structure Round where
  todo : List Read := READS
  stage : Stage := .idle
  done : List (Read × Got) := []

structure State where
  cache : Cache := fun _ => none
  now : Instant := 0
  /-- The rounds under way, the innermost first. -/
  rounds : List Round := []
  /-- The SMS invalidations so far (observer). -/
  invalidations : Nat := 0
  /-- What the finished rounds have read (observer). -/
  finished : List (List (Read × Got)) := []

inductive Act where
  | wait (d : Duration)
  /-- `invalidate_cache`, around a control action. -/
  | invalidate
  /-- `invalidate_sms_cache`, by the handler of SMS events. -/
  | invalidateSms
  /-- A round starts. -/
  | start
  /-- `ubus_ttl_read` is entered. -/
  | begin
  | lookup
  | request
  | reply (answer : CallAnswer)
  | put
  /-- All is read, the round ends. -/
  | finish

/-! ### `ubus_ttl_read` -/

/-- Whether a read uses the cache. -/
def Read.cached (r : Read) (enabled : Bool) : Bool := decide (r.ttl ≠ 0) && enabled

def Round.record (r : Round) (read : Read) (rest : List Read) (g : Got) : Round :=
  { todo := rest, stage := .idle, done := r.done ++ [(read, g)] }

namespace State

variable (enabled : Bool)

def lookup (s : State) (round : Round) (rounds : List Round) (read : Read) (rest : List Read)
    (begun : Nat) : State :=
  match if read.cached enabled then cacheGet s.cache read.key s.now else none with
  | some e =>
      { s with
        rounds :=
          round.record read rest
            { result := e.value, read := true, origin := .hit e.issued, begun } :: rounds }
  | none => { s with rounds := { round with stage := .missed begun } :: rounds }

def reply (s : State) (round : Round) (rounds : List Round) (read : Read) (rest : List Read)
    (begun issued : Nat) : CallAnswer → State
  | .error (.skipped object) =>
      let previous := if read.cached enabled then cacheLastOk s.cache read.key else none
      { s with
        rounds :=
          round.record read rest
            { result := (previous.map Prod.fst).elim (.error (CallError.skipped object).text) .ok
              read := false
              origin := .skipped (previous.map Prod.snd)
              begun } :: rounds }
  | answer =>
      let v := answer.mapError CallError.text
      if read.cached enabled then
        { s with rounds := { round with stage := .storing begun issued v } :: rounds }
      else
        { s with
          rounds :=
            round.record read rest
              { result := v, read := v.isOk, origin := .answered, begun } :: rounds }

/-- Failures live for five seconds at most. -/
def put (s : State) (round : Round) (rounds : List Round) (read : Read) (rest : List Read)
    (begun issued : Nat) (v : Except String Value) : State :=
  let ttl := if v.isOk then read.ttl else min read.ttl 5
  { s with
    cache := cachePut s.cache read.key { at_ := s.now, ttl := secs ttl, value := v, issued }
    rounds :=
      round.record read rest
        { result := v, read := v.isOk, origin := .answered, begun } :: rounds }

def next (s : State) : Act → Option State
  | .wait d => some { s with now := s.now + d }
  | .invalidate => some { s with cache := fun _ => none }
  | .invalidateSms =>
      some
        { s with
          cache := fun k => if isSmsKey k then none else s.cache k
          invalidations := s.invalidations + 1 }
  | .start =>
      match s.rounds with
      | [] => some { s with rounds := [{}] }
      -- a round that is a job of the executor
      | ⟨_, .begun _, _⟩ :: _ => some { s with rounds := {} :: s.rounds }
      | _ => none
  | .begin =>
      match s.rounds with
      | ⟨read :: rest, .idle, done⟩ :: rounds =>
          some { s with rounds := ⟨read :: rest, .begun s.invalidations, done⟩ :: rounds }
      | _ => none
  | .lookup =>
      match s.rounds with
      | ⟨read :: rest, .begun b, done⟩ :: rounds =>
          some (s.lookup enabled ⟨read :: rest, .begun b, done⟩ rounds read rest b)
      | _ => none
  | .request =>
      match s.rounds with
      | ⟨read :: rest, .missed b, done⟩ :: rounds =>
          some { s with rounds := ⟨read :: rest, .waiting b s.invalidations, done⟩ :: rounds }
      | _ => none
  | .reply answer =>
      match s.rounds with
      | ⟨read :: rest, .waiting b i, done⟩ :: rounds =>
          some (s.reply enabled ⟨read :: rest, .waiting b i, done⟩ rounds read rest b i answer)
      | _ => none
  | .put =>
      match s.rounds with
      | ⟨read :: rest, .storing b i v, done⟩ :: rounds =>
          some (s.put ⟨read :: rest, .storing b i v, done⟩ rounds read rest b i v)
      | _ => none
  | .finish =>
      match s.rounds with
      | ⟨[], _, done⟩ :: rounds => some { s with rounds, finished := s.finished ++ [done] }
      | _ => none

end State

/-! ### What a step does -/

/-- How a read goes on. -/
inductive Goes (enabled : Bool) (s : State) (read : Read) : Stage → Act → Stage → Prop where
  | begin : Goes enabled s read .idle .begin (.begun s.invalidations)
  | miss (b : Nat) : Goes enabled s read (.begun b) .lookup (.missed b)
  | request (b : Nat) :
      Goes enabled s read (.missed b) .request (.waiting b s.invalidations)
  | reply (b i : Nat) (answer : CallAnswer) :
      Goes enabled s read (.waiting b i) (.reply answer)
        (.storing b i (answer.mapError CallError.text))

/-- How a read ends: with what result, and what it leaves in the cache. -/
inductive Gives (enabled : Bool) (s : State) (read : Read) :
    Stage → Act → Got → Cache → Prop where
  | hit (b : Nat) (e : Cached) (he : cacheGet s.cache read.key s.now = some e) :
      Gives enabled s read (.begun b) .lookup
        { result := e.value, read := true, origin := .hit e.issued, begun := b } s.cache
  | skip (b i : Nat) (object : String) (previous : Option (Value × Nat))
      (hp : ∀ p, previous = some p → cacheLastOk s.cache read.key = some p) :
      Gives enabled s read (.waiting b i) (.reply (.error (.skipped object)))
        { result := (previous.map Prod.fst).elim (.error (CallError.skipped object).text) .ok
          read := false
          origin := .skipped (previous.map Prod.snd)
          begun := b } s.cache
  | answer (b i : Nat) (answer : CallAnswer) (v : Except String Value) :
      Gives enabled s read (.waiting b i) (.reply answer)
        { result := v, read := v.isOk, origin := .answered, begun := b } s.cache
  | put (b i : Nat) (v : Except String Value) (ttl : Duration) :
      Gives enabled s read (.storing b i v) .put
        { result := v, read := v.isOk, origin := .answered, begun := b }
        (cachePut s.cache read.key { at_ := s.now, ttl, value := v, issued := i })

inductive Step (enabled : Bool) (s : State) : Act → State → Prop where
  | wait (d : Duration) : Step enabled s (.wait d) { s with now := s.now + d }
  | invalidate : Step enabled s .invalidate { s with cache := fun _ => none }
  | invalidateSms :
      Step enabled s .invalidateSms
        { s with
          cache := fun k => if isSmsKey k then none else s.cache k
          invalidations := s.invalidations + 1 }
  | start : Step enabled s .start { s with rounds := {} :: s.rounds }
  | goes {a : Act} (read : Read) (rest : List Read) (st st' : Stage) (done : List (Read × Got))
      (rounds : List Round) (hr : s.rounds = ⟨read :: rest, st, done⟩ :: rounds)
      (h : Goes enabled s read st a st') :
      Step enabled s a { s with rounds := ⟨read :: rest, st', done⟩ :: rounds }
  | gives {a : Act} (read : Read) (rest : List Read) (st : Stage) (done : List (Read × Got))
      (rounds : List Round) (g : Got) (c : Cache)
      (hr : s.rounds = ⟨read :: rest, st, done⟩ :: rounds) (h : Gives enabled s read st a g c) :
      Step enabled s a
        { s with cache := c, rounds := ⟨rest, .idle, done ++ [(read, g)]⟩ :: rounds }
  | finish (st : Stage) (done : List (Read × Got)) (rounds : List Round)
      (hr : s.rounds = ⟨[], st, done⟩ :: rounds) :
      Step enabled s .finish { s with rounds, finished := s.finished ++ [done] }

theorem lookup_step {enabled : Bool} {s : State} {read : Read} {rest : List Read} {b : Nat}
    {done : List (Read × Got)} {rounds : List Round}
    (hr : s.rounds = ⟨read :: rest, .begun b, done⟩ :: rounds) :
    Step enabled s .lookup
      (s.lookup enabled ⟨read :: rest, .begun b, done⟩ rounds read rest b) := by
  unfold State.lookup
  split
  · rename_i e he
    split_ifs at he with hc
    · exact .gives read rest _ done rounds _ _ hr (.hit b e he)
  · exact .goes read rest _ _ done rounds hr (.miss b)

theorem reply_step {enabled : Bool} {s : State} {read : Read} {rest : List Read} {b i : Nat}
    {done : List (Read × Got)} {rounds : List Round} (answer : CallAnswer)
    (hr : s.rounds = ⟨read :: rest, .waiting b i, done⟩ :: rounds) :
    Step enabled s (.reply answer)
      (s.reply enabled ⟨read :: rest, .waiting b i, done⟩ rounds read rest b i answer) := by
  unfold State.reply
  split
  · rename_i object
    refine .gives read rest _ done rounds _ _ hr (.skip b i object _ ?_)
    intro p hp
    split_ifs at hp with hc
    exact hp
  · dsimp only
    split_ifs with hc
    · exact .goes read rest _ _ done rounds hr (.reply b i answer)
    · exact .gives read rest _ done rounds _ _ hr (.answer b i answer _)

theorem next_step {enabled : Bool} {s s' : State} {a : Act}
    (h : s.next enabled a = some s') : Step enabled s a s' := by
  cases a with
  | wait d =>
    cases h
    exact .wait d
  | invalidate =>
    cases h
    exact .invalidate
  | invalidateSms =>
    cases h
    exact .invalidateSms
  | start =>
    simp only [State.next] at h
    split at h
    · rename_i hr
      cases h
      rw [← hr]
      exact .start
    · cases h
      exact .start
    · cases h
  | begin =>
    simp only [State.next] at h
    split at h
    · rename_i hr
      cases h
      exact .goes _ _ _ _ _ _ hr .begin
    · cases h
  | lookup =>
    simp only [State.next] at h
    split at h
    · rename_i hr
      cases h
      exact lookup_step hr
    · cases h
  | request =>
    simp only [State.next] at h
    split at h
    · rename_i hr
      cases h
      exact .goes _ _ _ _ _ _ hr (.request _)
    · cases h
  | reply answer =>
    simp only [State.next] at h
    split at h
    · rename_i hr
      cases h
      exact reply_step answer hr
    · cases h
  | put =>
    simp only [State.next] at h
    split at h
    · rename_i hr
      cases h
      exact .gives _ _ _ _ _ _ _ hr (.put _ _ _ _)
    · cases h
  | finish =>
    simp only [State.next] at h
    split at h
    · rename_i hr
      cases h
      exact .finish _ _ _ hr
    · cases h

end Datad.Collect
