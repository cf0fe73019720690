/-
  Datad/Server/Access.lean
  ========================
  **Who gets to a handler** (`main.rs`, the layers of `server.rs`, the logins of `auth.rs`).

  The process listens where its arguments say.  A request that comes in is authenticated,
  waits for the first round, and is handed to the handler of its path; any number of them
  are on their way at a time, and a login waits for the device in between.

  `reached_proven` says of every run: a handler that is not open to all is reached from the
  machine itself, or with the token of the file, or with one that was granted to somebody
  the device had vouched for and that was in use less than twelve hours before.  And
  `reached_collected`: what is read of the device is not answered before there is something.
-/
import Datad.Lib.ByteLines
import Datad.Lib.Transition
import Datad.Server.Actions
import Datad.Server.Auth
import Datad.Server.Base64

namespace Datad

namespace Access

open Auth Bytes Transition Ubus

/-! ### Where the process listens (`main.rs`) -/

inductive Ip where
  | v4 (a b c d : UInt8)
  | v6 (segments : List UInt16)
deriving DecidableEq

def Ip.isLoopback : Ip → Bool
  | .v4 a _ _ _ => decide (a = 127)
  | .v6 segments => decide (segments = [0, 0, 0, 0, 0, 0, 0, 1])

structure Addr where
  ip : Ip
  port : UInt16
deriving DecidableEq

/-- The arguments; an address is `none` where it does not parse, and so is what is in a file
    that cannot be read. -/
structure Args where
  authTokenFile : Option (Option String) := none
  bind : Option Addr := some ⟨.v4 127 0 0 1, 9460⟩
  lanBind : Option (Option Addr) := none

def Args.token (args : Args) : Option String :=
  (args.authTokenFile.join.map fun v => String.ofList (Sms.trim v)).filter (· ≠ "")

structure Listener where
  addr : Addr
  requireAuth : Bool
  openAuthRoutes : Bool
deriving DecidableEq

/-- Why the process ends before it listens. -/
inductive Refusal where
  /-- `refusing unauthenticated non-loopback listener {addr}; …`. -/
  | unauthenticated (addr : Addr)
  | invalidSocketAddress
deriving DecidableEq

def validateListenerSecurity (addr : Addr) (requireAuth : Bool) : Except Refusal Unit :=
  if !addr.ip.isLoopback && !requireAuth then .error (.unauthenticated addr)
  else .ok ()

def Args.listeners (args : Args) : Except Refusal (List Listener) :=
  let localRequiresAuth := args.lanBind.isNone && args.token.isSome
  match args.bind with
  | none => .error .invalidSocketAddress
  | some addr =>
      match validateListenerSecurity addr localRequiresAuth with
      | .error e => .error e
      | .ok () =>
          match args.lanBind with
          | none => .ok [⟨addr, localRequiresAuth, false⟩]
          | some none => .error .invalidSocketAddress
          | some (some lan) => .ok [⟨addr, false, false⟩, ⟨lan, true, true⟩]

/-! ### Requests -/

inductive Method where
  | get
  | head
  | post
  | other
deriving DecidableEq

/-- A header is `none` inside where its value is not visible ASCII. -/
structure HttpRequest where
  method : Method
  path : String
  query : Option String := none
  headers : String → Option (Option String) := fun _ => none
  /-- The address it comes from. -/
  peer : String := "127.0.0.1"

/-- `headers.get(name).and_then(to_str)`. -/
def HttpRequest.text (r : HttpRequest) (name : String) : Option String := (r.headers name).join

def stripPrefix (p s : String) : Option String :=
  if p.toList <+: s.toList then some (String.ofList (s.toList.drop p.toList.length)) else none

def presented (r : HttpRequest) : Option String :=
  let bearer := (r.text "authorization").bind (stripPrefix "Bearer ")
  let legacy := r.text "x-auth-token"
  let query := r.query.bind fun q =>
    (q.toList.splitOn '&').findSome? fun part => stripPrefix "access_token=" (String.ofList part)
  [bearer, legacy, query].findSome? id

def constantTimeEq (a b : List UInt8) : Bool :=
  a.length == b.length && (a.zip b).foldl (fun diff p => diff ||| (p.1 ^^^ p.2)) (0 : UInt8) == 0

def staticTokenValid (configured presented : Option String) : Bool :=
  configured.any fun wanted => presented.any fun value => constantTimeEq (utf8 value) (utf8 wanted)

/-- Why a request was let in. -/
inductive Pass where
  /-- The listener asks nobody. -/
  | unasked
  /-- The path is open to all. -/
  | openPath
  | static
  | session (token : String)
deriving DecidableEq

def AUTH_OPEN : List String := ["/", "/healthz", "/auth/login", "/auth/exchange"]

def authenticate (token : Option String) (ss : Sessions) (r : HttpRequest) (now : Nat) :
    Option Pass × Sessions :=
  if r.path ∈ AUTH_OPEN then (some .openPath, ss)
  else if staticTokenValid token (presented r) then (some .static, ss)
  else
    match presented r with
    | some value =>
        let (ok, ss) := ss.validate value now
        (if ok then some (.session value) else none, ss)
    | none => (none, ss)

/-! ### Handlers -/

inductive Handler where
  | index
  | health
  | version
  | gone
  | v2Events
  | v2State
  | v2Screen
  | capabilities
  | control
  | legacyHits
  | authLogin
  | authExchange
deriving DecidableEq

def ROUTES : List (String × Bool × Handler) :=
  [("/", false, .index), ("/healthz", false, .health), ("/version", false, .version),
    ("/state", false, .gone), ("/events", false, .gone), ("/v2/events", false, .v2Events),
    ("/v2/state", false, .v2State), ("/v2/screen", false, .v2Screen),
    ("/capabilities", false, .capabilities), ("/control", true, .control),
    ("/debug/legacy-hits", false, .legacyHits)]

def AUTH_ROUTES : List (String × Bool × Handler) :=
  [("/auth/login", true, .authLogin), ("/auth/exchange", true, .authExchange)]

/-- The handler of a request; `get` takes HEAD too.  Nothing where the path is unknown, or asked
    with another method. -/
def route (openAuthRoutes : Bool) (r : HttpRequest) : Option Handler :=
  let routes := if openAuthRoutes then ROUTES ++ AUTH_ROUTES else ROUTES
  match routes.find? fun x => decide (x.1 = r.path) with
  | some (_, true, h) => if r.method = .post then some h else none
  | some (_, false, h) => if r.method = .get ∨ r.method = .head then some h else none
  | none => none

/-- Answered during the start too. -/
def GATE_OPEN : List String :=
  ["/", "/healthz", "/version", "/capabilities", "/control", "/debug/legacy-hits", "/state",
    "/events", "/auth/login", "/auth/exchange"]

inductive Stage where
  | starting
  | snapshot
  | ready
deriving DecidableEq

/-! ### Logins -/

def SUCCESS_TEXTS : List String :=
  ["success", "ok", "true", "pass", "passed", "logged", "logined", "done"]

def successText (value : String) : Bool :=
  decide (String.ofList (value.toList.map Char.toLower) ∈ SUCCESS_TEXTS)

def truthy (value : Value) : Bool :=
  (match value with
    | .bool b => b
    | _ => false) ||
  decide (value.asInt = some 1) || value.asStr.any fun v => decide (v = "1") || successText v

def indicatesSuccess (value : Value) : Bool :=
  let text (key : String) := (value.get key).bind Value.asStr
  if ["webtoken", "token", "auth_token", "secondary_auth_token"].any fun key =>
      (text key).any (· ≠ "") then true
  else
    match ["success", "ok", "web_login_flag", "login_flag"].findSome? value.get with
    | some v => truthy v
    | none =>
        let code := ["code", "errno", "ret", "result"].findSome? fun key =>
          (value.get key).bind fun v =>
            match v.asInt with
            | some n => some (decide (n = 0))
            | none =>
                v.asStr.map fun s =>
                  match parseInt s.toList with
                  | some n => decide (n = 0)
                  | none => successText s
        match code with
        | some ok => ok
        | none =>
            (["status", "state", "msg", "message"].any fun key => (text key).any successText) ||
              ["username", "user"].any fun key => (text key).any (· ≠ "")

/-- What a client shows to be given a token. -/
inductive Credentials where
  | password (username password : String)
  | webtoken (token : String) (mode : Int) (remote tag : String)

section

-- `Sha256::digest`
variable (sha256 : List UInt8 → List UInt8)

/-- The digest in capital hexadecimal digits. -/
def hexDigest (bytes : List UInt8) : String :=
  String.ofList ((sha256 bytes).flatMap fun b =>
    ((Nat.toDigits 16 (b.toNat / 16)) ++ Nat.toDigits 16 (b.toNat % 16)).map Char.toUpper)

def verifyPassword (device : Invocation → Except String Value) (username password : String) :
    Bool :=
  if username = "" || decide (256 < username.utf8ByteSize) || decide (256 < password.utf8ByteSize)
  then false
  else
    match device ⟨"zwrt_web", "web_login_info", .obj []⟩ with
    | .error _ => false
    | .ok info =>
        match (info.get "zte_web_sault").bind Value.asStr with
        | none => false
        | some salt =>
            if salt = "" || decide (256 < salt.utf8ByteSize) then false
            else
              let first := hexDigest sha256 (utf8 password)
              let response := hexDigest sha256 (utf8 first ++ utf8 salt)
              match device ⟨"zwrt_web", "web_login",
                  .ofMembers [("username", .str username), ("password", .str response)]⟩ with
              | .error _ => false
              | .ok reply => indicatesSuccess reply

def verifyWebtoken (device : Invocation → Except String Value) (token : String) (mode : Int)
    (remote tag : String) : Bool :=
  if token = "" || decide (4096 < token.utf8ByteSize) || tag = "" ||
      decide (256 < tag.utf8ByteSize) then false
  else
    ["webtoken_check", "web_security_check"].any fun method =>
      match device ⟨"zwrt_web", method,
          .ofMembers [("webtoken", .str token), ("zmode", .num (.int mode)),
            ("web_remote_addr", .str remote), ("z-tag", .str tag)]⟩ with
      | .ok reply => indicatesSuccess reply
      | .error _ => false

/-- The device vouches for them. -/
def Credentials.verified (device : Invocation → Except String Value) : Credentials → Bool
  | .password username secret => verifyPassword sha256 device username secret
  | .webtoken token mode remote tag => verifyWebtoken device token mode remote tag

end

def basicCredentials (r : HttpRequest) : Option (String × String) :=
  (r.text "authorization").bind fun v => (stripPrefix "Basic " v).bind fun encoded =>
    if 1024 < encoded.utf8ByteSize then none
    else
      (Base64.decodeBase64 encoded).bind fun decoded =>
        if 512 < decoded.length ∨ 0 ∈ decoded then none
        else
          match decoded.idxOf? 58 with
          | none => none
          | some separator =>
              if separator = 0 then none
              else
                (BufRead.fromUtf8 (decoded.take separator)).bind fun username =>
                  (BufRead.fromUtf8 (decoded.drop (separator + 1))).bind fun password =>
                    if 257 ≤ username.utf8ByteSize ∨ 257 ≤ password.utf8ByteSize then none
                    else some (username, password)

/-- `None` where a request is answered without asking the device. -/
def credentials (r : HttpRequest) : Handler → Option Credentials
  | .authLogin => (basicCredentials r).map fun c => .password c.1 c.2
  | .authExchange =>
      let token := ((r.headers "x-web-token").or (r.headers "x-zte-webtoken")).join
      (token.filter (· ≠ "")).map fun token =>
        .webtoken token (((r.text "x-z-mode").bind fun v => parseInt v.toList).getD 0) r.peer
          ((r.text "x-z-tag").getD "zwrt-datad")
  | _ => none

/-! ### The process -/

/-- Where a request is. -/
inductive Task where
  /-- Let in; waits for the first round. -/
  | gate (l : Listener) (r : HttpRequest) (why : Pass)
  /-- A login; the device is being asked. -/
  | login (who : Credentials)

inductive Event where
  | admitted (l : Listener) (r : HttpRequest) (why : Pass) (now : Nat)
  /-- `collected` if the snapshot is one of the device. -/
  | reached (l : Listener) (r : HttpRequest) (h : Handler) (collected : Bool)
  | granted (token : String) (now : Nat) (who : Credentials)
      (device : Invocation → Except String Value)

structure State where
  token : Option String
  sessions : Sessions := []
  stage : Stage := .starting
  /-- The placeholder snapshot has been replaced. -/
  collected : Bool := false
  tasks : Nat → Option Task := fun _ => none
  /-- The last event first. -/
  log : List Event := []

inductive Act where
  | arrive (key : Nat) (l : Listener) (r : HttpRequest) (now : Nat)
  | pass (key : Nat)
  /-- The first round has not finished in time. -/
  | giveUp (key : Nat)
  /-- The device has answered a login; `token` is what `/dev/urandom` gave. -/
  | verified (key : Nat) (device : Invocation → Except String Value) (token : Option String)
      (now : Nat) (look : String → Nat)
  /-- `App::start`, after the first round. -/
  | store
  | announce
  | finish

def State.setTask (s : State) (key : Nat) (task : Option Task) : State :=
  { s with tasks := fun k => if k = key then task else s.tasks k }

def State.record (s : State) (e : Event) : State := { s with log := e :: s.log }

section

variable (sha256 : List UInt8 → List UInt8) (listeners : List Listener)

/-- The layer of a listener: it asks for a token, or nobody. -/
def State.admit (s : State) (l : Listener) (r : HttpRequest) (now : Nat) : Option Pass × Sessions :=
  if l.requireAuth then authenticate s.token s.sessions r now else (some .unasked, s.sessions)

def next (s : State) : Act → Option State
  | .arrive key l r now =>
      if l ∈ listeners ∧ (s.tasks key).isNone then
        match s.admit l r now with
        | (some why, ss) =>
            some (({ s with sessions := ss }.setTask key (some (.gate l r why))).record
              (.admitted l r why now))
        | (none, ss) => some { s with sessions := ss }
      else none
  | .pass key =>
      match s.tasks key with
      | some (.gate l r _) =>
          if r.path ∈ GATE_OPEN ∨ s.stage ≠ .starting then
            match route l.openAuthRoutes r with
            | some h =>
                some ((s.setTask key ((credentials r h).map .login)).record
                  (.reached l r h s.collected))
            | none => some (s.setTask key none)
          else none
      | _ => none
  | .giveUp key =>
      match s.tasks key with
      | some (.gate ..) => some (s.setTask key none)
      | _ => none
  | .verified key device token now look =>
      match s.tasks key with
      | some (.login who) =>
          match who.verified sha256 device, token with
          | true, some token =>
              some (({ s with sessions := (s.sessions.issue token now look).2 }.setTask key
                none).record (.granted token now who device))
          | _, _ => some (s.setTask key none)
      | _ => none
  | .store => some { s with collected := true }
  | .announce =>
      if s.collected ∧ s.stage = .starting then some { s with stage := .snapshot } else none
  | .finish => if s.stage = .snapshot then some { s with stage := .ready } else none

end

/-! ### What lets a request in -/

/-- The token is given out, or let in, at the moment `u`. -/
def Event.uses (t : String) (u : Nat) : Event → Prop
  | .granted t' u' _ _ => t' = t ∧ u' = u
  | .admitted _ _ (.session t') u' => t' = t ∧ u' = u
  | _ => False

section

variable (sha256 : List UInt8 → List UInt8)

/-- The token was granted to somebody the device had vouched for, and was in use less than
    twelve hours before. -/
structure Good (t : String) (now : Nat) (past : List Event) : Prop where
  granted : ∃ u who device, .granted t u who device ∈ past ∧ who.verified sha256 device = true
  used : ∃ e ∈ past, ∃ u, e.uses t u ∧ now < u + SESSION_TTL

/-- The reason holds. -/
def Pass.Holds (token : Option String) (l : Listener) (r : HttpRequest) (log : List Event) :
    Pass → Prop
  | .unasked => l.requireAuth = false
  | .openPath => r.path ∈ AUTH_OPEN
  | .static => ∃ t, token = some t ∧ presented r = some t
  | .session t => presented r = some t ∧
      ∃ now past, .admitted l r (.session t) now :: past <:+ log ∧ Good sha256 t now past

/-- Each session was granted, and has twelve hours from a use of its token. -/
def Backed (ss : Sessions) (log : List Event) : Prop :=
  ∀ x ∈ ss, (∃ u who device, .granted x.token u who device ∈ log ∧
      who.verified sha256 device = true) ∧
    ∃ e ∈ log, ∃ u, e.uses x.token u ∧ x.expiresAt = u + SESSION_TTL

/-- Everything that was let in had a reason, and so has everything that waits. -/
structure Inv (token : Option String) (listeners : List Listener) (s : State) : Prop where
  own : s.token = token
  sessions : Backed sha256 s.sessions s.log
  gate : ∀ key l r w, s.tasks key = some (.gate l r w) →
    l ∈ listeners ∧ w.Holds sha256 token l r s.log
  stage : s.stage ≠ .starting → s.collected = true
  reached : ∀ past l r h c, .reached l r h c :: past <:+ s.log → l ∈ listeners ∧
    (∃ w : Pass, w.Holds sha256 token l r past) ∧ route l.openAuthRoutes r = some h ∧
      (r.path ∈ GATE_OPEN ∨ c = true)

variable {sha256}

theorem Pass.Holds.cons {token : Option String} {l : Listener} {r : HttpRequest}
    {log : List Event} {w : Pass} (h : w.Holds sha256 token l r log) (e : Event) :
    w.Holds sha256 token l r (e :: log) := by
  cases w with
  | unasked => exact h
  | openPath => exact h
  | static => exact h
  | session t =>
    obtain ⟨hp, now, past, hsuffix, hgood⟩ := h
    exact ⟨hp, now, past, hsuffix.trans (List.suffix_cons _ _), hgood⟩

theorem constantTimeEq_iff {a b : String} :
    constantTimeEq (utf8 a) (utf8 b) = true ↔ a = b := secureEq_iff

theorem staticTokenValid_iff {token value : Option String} :
    staticTokenValid token value = true ↔ ∃ t, token = some t ∧ value = some t := by
  cases token with
  | none => simp [staticTokenValid]
  | some wanted =>
    cases value with
    | none => simp [staticTokenValid]
    | some v =>
      rw [staticTokenValid, Option.any_some, Option.any_some, constantTimeEq_iff]
      constructor
      · rintro rfl
        exact ⟨v, rfl, rfl⟩
      · rintro ⟨t, ht, hv⟩
        rw [Option.some.inj ht, Option.some.inj hv]

/-- A renewed session is one that was there, or has twelve hours from now. -/
theorem mem_renewed {token : String} {now : Nat} {ss ss' : Sessions}
    (h : renew token now ss = some ss') {x : Auth.Session}
    (hx : x ∈ ss') :
    x ∈ ss ∨ (x.token = token ∧ x.expiresAt = now + SESSION_TTL ∧ ∃ y ∈ ss, y.token = token) := by
  induction ss generalizing ss' with
  | nil => cases h
  | cons y ss ih =>
    rw [renew] at h
    split at h
    · rename_i heq
      rw [secureEq_iff] at heq
      cases h
      rcases List.mem_cons.mp hx with rfl | hx
      · exact Or.inr ⟨heq, rfl, y, List.mem_cons_self, heq⟩
      · exact Or.inl (List.mem_cons_of_mem _ hx)
    · rw [Option.map_eq_some_iff] at h
      obtain ⟨rest, hrest, rfl⟩ := h
      rcases List.mem_cons.mp hx with rfl | hx
      · exact Or.inl List.mem_cons_self
      · rcases ih hrest hx with hx | ⟨ht, he, y', hy', hyt⟩
        · exact Or.inl (List.mem_cons_of_mem _ hx)
        · exact Or.inr ⟨ht, he, y', List.mem_cons_of_mem _ hy', hyt⟩

/-- The session of a token that is let in. -/
theorem renew_session {token : String} {now : Nat} {ss ss' : Sessions}
    (h : renew token now ss = some ss') : ∃ y ∈ ss, y.token = token := by
  by_contra hno
  have hnone : renew token now ss = none :=
    renew_eq_none.mpr fun y hy ht => hno ⟨y, hy, ht⟩
  rw [hnone] at h
  cases h

theorem Backed.cons {ss : Sessions} {log : List Event} (h : Backed sha256 ss log) (e : Event) :
    Backed sha256 ss (e :: log) := by
  intro x hx
  obtain ⟨⟨u, who, device, hmem, hv⟩, e', he', u', huse⟩ := h x hx
  exact ⟨⟨u, who, device, List.mem_cons_of_mem _ hmem, hv⟩, e', List.mem_cons_of_mem _ he', u',
    huse⟩

theorem Backed.mono {ss ss' : Sessions} {log : List Event} (h : Backed sha256 ss log)
    (hs : ∀ x ∈ ss', x ∈ ss) : Backed sha256 ss' log := fun x hx => h x (hs x hx)

theorem Backed.validate_false {ss : Sessions} {log : List Event} (h : Backed sha256 ss log)
    {t : String} {now : Nat} (hv : (ss.validate t now).1 = false) :
    Backed sha256 (ss.validate t now).2 log := by
  unfold Sessions.validate at hv ⊢
  dsimp only at hv ⊢
  split at hv
  · cases hv
  · exact h.mono fun x hx => (retain_sublist ss fun _ => now).subset hx

/-- **A token that is let in** was granted and is in use, and its session goes on from there. -/
theorem Backed.validate_true {ss : Sessions} {log : List Event} (h : Backed sha256 ss log)
    {t : String} {now : Nat} (hv : (ss.validate t now).1 = true) (l : Listener)
    (r : HttpRequest) :
    Good sha256 t now log ∧
      Backed sha256 (ss.validate t now).2 (.admitted l r (.session t) now :: log) := by
  unfold Sessions.validate at hv ⊢
  dsimp only at hv ⊢
  split at hv
  · rename_i renewed hrenew
    have hkept : ∀ x ∈ ss.retain fun _ => now, x ∈ ss ∧ now < x.expiresAt := fun x hx =>
      mem_retain.mp hx
    have hgood : ∀ x ∈ ss.retain fun _ => now, Good sha256 x.token now log := by
      intro x hx
      obtain ⟨hmem, hlt⟩ := hkept x hx
      obtain ⟨hgranted, e, he, u, huse, hexp⟩ := h x hmem
      exact ⟨hgranted, e, he, u, huse, hexp ▸ hlt⟩
    obtain ⟨y, hy, rfl⟩ := renew_session hrenew
    refine ⟨hgood y hy, fun x hx => ?_⟩
    rcases mem_renewed hrenew hx with hx | ⟨ht, hexp, -⟩
    · exact h.cons _ x (hkept x hx).1
    · obtain ⟨u, who, device, hmem, hver⟩ := (hgood y hy).granted
      rw [ht]
      exact ⟨⟨u, who, device, List.mem_cons_of_mem _ hmem, hver⟩, _, List.mem_cons_self, now,
        ⟨rfl, rfl⟩, hexp⟩
  · cases hv

theorem Backed.issue {ss : Sessions} {log : List Event} (h : Backed sha256 ss log)
    {t : String} {now : Nat} (look : String → Nat) {who : Credentials}
    {device : Invocation → Except String Value} (hv : who.verified sha256 device = true) :
    Backed sha256 (ss.issue t now look).2 (.granted t now who device :: log) := by
  intro x hx
  rcases List.mem_append.mp hx with hx | hx
  · refine h.cons _ x ((retain_sublist ss look).subset ?_)
    unfold Sessions.evict at hx
    split at hx
    · exact (List.eraseIdx_sublist _ _).subset hx
    · exact hx
  · rw [List.mem_singleton.mp hx]
    exact ⟨⟨now, who, device, List.mem_cons_self, hv⟩, _, List.mem_cons_self, now, ⟨rfl, rfl⟩, rfl⟩

/-! ### Runs -/

variable {token : Option String} {listeners : List Listener} {s s' : State}

theorem suffix_record {α : Type} {e x : α} {past log : List α} (h : x :: past <:+ e :: log) :
    (x = e ∧ past = log) ∨ x :: past <:+ log := by
  rcases List.suffix_cons_iff.mp h with h | h
  · exact Or.inl (List.cons.inj h)
  · exact Or.inr h

/-- A task is put or taken away. -/
theorem Inv.setTask (h : Inv sha256 token listeners s) (key : Nat) (task : Option Task)
    (htask : ∀ l r w, task = some (.gate l r w) →
      l ∈ listeners ∧ w.Holds sha256 token l r s.log) :
    Inv sha256 token listeners (s.setTask key task) :=
  { h with
    gate := fun k l r w hk => by
      change (if k = key then task else s.tasks k) = _ at hk
      split at hk
      · exact htask l r w hk
      · exact h.gate k l r w hk }

/-- Something happens, with what it does to the sessions and to a task. -/
theorem Inv.after (h : Inv sha256 token listeners s) {ss : Sessions} {e : Event}
    (hss : Backed sha256 ss (e :: s.log)) (key : Nat) (task : Option Task)
    (htask : ∀ l r w, task = some (.gate l r w) →
      l ∈ listeners ∧ w.Holds sha256 token l r (e :: s.log))
    (he : ∀ l r h' c, e = .reached l r h' c → l ∈ listeners ∧
      (∃ w : Pass, w.Holds sha256 token l r s.log) ∧ route l.openAuthRoutes r = some h' ∧
        (r.path ∈ GATE_OPEN ∨ c = true)) :
    Inv sha256 token listeners (({ s with sessions := ss }.setTask key task).record e) where
  own := h.own
  sessions := hss
  gate k l r w hk := by
    change (if k = key then task else s.tasks k) = _ at hk
    split at hk
    · exact htask l r w hk
    · exact (h.gate k l r w hk).imp_right fun hw => hw.cons e
  stage := h.stage
  reached past l r h' c hsuffix := by
    rcases suffix_record hsuffix with ⟨heq, rfl⟩ | hsuffix
    · exact he l r h' c heq.symm
    · exact h.reached past l r h' c hsuffix

theorem inv_start (token : Option String) (listeners : List Listener) :
    Inv sha256 token listeners { token } where
  own := rfl
  sessions := nofun
  gate := nofun
  stage h := absurd rfl h
  reached _ _ _ _ _ hsuffix := absurd (List.suffix_nil.mp hsuffix) (List.cons_ne_nil _ _)

/-- What `authenticate` lets in, it has a reason for. -/
theorem Inv.authenticate (h : Inv sha256 token listeners s) {l : Listener} {r : HttpRequest}
    {now : Nat} {w : Pass} {ss : Sessions}
    (ha : authenticate s.token s.sessions r now = (some w, ss)) :
    Backed sha256 ss (.admitted l r w now :: s.log) ∧
      w.Holds sha256 token l r (.admitted l r w now :: s.log) := by
  unfold Access.authenticate at ha
  split at ha
  · rename_i hopen
    cases ha
    exact ⟨h.sessions.cons _, hopen⟩
  · split at ha
    · rename_i hstatic
      cases ha
      rw [h.own] at hstatic
      exact ⟨h.sessions.cons _, staticTokenValid_iff.mp hstatic⟩
    · split at ha
      · rename_i value hpresented
        dsimp only at ha
        cases hv : (s.sessions.validate value now).1 with
        | false =>
          rw [hv] at ha
          cases ha
        | true =>
          rw [hv] at ha
          cases ha
          obtain ⟨hgood, hbacked⟩ := h.sessions.validate_true hv l r
          exact ⟨hbacked, hpresented, now, s.log, List.suffix_rfl, hgood⟩
      · cases ha

theorem backed_refused (h : Inv sha256 token listeners s) {r : HttpRequest} {now : Nat}
    {ss : Sessions} (ha : authenticate s.token s.sessions r now = (none, ss)) :
    Backed sha256 ss s.log := by
  unfold authenticate at ha
  split at ha
  · cases ha
  · split at ha
    · cases ha
    · split at ha
      · rename_i value _
        dsimp only at ha
        cases hv : (s.sessions.validate value now).1 with
        | false =>
          rw [hv] at ha
          cases ha
          exact h.sessions.validate_false hv
        | true =>
          rw [hv] at ha
          cases ha
      · cases ha
        exact h.sessions

theorem Inv.next (h : Inv sha256 token listeners s) {a : Act}
    (hs : Access.next sha256 listeners s a = some s') : Inv sha256 token listeners s' := by
  cases a with
  | arrive key l r now =>
    simp only [Access.next] at hs
    split at hs
    · rename_i hl
      split at hs
      · rename_i w ss hadmit
        cases hs
        have hlet : Backed sha256 ss (.admitted l r w now :: s.log) ∧
            w.Holds sha256 token l r (.admitted l r w now :: s.log) := by
          unfold State.admit at hadmit
          split at hadmit
          · exact h.authenticate hadmit
          · rename_i hasks
            cases hadmit
            exact ⟨h.sessions.cons _, by simpa [Pass.Holds] using hasks⟩
        refine h.after hlet.1 key _ (fun l' r' w' hw' => ?_) (fun l' r' h' c hr => nomatch hr)
        cases hw'
        exact ⟨hl.1, hlet.2⟩
      · rename_i ss hadmit
        cases hs
        have hrefused : Backed sha256 ss s.log := by
          unfold State.admit at hadmit
          split at hadmit
          · exact backed_refused h hadmit
          · cases hadmit
        exact { h with sessions := hrefused }
    · cases hs
  | pass key =>
    simp only [Access.next] at hs
    split at hs
    · rename_i l r w htask
      obtain ⟨hl, hw⟩ := h.gate key l r w htask
      split at hs
      · rename_i hgate
        split at hs
        · rename_i handler hroute
          cases hs
          refine h.after (h.sessions.cons _) key _ (fun l' r' w' hw' => ?_)
            fun l' r' h' c hr => ?_
          · rw [Option.map_eq_some_iff] at hw'
            obtain ⟨who, -, hwho⟩ := hw'
            cases hwho
          · cases hr
            exact ⟨hl, ⟨w, hw⟩, hroute, hgate.imp_right h.stage⟩
        · cases hs
          exact h.setTask key none nofun
      · cases hs
    · cases hs
  | giveUp key =>
    simp only [Access.next] at hs
    split at hs
    · cases hs
      exact h.setTask key none nofun
    · cases hs
  | verified key device t now look =>
    simp only [Access.next] at hs
    split at hs
    · rename_i who htask
      split at hs
      · rename_i fresh hver
        cases hs
        exact h.after (h.sessions.issue look hver) key none nofun nofun
      · cases hs
        exact h.setTask key none nofun
    · cases hs
  | store =>
    cases hs
    exact { h with stage := fun _ => rfl }
  | announce =>
    simp only [Access.next] at hs
    split at hs
    · rename_i hcollected
      cases hs
      exact { h with stage := fun _ => hcollected.1 }
    · cases hs
  | finish =>
    simp only [Access.next] at hs
    split at hs
    · rename_i hstage
      cases hs
      exact { h with stage := fun _ => h.stage (by rw [hstage]; nofun) }
    · cases hs

theorem Inv.of_run (hrun : Exec (Access.next sha256 listeners) (fun _ _ => True) { token } s) :
    Inv sha256 token listeners s :=
  hrun.invariant (Inv sha256 token listeners) (fun h _ hs => h.next hs) (inv_start token listeners)

end

/-! ### Listeners and handlers -/

/-- **A listener that others can reach asks for a token.** -/
theorem Args.listeners_loopback {args : Args} {ls : List Listener} (h : args.listeners = .ok ls)
    {l : Listener} (hl : l ∈ ls) (hasks : l.requireAuth = false) :
    l.addr.ip.isLoopback = true := by
  unfold listeners at h
  dsimp only at h
  split at h
  · cases h
  · rename_i addr hbind
    split at h
    · cases h
    · rename_i hvalid
      have hlocal : (args.lanBind.isNone && args.token.isSome) = false →
          addr.ip.isLoopback = true := by
        intro hfalse
        rw [hfalse] at hvalid
        by_contra hno
        rw [Bool.not_eq_true] at hno
        simp [validateListenerSecurity, hno] at hvalid
      split at h
      · cases h
        rw [List.mem_singleton.mp hl] at hasks ⊢
        exact hlocal hasks
      · cases h
      · rename_i lan hlan
        cases h
        rcases List.mem_cons.mp hl with rfl | hl
        · exact hlocal (by rw [hlan]; rfl)
        · rw [List.mem_singleton.mp hl] at hasks
          cases hasks

/-- A handler has its path. -/
theorem route_mem {openAuthRoutes : Bool} {r : HttpRequest} {h : Handler}
    (hr : route openAuthRoutes r = some h) : ∃ post, (r.path, post, h) ∈ ROUTES ++ AUTH_ROUTES := by
  have hmem : ∀ x ∈ (if openAuthRoutes then ROUTES ++ AUTH_ROUTES else ROUTES),
      x ∈ ROUTES ++ AUTH_ROUTES := by
    intro x hx
    split at hx
    · exact hx
    · exact List.mem_append_left _ hx
  unfold route at hr
  dsimp only at hr
  split at hr
  · rename_i path h' hfind
    have hpath := List.find?_some hfind
    have hin := hmem _ (List.mem_of_find?_eq_some hfind)
    split at hr
    · cases hr
      rw [decide_eq_true_iff] at hpath
      exact ⟨true, hpath ▸ hin⟩
    · cases hr
  · rename_i path h' hfind
    have hpath := List.find?_some hfind
    have hin := hmem _ (List.mem_of_find?_eq_some hfind)
    split at hr
    · cases hr
      rw [decide_eq_true_iff] at hpath
      exact ⟨false, hpath ▸ hin⟩
    · cases hr
  · cases hr

/-- Handlers that answer anybody. -/
def Handler.isOpen : Handler → Bool
  | .index | .health | .authLogin | .authExchange => true
  | _ => false

/-- Handlers that answer with what was read of the device. -/
def Handler.reads : Handler → Bool
  | .v2Events | .v2State | .v2Screen => true
  | _ => false

theorem open_of_path : ∀ x ∈ ROUTES ++ AUTH_ROUTES, x.1 ∈ AUTH_OPEN → x.2.2.isOpen = true := by
  decide

theorem waits_of_reads : ∀ x ∈ ROUTES ++ AUTH_ROUTES, x.2.2.reads = true → x.1 ∉ GATE_OPEN := by
  decide

/-! ### A login from the LAN -/

/-- A listener on the LAN, and no token in a file. -/
def lanArgs : Args := { lanBind := some (some ⟨.v4 192 168 0 1, 9461⟩) }

def lanListener : Listener := ⟨⟨.v4 192 168 0 1, 9461⟩, true, true⟩

/-- The device knows the token of its own page. -/
def webDevice (i : Invocation) : Except String Value :=
  if i.method = "webtoken_check" then .ok (.obj [("result", .num (.int 0))]) else .error "Not found"

def exchange : HttpRequest :=
  { method := .post
    path := "/auth/exchange"
    headers := fun name => if name = "x-web-token" then some (some "web") else none
    peer := "192.168.0.7" }

def askState : HttpRequest :=
  { method := .get
    path := "/v2/state"
    query := some "access_token=0f" }

/-- A login, and what it is for.  No password is looked at in it. -/
def lanRun : List Act :=
  [.arrive 0 lanListener exchange 100, .pass 0,
    .verified 0 webDevice (some "0f") 101 (fun _ => 101), .store, .announce,
    .arrive 0 lanListener askState 200, .pass 0]

/-- The last to be answered was asked for the state. -/
def stateReached (s : State) : Bool :=
  match s.log with
  | .reached l _ .v2State _ :: _ => l.requireAuth
  | _ => false

theorem lanRun_reaches : ∃ s past l r c,
    Exec (next (fun bs => bs) [⟨⟨.v4 127 0 0 1, 9460⟩, false, false⟩, lanListener])
      (fun _ _ => True) { token := lanArgs.token } s ∧
    .reached l r .v2State c :: past <:+ s.log ∧ l.requireAuth = true := by
  have hrun : (run (next (fun bs => bs) [⟨⟨.v4 127 0 0 1, 9460⟩, false, false⟩, lanListener])
      (fun _ _ => true) { token := lanArgs.token } lanRun).any stateReached = true := by
    decide
  obtain ⟨s, hs, hp⟩ := Exec.exists_of_run (fun _ _ _ => trivial) (.refl _) hrun
  unfold stateReached at hp
  split at hp
  · rename_i l r c past hlog
    exact ⟨s, past, l, r, c, hs, by rw [hlog], hp⟩
  · cases hp

/-! ### The whole process -/

section

variable (sha256 : List UInt8 → List UInt8) (args : Args) (listeners : List Listener) (s : State)

/-- **No handler is reached without proof**, but the open ones and on loopback: it takes the
    token of the file, or one that was granted to somebody for whom the device had vouched and
    that was in use less than twelve hours before. -/
theorem reached_proven (hargs : args.listeners = .ok listeners)
    (hrun : Exec (next sha256 listeners) (fun _ _ => True) { token := args.token } s)
    (past : List Event) (l : Listener) (r : HttpRequest) (h : Handler) (collected : Bool)
    (hreached : .reached l r h collected :: past <:+ s.log) :
    h.isOpen = true ∨ (l.requireAuth = false ∧ l.addr.ip.isLoopback = true) ∨
      ∃ t, presented r = some t ∧ (args.token = some t ∨
        ∃ now before, .admitted l r (.session t) now :: before <:+ past ∧
          Good sha256 t now before) := by
  obtain ⟨hl, ⟨w, hw⟩, hroute, -⟩ := (Inv.of_run hrun).reached past l r h collected hreached
  obtain ⟨post, hmem⟩ := route_mem hroute
  cases w with
  | unasked => exact Or.inr (Or.inl ⟨hw, Args.listeners_loopback hargs hl hw⟩)
  | openPath => exact Or.inl (open_of_path _ hmem hw)
  | static =>
    obtain ⟨t, ht, hp⟩ := hw
    exact Or.inr (Or.inr ⟨t, hp, Or.inl ht⟩)
  | session t => exact Or.inr (Or.inr ⟨t, hw.1, Or.inr hw.2⟩)

omit sha256 args listeners s in
theorem reached_proven_lan : ∃ (s : State) (past : List Event) (l : Listener) (r : HttpRequest)
    (c : Bool), .reached l r .v2State c :: past <:+ s.log ∧ l.requireAuth = true ∧
      ∃ t now before, presented r = some t ∧ .admitted l r (.session t) now :: before <:+ past ∧
        Good (fun bs => bs) t now before := by
  obtain ⟨s, past, l, r, c, hs, hreached, hasks⟩ := lanRun_reaches
  refine ⟨s, past, l, r, c, hreached, hasks, ?_⟩
  rcases reached_proven (fun bs => bs) lanArgs _ s rfl hs past l r .v2State c hreached with
    h | ⟨h, -⟩ | ⟨t, ht, h | ⟨now, before, hadmitted, hgood⟩⟩
  · cases h
  · rw [hasks] at h
    cases h
  · cases h
  · exact ⟨t, now, before, ht, hadmitted, hgood⟩

/-- **The placeholder is shown to nobody**: what is read of the device is not answered before
    the first round. -/
theorem reached_collected
    (hrun : Exec (next sha256 listeners) (fun _ _ => True) { token := args.token } s)
    (past : List Event) (l : Listener) (r : HttpRequest) (h : Handler) (collected : Bool)
    (hreached : .reached l r h collected :: past <:+ s.log) (hreads : h.reads = true) :
    collected = true := by
  obtain ⟨-, -, hroute, hgate⟩ := (Inv.of_run hrun).reached past l r h collected hreached
  obtain ⟨post, hmem⟩ := route_mem hroute
  rcases hgate with hgate | hgate
  · exact absurd hgate (waits_of_reads _ hmem hreads)
  · exact hgate

omit sha256 args listeners s in
theorem reached_collected_lan : ∃ (s : State) (past : List Event) (l : Listener) (r : HttpRequest),
    .reached l r .v2State true :: past <:+ s.log := by
  obtain ⟨s, past, l, r, c, hs, hreached, -⟩ := lanRun_reaches
  have hcollected := reached_collected (fun bs => bs) lanArgs _ s hs past l r .v2State c hreached
    rfl
  exact ⟨s, past, l, r, hcollected ▸ hreached⟩

end

end Access

end Datad
