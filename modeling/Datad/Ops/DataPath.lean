/-
  Datad/Ops/DataPath.lean
  =======================
  **The reading of the data path** (`data_path` and `UbusDevice::data` of `ops/mod.rs`) and
  what the rule for new connections makes of it.

  netifd says for how many whole seconds a connection has been up, and the clock is read
  after all replies are in.  The start that `dataPath` works out from the two is therefore
  never early, and late by what the seconds left off and by the time since the reply
  (`late`).  `Conn.same` allows for that, `Txn.newConn` does not: a connection that came up
  less than this before the write passes for one made after it (`newConn_exact`).
-/
import Datad.JsonText
import Datad.Lib.Finding
import Datad.Ops.TxnConfirm
import Datad.Sms.ListAfter

namespace Datad

def Value.asBool : Value → Option Bool
  | .bool b => some b
  | _ => none

namespace UbusDevice

open Finding

variable (ryu : Ryu)

/-! ### The replies -/

def text (v : Value) (key : String) : String :=
  match v.get key with
  | some (.str s) => s
  | some (.num n) => String.ofList (Value.numText ryu n)
  | _ => ""

def roaming (net : Value) : Option Bool :=
  let r := text ryu net "simcard_roam"
  if r = "" then none else some (decide (r ≠ "Home" ∧ r ≠ "home" ∧ r ≠ "0"))

def connected (status : String) : Bool :=
  "connected".toList.isSuffixOf status.toList && !contains "disconnect" status.toList

def flag (v : Value) (key : String) : Option Bool :=
  match (v.get key).bind Value.asBool with
  | some b => some b
  | none =>
      let t := text ryu v key
      if t = "1" ∨ t = "true" then some true
      else if t = "0" ∨ t = "false" then some false
      else none

/-- `enable` is 0 after a start although the firmware dials by itself, so 0 is off only
    where the status says so. -/
def dataSwitch (wwan : Value) : Option Bool :=
  match flag ryu wwan "enable" with
  | none => none
  | some true => some true
  | some false =>
      let status := text ryu wwan "connect_status"
      if status = "" then none else some (connected status || decide (status = "connecting"))

def strings (v : Value) (key : String) : List String :=
  (((v.get key).bind Value.asArray).getD []).filterMap Value.asStr

def firstAddress (v : Value) (key : String) : String :=
  match ((v.get key).bind Value.asArray).bind List.head? with
  | some a => text ryu a "address"
  | none => ""

/-! ### The data path -/

def expected (net wwan : Value) : Option Bool :=
  match dataSwitch ryu wwan, flag ryu wwan "roam_enable", roaming ryu net with
  | some false, _, _ => some false
  | some true, _, some false => some true
  | some true, some roamOn, some true => some roamOn
  | _, _, _ => none

/-- The milliseconds are a `u64`, and so is their product. -/
def upSince (v : Value) (nowMs : Nat) : Option Nat :=
  ((v.get "uptime").bind Value.asU64).map fun secs => nowMs - secs * 1000 % 18446744073709551616

/-- `uci` writes the servers in quotes, or with blanks between them. -/
def uciServers (s : String) : List String :=
  ((s.toList.splitOnP fun c => decide (c = '\'') || Sms.isWhitespace c).filter
    fun w => decide (w ≠ [])).map String.ofList

def orElse (a b : String) : String := if a = "" then b else a

/-- The reading where the connection has only an IPv6 address. -/
def path6 (net wwan wan6 : Value) (nowMs : Nat) : DataPath where
  expected := expected ryu net wwan
  connected := connected (text ryu wwan "connect_status")
  conn := { ipv6 := firstAddress ryu wan6 "ipv6-address", upSinceMs := upSince wan6 nowMs }
  iface := orElse (text ryu wwan "ipv6_dev_name") (text ryu wan6 "l3_device")
  dns :=
    match strings wan6 "dns-server" with
    | [] => (["ipv6_dns_prefer", "ipv6_dns_standby"].map (text ryu wwan)).filter
        fun s => decide (s ≠ "")
    | servers => servers

def path4 (net wwan wan : Value) (uciDns : Option String) (nowMs : Nat) : DataPath where
  expected := expected ryu net wwan
  connected := connected (text ryu wwan "connect_status")
  conn := { ipv4 := firstAddress ryu wan "ipv4-address", upSinceMs := upSince wan nowMs }
  iface := orElse (text ryu wwan "ipv4_dev_name") (text ryu wan "l3_device")
  dns :=
    match strings wan "dns-server" with
    | [] => uciServers (uciDns.getD "")
    | servers => servers

def dataPath (net wwan wan : Value) (wan6 : Option Value) (uciDns : Option String)
    (nowMs : Nat) : DataPath :=
  match wan6 with
  | some w =>
      if firstAddress ryu wan "ipv4-address" = "" ∧ firstAddress ryu w "ipv6-address" ≠ "" then
        path6 ryu net wwan w nowMs
      else path4 ryu net wwan wan uciDns nowMs
  | none => path4 ryu net wwan wan uciDns nowMs

/-- `UbusDevice::data` with the replies to its calls, `none` for a call that fails.
    `wan6` is asked only where `wan` has no IPv4 address, `uci` only where it has no
    servers; the clock is read last. -/
def data (net : Value) (wwan wan wan6 : Option Value) (uciDns : String) (nowMs : Nat) :
    Option DataPath :=
  match wwan with
  | none => none
  | some wwan =>
      let hasIpv4 := wan.any fun w => decide (firstAddress ryu w "ipv4-address" ≠ "")
      let only6 := if hasIpv4 then none
        else wan6.filter fun w => decide (firstAddress ryu w "ipv6-address" ≠ "")
      match only6, wan with
      | some w, wan => some (dataPath ryu net wwan (wan.getD (.obj [])) (some w) none nowMs)
      | none, none => none
      | none, some wan =>
          let noDns := ((wan.get "dns-server").bind Value.asArray).all List.isEmpty
          some (dataPath ryu net wwan wan none (if noDns then some uciDns else none) nowMs)

/-! ### Whose seconds are counted -/

/-- The status that the connection is taken from. -/
def status (wan : Value) : Option Value → Value
  | some w =>
      if firstAddress ryu wan "ipv4-address" = "" ∧ firstAddress ryu w "ipv6-address" ≠ "" then w
      else wan
  | none => wan

theorem dataPath_upSinceMs (net wwan wan : Value) (wan6 : Option Value)
    (uciDns : Option String) (nowMs : Nat) :
    (dataPath ryu net wwan wan wan6 uciDns nowMs).conn.upSinceMs =
      upSince (status ryu wan wan6) nowMs := by
  cases wan6 with
  | none => rfl
  | some w =>
      rw [dataPath, status]
      split_ifs
      · rfl
      · rfl

/-- Every reading is built by `dataPath`, with the clock as it is after the replies. -/
theorem data_eq {net : Value} {wwan wan wan6 : Option Value} {uciDns : String} {nowMs : Nat}
    {d : DataPath} (h : data ryu net wwan wan wan6 uciDns nowMs = some d) :
    ∃ v w only6 dns, wwan = some v ∧ d = dataPath ryu net v w only6 dns nowMs := by
  unfold data at h
  cases wwan with
  | none => cases h
  | some v =>
      dsimp only at h
      split at h
      · cases h
        exact ⟨v, _, _, _, rfl, rfl⟩
      · cases h
      · cases h
        exact ⟨v, _, _, _, rfl, rfl⟩

/-- By how much a start worked out from whole seconds is late: what the seconds left off,
    and the time since they were read. -/
def late (since seen nowMs : Nat) : Nat := (seen - since) % 1000 + (nowMs - seen)

theorem upSince_late {v : Value} {since seen nowMs : Nat} (hsince : since ≤ seen)
    (hseen : seen ≤ nowMs) (hnow : nowMs < 18446744073709551616)
    (hup : v.get "uptime" = some (.num (.int ((seen - since) / 1000 : Nat)))) :
    upSince v nowMs = some (since + late since seen nowMs) := by
  have hsecs : Value.asU64 (.num (.int ((seen - since) / 1000 : Nat))) =
      some ((seen - since) / 1000) := by
    have hrange : 0 ≤ (((seen - since) / 1000 : Nat) : Int) ∧
        (((seen - since) / 1000 : Nat) : Int) < 18446744073709551616 := by
      constructor
      · omega
      · omega
    rw [Value.asU64, if_pos hrange]
    rfl
  have hfit : (seen - since) / 1000 * 1000 < 18446744073709551616 := by omega
  have hstart : nowMs - (seen - since) / 1000 * 1000 = since + late since seen nowMs := by
    rw [late]
    omega
  rw [upSince, hup, Option.bind_some, hsecs, Option.map_some, Nat.mod_eq_of_lt hfit, hstart]

end UbusDevice

/-! ### The rule for new connections -/

namespace Txn

open UbusDevice

variable (ryu : Ryu)

/-- Where the address says nothing, only the start counts. -/
theorem newConn_upSince {t : Txn} {c : Conn} {start : Nat} (href : 0 < t.refMs)
    (haddr : ∀ ref, t.refConn = some ref → ref.addr = c.addr) (hup : c.upSinceMs = some start) :
    t.newConn c = true ↔ t.refMs < start := by
  rw [newConn_iff]
  constructor
  · intro h
    rcases h with h | ⟨ref, href', hne⟩ | ⟨since, hsince, hlt⟩
    · omega
    · exact absurd (haddr ref href').symm hne
    · rw [hup] at hsince
      cases hsince
      exact hlt
  · intro h
    exact .inr (.inr ⟨start, hup, h⟩)

/-- An APN is confirmed, or its rollback, only over a connection that the rule accepts. -/
theorem newConn_of_confirmed {t : Txn} {r : Reading} {d : DataPath} {clock : Nat}
    (hapn : t.confirm = .apn) (hi : t.intent = none) (hd : r.data = some d)
    (he : d.expected = some true)
    (h : (t.phase = .verifying ∧ (t.onReading r clock).1.phase = .confirmed ∧
        (t.onReading r clock).1.reason = some .verified) ∨
      (t.phase = .rollingBack ∧ (t.onReading r clock).1.phase = .rolledBack)) :
    t.newConn d.conn = true := by
  have hok : (t.dataJudge r).2 = .ok := by
    rcases h with ⟨hp, hend⟩ | ⟨hp, hend⟩
    · exact ((onReading_confirmed_iff t r clock hi hp).mp hend).2
    · have hj := ((onReading_rolledBack_iff t r clock hi hp).mp hend).2
      have hno : (t.dataJudge r).2 ≠ .apnNoData := by
        intro hn
        obtain ⟨-, -, -, -, hv⟩ := (dataJudge_apnNoData_iff t r).mp hn
        rw [hp] at hv
        cases hv
      cases hj' : (t.dataJudge r).2 with
      | ok => rfl
      | apnNoData => exact absurd hj' hno
      | notYet => exact absurd hj' hj
  obtain ⟨d', hd', hup⟩ := (dataJudge_ok_iff t r).mp hok
  rw [hd] at hd'
  cases hd'
  rcases hup with ⟨hf, -⟩ | hup
  · rw [he] at hf
    cases hf
  · exact (newConn_iff t d.conn).mpr (hup.fresh hapn)

/-- **When an old connection is told from a new one.**  The connection came up at `since`,
    its seconds were read at `seen` and the clock at `nowMs`.  It is never accepted in
    place of a new one exactly if it was made after the write, or so long before it that
    what the seconds leave off and the time since the reply do not reach the write.  Then
    no APN is confirmed over it, and no rollback of one. -/
theorem newConn_exact (net wwan wan : Value) (wan6 : Option Value) (uciDns : Option String)
    (t : Txn) (since seen nowMs : Nat) (hsince : since ≤ seen) (hseen : seen ≤ nowMs)
    (hnow : nowMs < 18446744073709551616)
    (hup : (status ryu wan wan6).get "uptime" = some (.num (.int ((seen - since) / 1000 : Nat))))
    (href : 0 < t.refMs)
    (haddr : ∀ ref, t.refConn = some ref →
      ref.addr = (dataPath ryu net wwan wan wan6 uciDns nowMs).conn.addr) :
    ((t.newConn (dataPath ryu net wwan wan wan6 uciDns nowMs).conn = true → t.refMs < since) ↔
      (since ≤ t.refMs → late since seen nowMs ≤ t.refMs - since)) ∧
    ((since ≤ t.refMs → late since seen nowMs ≤ t.refMs - since) →
      ∀ r clock, t.confirm = .apn → t.intent = none →
        r.data = some (dataPath ryu net wwan wan wan6 uciDns nowMs) →
        (dataPath ryu net wwan wan wan6 uciDns nowMs).expected = some true →
        (t.phase = .verifying ∧ (t.onReading r clock).1.phase = .confirmed ∧
            (t.onReading r clock).1.reason = some .verified) ∨
          (t.phase = .rollingBack ∧ (t.onReading r clock).1.phase = .rolledBack) →
        t.refMs < since) := by
  have hstart : (dataPath ryu net wwan wan wan6 uciDns nowMs).conn.upSinceMs =
      some (since + late since seen nowMs) := by
    rw [dataPath_upSinceMs]
    exact upSince_late hsince hseen hnow hup
  have hnew := newConn_upSince href haddr hstart
  have hiff : (t.newConn (dataPath ryu net wwan wan wan6 uciDns nowMs).conn = true →
      t.refMs < since) ↔ (since ≤ t.refMs → late since seen nowMs ≤ t.refMs - since) := by
    rw [hnew]
    constructor
    · intro h hle
      by_contra hlt
      exact absurd (h (by omega)) (by omega)
    · intro h hlt
      by_contra hle
      have := h (by omega)
      omega
  constructor
  · exact hiff
  · intro hlate r clock hapn hi hd he hend
    exact hiff.mpr hlate (newConn_of_confirmed hapn hi hd he hend)

/-- The write of an APN, sent at 1500. -/
def apnTxn : Txn := (started { sampleNew with confirm := .apn } 1500 true).applied .done 1600

def homeNet : Value := .obj [("simcard_roam", .str "Home")]

def wwanUp : Value :=
  .obj [("connect_status", .str "ipv4_connected"), ("enable", .num (.int 1)),
    ("ipv4_dev_name", .str "rmnet_data0"), ("roam_enable", .num (.int 0))]

/-- Up for one whole second. -/
def wanUp : Value :=
  .obj [("dns-server", .arr [.str "10.0.0.1"]),
    ("ipv4-address", .arr [.obj [("address", .str "10.0.0.7")]]), ("uptime", .num (.int 1))]

def pathAt (nowMs : Nat) : DataPath :=
  dataPath (fun _ => []) homeNet wwanUp wanUp none none nowMs

def readingAt (nowMs : Nat) : Reading := { sampleConfirming with data := some (pathAt nowMs) }

theorem newConn_exact_sample :
    apnTxn.newConn (pathAt 3100).conn = true ∧
      (apnTxn.onReading (readingAt 3100) 3100).1.phase = .confirmed ∧ apnTxn.refMs < 2000 := by
  have hend : (apnTxn.onReading (readingAt 3100) 3100).1.phase = .confirmed ∧
      (apnTxn.onReading (readingAt 3100) 3100).1.reason = some .verified := by decide +kernel
  refine ⟨by decide +kernel, hend.1, ?_⟩
  exact (newConn_exact (fun _ => []) homeNet wwanUp wanUp none none apnTxn 2000 3100 3100
    (by decide) (by decide) (by decide) rfl (by decide) nofun).2 (by decide) (readingAt 3100) 3100
    rfl rfl rfl (by decide +kernel) (.inl ⟨rfl, hend⟩)

/-- The connection came up half a second before the write, and 1999 ms before the reply
    says that it has been up for a second. -/
theorem old_conn_accepted :
    (status (fun _ => []) wanUp none).get "uptime" =
        some (.num (.int ((2999 - 1000) / 1000 : Nat))) ∧
      0 < apnTxn.refMs ∧ apnTxn.refConn = none ∧ apnTxn.newConn (pathAt 2999).conn = true ∧
      (apnTxn.onReading (readingAt 2999) 2999).1.phase = .confirmed ∧
      (apnTxn.onReading (readingAt 2999) 2999).1.reason = some .verified ∧
      ¬ apnTxn.refMs < 1000 := by
  decide +kernel

end Txn

end Datad
