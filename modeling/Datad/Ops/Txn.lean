/-
  Datad/Ops/Txn.lean
  ==================
  **The transaction state machine** of the write-operation layer
  (`rust/src/ops/txn.rs`): pure logic that touches no device, reads no clock and
  writes no file.  The driver feeds it fresh readings and the BOOTTIME clock in
  milliseconds and acts on the `Next` it answers.

      accepted → applying → verifying → (rollingBack →) a final phase

  Every method that takes `&mut self` is a function returning the new
  transaction, paired with its answer where it has one.  Clocks and counters are
  `Nat`: a millisecond clock, a reboot count or a phase count never comes near
  the end of its machine type, and `saturating_sub` is subtraction on `Nat`.

  The one field the source does not have is `uid`, the number of the acceptance
  that made the transaction.  An `op_id` is chosen by the client and may be used
  again later, so statements about *one* transaction need an identity of their
  own.  No operation reads it.
-/
import Mathlib.Data.Nat.Basic

namespace Datad

/-! ### Vocabulary -/

/-- Who asked for a write. -/
inductive Source where
  | screen | web | legacy | guard | scenario | scheduler | auto
deriving DecidableEq, Repr

/-- `screen`, `web` and `legacy` count as the user; `guard` and the automatic
    sources do not. -/
def Source.isUser : Source → Bool
  | .screen | .web | .legacy => true
  | _ => false

/-- May this source override a change of the same item that is under way? -/
def Source.mayOverride (s : Source) : Bool := s.isUser || s == .guard

inductive Phase where
  | accepted | applying | verifying | rollingBack
  | confirmed | unverified | rolledBack | notApplied | rollbackFailed | cancelled
deriving DecidableEq, Repr

def Phase.isFinal : Phase → Bool
  | .accepted | .applying | .verifying | .rollingBack => false
  | _ => true

inductive Reason where
  | verified | userKeep | noRollback | timeout | userRevert | rebootLoop | ignored
  | rollbackTimeout | superseded | preempted | manualChange | takeover | simChanged
  | apnNoData | otherChange | noVerify
deriving DecidableEq, Repr

/-- The confirmation rule of an item: registration (and data where data is
    expected), or for an APN a connection made after the write. -/
inductive Confirm where
  | registered | apn
deriving DecidableEq, Repr

/-- Identity of a data connection: its address and when it came up. -/
structure Conn where
  ipv4 : String := ""
  ipv6 : String := ""
  upSinceMs : Option Nat := none
deriving DecidableEq, Repr

/-- netifd reports whole seconds, so the start of one connection jitters. -/
def CONN_JITTER_MS : Nat := 2000

/-- IPv4 when there is one, otherwise IPv6, otherwise empty. -/
def Conn.addr (c : Conn) : String := if c.ipv4 = "" then c.ipv6 else c.ipv4

def Conn.v6Only (c : Conn) : Bool := decide (c.ipv4 = "") && decide (c.ipv6 ≠ "")

/-- `u64::abs_diff`. -/
def absDiff (a b : Nat) : Nat := (a - b) + (b - a)

def Conn.same (c other : Conn) : Bool :=
  decide (c.addr = other.addr) &&
    match c.upSinceMs, other.upSinceMs with
    | some a, some b => decide (absDiff a b ≤ CONN_JITTER_MS)
    | _, _ => true

/-- A reading of the data path; parts that could not be read are `none`. -/
structure DataPath where
  expected : Option Bool
  connected : Bool
  conn : Conn
  iface : String
  dns : List String
deriving DecidableEq, Repr

/-- What one DNS probe needs. -/
structure ProbeTarget where
  iface : String
  dns : List String
  v6 : Bool
deriving DecidableEq, Repr

def PROBE_TRIES : Nat := 3
def PROBE_GAP_MS : Nat := 5000
def PROBE_ROUND_GAP_MS : Nat := 30000

/-- Full SIM identity: ICCID and slot. -/
structure SimId where
  iccid : String
  slot : Int
deriving DecidableEq, Repr

def SimId.blank (s : SimId) : Bool := decide (s.iccid = "") || decide (s.slot = 0)

inductive SimCheck where
  | same | changed | unknown
deriving DecidableEq, Repr

/-- Compare the SIM captured before the write with the one just read.  Only a
    different *non-blank* identity is a change of card; a blank one where a card
    was captured leaves the reading unjudged. -/
def simCheck (captured now : SimId) : SimCheck :=
  match captured.blank, now.blank with
  | true, true => .same
  | false, true => .unknown
  | _, _ => if captured = now then .same else .changed

/-- One fresh reading of the device. -/
structure Reading where
  value : Option String
  registered : Bool
  sim : SimId
  data : Option DataPath
  probe : Option Bool
deriving DecidableEq, Repr

/-- Verdict of the data condition. -/
inductive DataJudge where
  | ok | apnNoData | notYet
deriving DecidableEq, Repr

/-- The write about to be made, saved before it is made. -/
inductive Intent where
  | apply | rollback
deriving DecidableEq, Repr

/-- How the write call came back. -/
inductive Applied where
  | done | failed | unknown
deriving DecidableEq, Repr

/-- What the driver has to do next. -/
inductive Next where
  | wait
  | done
  | rollback (value : String)
deriving DecidableEq, Repr

/-- Parameters of a new transaction. -/
structure NewTxn where
  uid : Nat
  opId : String
  action : String
  item : String
  source : Source
  undo : Bool
  target : String
  old : String
  rollbackTo : String
  sim : SimId
  conn : Option Conn
  confirm : Confirm
  rollbackEnabled : Bool
  deadlineMs : Nat
  bootId : String
deriving DecidableEq, Repr

structure Txn where
  uid : Nat
  opId : String
  action : String
  item : String
  source : Source
  undo : Bool
  target : String
  old : String
  rollbackTo : String
  phase : Phase
  reason : Option Reason
  rollbackReason : Option Reason
  everMatched : Bool
  readOk : Bool
  readback : Option String
  applyFailed : Bool
  intent : Option Intent
  sim : SimId
  confirm : Confirm
  refConn : Option Conn
  refMs : Nat
  lastConn : Option Conn
  probeConn : Option Conn
  probeFails : Nat
  probeLastMs : Option Nat
  dataOk : Bool
  registered : Bool
  rollbackEnabled : Bool
  deadlineMs : Nat
  bootId : String
  boots : Nat
  elapsedPrevMs : Nat
  waitStartMs : Nat
  seenMs : Nat
  createdMs : Nat
  tookMs : Option Nat
  generation : Nat
deriving DecidableEq, Repr

namespace Txn

/-! ### Creation and the write call -/

def new (n : NewTxn) (now : Nat) : Txn where
  uid := n.uid
  opId := n.opId
  action := n.action
  item := n.item
  source := n.source
  undo := n.undo
  target := n.target
  old := n.old
  rollbackTo := n.rollbackTo
  phase := .accepted
  reason := none
  rollbackReason := none
  everMatched := false
  readOk := false
  readback := none
  applyFailed := false
  intent := none
  sim := n.sim
  confirm := n.confirm
  refConn := n.conn
  refMs := now
  lastConn := n.conn
  probeConn := none
  probeFails := 0
  probeLastMs := none
  dataOk := false
  registered := false
  rollbackEnabled := n.rollbackEnabled
  deadlineMs := n.deadlineMs
  bootId := n.bootId
  boots := 0
  elapsedPrevMs := 0
  waitStartMs := now
  seenMs := now
  createdMs := now
  tookMs := none
  generation := 0

/-- Every change of phase bumps the generation; readings requested before it are
    dropped by the driver. -/
def step (t : Txn) (phase : Phase) : Txn :=
  { t with phase := phase, generation := t.generation + 1 }

def finish (t : Txn) (phase : Phase) (reason : Reason) : Txn × Next :=
  ({ t.step phase with reason := some reason, intent := none }, .done)

/-- Waiting for the confirmation of the write or of the rollback. -/
def waiting (t : Txn) : Bool :=
  match t.phase with
  | .verifying | .rollingBack => true
  | _ => false

def beginApply (t : Txn) : Txn := { t.step .applying with intent := some .apply }

/-- The write call is back (done, failed or timed out): start waiting. -/
def applied (t : Txn) (outcome : Applied) (now : Nat) : Txn :=
  if t.phase ≠ .applying then t
  else
    { t with
      intent := none
      applyFailed := decide (outcome = Applied.failed)
      waitStartMs := now
      seenMs := now }.step .verifying

def startRollback (t : Txn) (why : Reason) : Txn × Next :=
  ({ t.step .rollingBack with rollbackReason := some why, intent := some .rollback },
    .rollback t.rollbackTo)

def resetProbe (t : Txn) : Txn :=
  { t with probeConn := none, probeFails := 0, probeLastMs := none, dataOk := false }

/-- The rollback write is back.  It is sent once; from here only readings judge
    it, and a new connection counts from this moment. -/
def rollbackSent (t : Txn) (now : Nat) : Txn :=
  if t.phase ≠ .rollingBack then t
  else
    let t := { t with
      intent := none
      waitStartMs := now
      seenMs := now
      refConn := t.lastConn
      refMs := now }
    { t.resetProbe with generation := t.generation + 1 }

/-! ### The data condition and the probe -/

/-- Was this connection made after the write (or the rollback)? -/
def newConn (t : Txn) (c : Conn) : Bool :=
  decide (t.refMs = 0) ||
    (match t.refConn with
      | some r => decide (r.addr ≠ c.addr)
      | none => false) ||
    (match c.upSinceMs with
      | some since => decide (since > t.refMs)
      | none => false)

/-- The value this beat is waiting for. -/
def goal (t : Txn) : String :=
  if t.phase = .rollingBack then t.rollbackTo else t.target

/-- The data condition apart from the probe.  `error (some target)` says that
    only a probe is missing. -/
def dataGate (t : Txn) (r : Reading) : Except (Option ProbeTarget) DataJudge :=
  match r.data with
  | none => .error none
  | some d =>
      match d.expected with
      | none => .error none
      | some false =>
          match t.confirm, t.phase with
          | .apn, .verifying => .ok .apnNoData
          | _, _ => .ok .ok
      | some true =>
          if !d.connected || decide (d.conn.addr = "") then .error none
          else if decide (t.confirm = .apn) && !t.newConn d.conn then .error none
          else .error (some { iface := d.iface, dns := d.dns, v6 := d.conn.v6Only })

/-- Should this reading be probed before it is fed?  Only when everything else
    already holds, and at the pace of the probe rounds. -/
def wantsProbe (t : Txn) (r : Reading) (now : Nat) : Option ProbeTarget :=
  if !t.waiting || t.intent.isSome || !r.registered then none
  else if r.value ≠ some t.goal then none
  else if simCheck t.sim r.sim ≠ .same then none
  else
    match t.dataGate r, r.data with
    | .error (some target), some d =>
        let roundOver :=
          (match t.probeConn with
            | some c => c.same d.conn
            | none => false) && decide (t.probeFails ≥ PROBE_TRIES)
        let gap := if roundOver then PROBE_ROUND_GAP_MS else PROBE_GAP_MS
        match t.probeLastMs with
        | some last => if now - last < gap then none else some target
        | none => some target
    | _, _ => none

/-- Count a probe result; another connection or a finished round starts anew. -/
def noteProbe (t : Txn) (r : Reading) (now : Nat) : Txn :=
  match r.probe, r.data with
  | some ok, some d =>
      let sameConn :=
        match t.probeConn with
        | some c => c.same d.conn
        | none => false
      let anew := !sameConn || decide (t.probeFails ≥ PROBE_TRIES)
      { t with
        probeConn := if anew then some d.conn else t.probeConn
        probeLastMs := some now
        probeFails := (if anew then 0 else t.probeFails) + (if ok then 0 else 1) }
  | _, _ => t

/-- The data condition, asked once the value is back and the modem registered. -/
def dataJudge (t : Txn) (r : Reading) : Txn × DataJudge :=
  let j :=
    match t.dataGate r with
    | .ok j => j
    | .error (some _) => if r.probe = some true then .ok else .notYet
    | .error none => .notYet
  ({ t with dataOk := decide (j ≠ .notYet) }, j)

/-! ### Readings, ticks and the deadline -/

/-- The deadline passed unconfirmed: roll back, or end `unverified` when
    automatic rollback is off. -/
def expire (t : Txn) (why : Reason) : Txn × Next :=
  if t.rollbackEnabled then t.startRollback why else t.finish .unverified .noRollback

/-- A beat without a usable reading: only the deadline is looked at. -/
def onTick (t : Txn) (now : Nat) : Txn × Next :=
  if t.phase.isFinal then (t, .done)
  else if !t.waiting || t.intent.isSome then (t, .wait)
  else
    let t := { t with seenMs := max t.seenMs now }
    if now - t.waitStartMs < t.deadlineMs then (t, .wait)
    else if t.phase = .rollingBack then t.finish .rollbackFailed .rollbackTimeout
    else if t.readOk && !t.everMatched then t.finish .notApplied .ignored
    else t.expire .timeout

/-- The readback of a `verifying` transaction.  `none` falls through to the
    deadline. -/
def judgeVerifying (t : Txn) (r : Reading) (v : String) (now : Nat) :
    Txn × Option Next :=
  if v = t.target then
    -- the match is remembered even when the data condition is not met yet
    let t := { t with everMatched := true }
    if r.registered then
      let (t, j) := t.dataJudge r
      match j with
      | .ok =>
          let t := { t with tookMs := some (t.elapsedPrevMs + (now - t.waitStartMs)) }
          let (t, n) := t.finish .confirmed .verified
          (t, some n)
      | .apnNoData =>
          let (t, n) := t.finish .unverified .apnNoData
          (t, some n)
      | .notYet => (t, none)
    else (t, none)
  else if v = t.old then
    if t.everMatched then
      let (t, n) := t.finish .cancelled .manualChange
      (t, some n)
    else if t.applyFailed then
      let (t, n) := t.finish .notApplied .ignored
      (t, some n)
    else (t, none)
  else if v ≠ "" then
    let (t, n) := t.finish .cancelled .manualChange
    (t, some n)
  else (t, none)

/-- The readback of a `rollingBack` transaction. -/
def judgeRollback (t : Txn) (r : Reading) (v : String) : Txn × Option Next :=
  if v = t.rollbackTo then
    if r.registered then
      let (t, j) := t.dataJudge r
      if j ≠ .notYet then
        let (t, n) := t.finish .rolledBack (t.rollbackReason.getD .timeout)
        (t, some n)
      else (t, none)
    else (t, none)
  else if v ≠ t.target ∧ v ≠ "" then
    let (t, n) := t.finish .cancelled .manualChange
    (t, some n)
  else (t, none)

def noteValue (t : Txn) (v : String) : Txn := { t with readOk := true, readback := some v }

def judgeValue (t : Txn) (r : Reading) (v : String) (now : Nat) : Txn × Option Next :=
  if t.phase = .verifying then t.judgeVerifying r v now else t.judgeRollback r v

/-- A verdict ends the beat; without one the deadline is looked at. -/
def conclude (t : Txn) (verdict : Option Next) (now : Nat) : Txn × Next :=
  match verdict with
  | some n => (t, n)
  | none => t.onTick now

/-- The part of `onReading` behind the SIM check: bookkeeping, then the readback
    of the phase, then the deadline. -/
def judge (t : Txn) (r : Reading) (now : Nat) : Txn × Next :=
  let t := { t with registered := r.registered }.noteProbe r now
  match r.value with
  | none => t.onTick now
  | some v =>
      let (t, verdict) := (t.noteValue v).judgeValue r v now
      t.conclude verdict now

/-- Remember the connection of a reading that has an address. -/
def noteConn (t : Txn) (r : Reading) : Txn :=
  match r.data with
  | some d => { t with lastConn := if d.conn.addr ≠ "" then some d.conn else t.lastConn }
  | none => t

/-- Feed one reading taken after the write. -/
def onReading (t : Txn) (r : Reading) (now : Nat) : Txn × Next :=
  if t.phase.isFinal then (t, .done)
  else if !t.waiting || t.intent.isSome then (t, .wait)
  else
    let t := { t with seenMs := now }
    let t := t.noteConn r
    match simCheck t.sim r.sim with
    | .changed => t.finish .cancelled .simChanged
    | .unknown => t.onTick now
    | .same => t.judge r now

/-! ### User actions, cancellation and resumption -/

/-- "Roll back now".  Done even when automatic rollback is off. -/
def revert (t : Txn) : Except String (Txn × Next) :=
  if t.phase = .verifying ∧ t.intent = none then .ok (t.startRollback .userRevert)
  else if t.phase = .rollingBack then .error "already rolling back"
  else if t.phase.isFinal then .error "change already finished"
  else .error "change is still being applied"

/-- "Keep it": the user confirms. -/
def keep (t : Txn) : Except String Txn :=
  if t.phase = .verifying ∧ t.intent = none then .ok (t.finish .confirmed .userKeep).1
  else if t.phase = .rollingBack then .error "already rolling back"
  else if t.phase.isFinal then .error "change already finished"
  else .error "change is still being applied"

/-- Interrupted from outside. -/
def cancel (t : Txn) (why : Reason) : Txn :=
  if t.phase.isFinal then t else (t.finish .cancelled why).1

/-- What a changed boot id does before the saved phase is looked at. -/
def rebooted (t : Txn) (bootId : String) : Txn :=
  let t :=
    if t.waiting && t.intent.isNone then
      { t with elapsedPrevMs := t.elapsedPrevMs + (t.seenMs - t.waitStartMs) }
    else t
  -- the clock restarted: every connection seen from now on counts as new
  { t with boots := t.boots + 1, bootId := bootId, refMs := 0 }.resetProbe

/-- The end of `resume`: a transaction still unconfirmed at its second boot, or
    whose waits over all boots reached the deadline, expires at once. -/
def settle (t : Txn) (reboot : Bool) (now : Nat) : Txn × Next :=
  let t := { t with seenMs := now, generation := t.generation + 1 }
  if reboot && decide (t.phase = .verifying) &&
      (decide (t.boots ≥ 2) || decide (t.elapsedPrevMs ≥ t.deadlineMs)) then
    t.expire .rebootLoop
  else (t, .wait)

/-- Where a saved transaction picks up.  A write whose intent is still set is not
    repeated: `applying` counts as written, `rollingBack` as sent. -/
def pickUp (t : Txn) (reboot : Bool) (now : Nat) : Txn :=
  match t.phase, t.intent with
  | .applying, _ | .verifying, some .apply =>
      { t with intent := none, phase := .verifying, waitStartMs := now }
  | .rollingBack, some _ => { t with intent := none, waitStartMs := now }
  | _, _ => { t with waitStartMs := if reboot then now else t.waitStartMs }

/-- Continue a saved transaction after a restart. -/
def resume (t : Txn) (bootId : String) (now : Nat) : Txn × Next :=
  if t.phase.isFinal then (t, .done)
  else
    let reboot := decide (bootId ≠ t.bootId)
    let t := if reboot then t.rebooted bootId else t
    -- stopped before the intent was saved: the device was not touched
    if t.phase = .accepted then t.finish .notApplied .ignored
    else (t.pickUp reboot now).settle reboot now

/-- The countdown is running: waiting, and no write under way. -/
def counting (t : Txn) : Bool := t.waiting && t.intent.isNone

/-- Time left until the deadline. -/
def remainingMs (t : Txn) (now : Nat) : Option Nat :=
  if t.waiting then some (t.deadlineMs - (now - t.waitStartMs)) else none

end Txn

end Datad
