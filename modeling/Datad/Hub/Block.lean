/-
  Datad/Hub/Block.lean
  ====================
  **The block hub** (`block.rs`): the blocks, their revisions and stale flags, and
  the one place that numbers `/v2` events.

  Every public operation of the hub holds its lock from start to end, so an
  operation is a function from the locked state (`Inner`) to the state it leaves
  and the events it hands to the sink, in order.  Times are nanoseconds; the
  monotonic clock and the wall clock are inputs of the operations that read them.
-/
import Datad.Json
import Datad.Lib.Trace

namespace Datad.Hub

open Trace

abbrev Duration := Nat
abbrev Instant := Nat

def secs (n : Nat) : Duration := n * 1000000000

/-- Lower bound of `max_age`. -/
def minMaxAge : Duration := secs 15

/-- How soon a block whose read failed is read again. -/
def failureRetry : Duration := secs 5

/-! ### Policies -/

/-- The answer of a policy: keep quiet, or publish if the data differ from what was
    published last. -/
inductive Publish where
  | no
  | ifChanged
deriving DecidableEq, Repr

structure PolicyInput where
  published : Option Value
  current : Option Value
  sincePublish : Option Duration

/-- When a block considers publishing.  The hub alone decides about revisions and
    stale flags. -/
structure PublishPolicy where
  onRead : PolicyInput → Publish := fun _ => .ifChanged
  onRoundEnd : PolicyInput → Publish := fun _ => .no

def onChange : PublishPolicy := {}

def livePolicy : PublishPolicy where
  onRead _ := .no
  onRoundEnd _ := .ifChanged

/-- After this long a signal block publishes changes below the threshold too. -/
def signalForce : Duration := secs 30

/-- `SignalPolicy`, over the threshold test `signal_crosses`. -/
def signalPolicy (crosses : Value → Value → Bool) : PublishPolicy where
  onRead input :=
    match input.published, input.current with
    | some p, some c =>
      if crosses p c || input.sincePublish.all (signalForce ≤ ·) then .ifChanged else .no
    | _, _ => .ifChanged

/-! ### Specifications of blocks -/

/-- From the raw reply to the published data; the second argument looks up the raw
    replies of other blocks. -/
abbrev ShapeFn := Value → (String → Option Value) → Value

structure BlockSpec where
  name : String
  object : String
  method : String
  args : Value := .obj []
  /-- Zero: every round. -/
  interval : Duration
  policy : PublishPolicy := onChange
  /-- The executor does not read a derived block, its data come through `record`. -/
  derived : Bool := false
  shape : Option ShapeFn := none
  /-- The other blocks that `shape` consults. -/
  deps : List String := []

namespace BlockSpec

def new (name object method : String) (interval : Duration) : BlockSpec :=
  { name, object, method, interval }

def ofDerived (name : String) (policy : PublishPolicy) : BlockSpec :=
  { new name "" "" 0 with policy, derived := true }

def withArgs (spec : BlockSpec) (args : Value) : BlockSpec := { spec with args }

def withShape (spec : BlockSpec) (shape : ShapeFn) (deps : List String) : BlockSpec :=
  { spec with shape := some shape, deps }

end BlockSpec

/-- The blocks the daemon runs with, over the two shape functions and the threshold
    test they use. -/
def phase1Blocks (batteryV2 chargerV2 : ShapeFn) (crosses : Value → Value → Bool) :
    List BlockSpec :=
  [(BlockSpec.new "battery" "zwrt_bsp.battery" "list" (secs 5)).withShape batteryV2 ["charger"],
    (BlockSpec.new "charger" "zwrt_bsp.charger" "list" (secs 5)).withShape chargerV2 [],
    BlockSpec.new "typec" "zwrt_bsp.typec" "list" (secs 60),
    (BlockSpec.new "powerbank" "zwrt_bsp.powerbank" "get" (secs 60)).withArgs
      (.obj [("property", .str "state")]),
    .ofDerived "signal" (signalPolicy crosses),
    .ofDerived "live" livePolicy,
    .ofDerived "sms" onChange,
    .ofDerived "sim" onChange,
    .ofDerived "op" onChange,
    .ofDerived "qos" onChange,
    .ofDerived "clients" onChange,
    .ofDerived "wlan" onChange,
    .ofDerived "nfc" onChange,
    .ofDerived "dhcp" onChange,
    .ofDerived "interfaces" onChange,
    .ofDerived "uci_device_info" onChange,
    .ofDerived "sms_list" onChange]

theorem phase1Blocks_names_nodup (batteryV2 chargerV2 : ShapeFn)
    (crosses : Value → Value → Bool) :
    ((phase1Blocks batteryV2 chargerV2 crosses).map BlockSpec.name).Nodup := by
  simp only [phase1Blocks, List.map, BlockSpec.new, BlockSpec.ofDerived, BlockSpec.withArgs,
    BlockSpec.withShape]
  decide

/-- The daemon's blocks, with replies published as they are. -/
def sampleSpecs : List BlockSpec :=
  phase1Blocks (fun raw _ => raw) (fun raw _ => raw) fun p c => p ≠ c

/-! ### Events -/

structure BlockView where
  name : String
  revision : Nat
  observedAt : Nat
  stale : Bool
  data : Value
deriving DecidableEq

/-- A `block` event: the number and the view of the block that was published. -/
structure BlockEvent extends BlockView where
  seq : Nat
deriving DecidableEq

structure Heartbeat where
  seq : Nat
  blocks : List (String × Nat)
  execAgeMs : Nat
deriving DecidableEq

inductive Event where
  | block (e : BlockEvent)
  | heartbeat (hb : Heartbeat)
deriving DecidableEq

def Event.seq : Event → Nat
  | .block e => e.seq
  | .heartbeat hb => hb.seq

/-! ### Blocks -/

structure Block where
  spec : BlockSpec
  revision : Nat := 0
  observedAt : Nat := 0
  stale : Bool := true
  /-- The newest raw reply, kept while the block is stale. -/
  raw : Option Value := none
  /-- What the newest reply was shaped to. -/
  data : Option Value := none
  /-- What was published last. -/
  published : Option Value := none
  publishedAt : Option Instant := none
  lastAttempt : Option Instant := none
  lastSuccess : Option Instant := none
  lastFailed : Bool := false
  /-- Read in the next round, whatever the interval says. -/
  immediate : Bool := false

namespace Block

def new (spec : BlockSpec) : Block := { spec }

def view (b : Block) : BlockView where
  name := b.spec.name
  revision := b.revision
  observedAt := b.observedAt
  stale := b.stale
  data := b.published.getD .null

def maxAge (b : Block) (sampleInterval : Duration) : Duration :=
  max ((if b.spec.interval = 0 then sampleInterval else b.spec.interval) * 3) minMaxAge

def policyInput (b : Block) (now : Instant) : PolicyInput where
  published := b.published
  current := b.data
  sincePublish := b.publishedAt.map (now - ·)

end Block

structure Schedule where
  cache : Bool
  sampleInterval : Duration

/-- Whether block `b` is to be read now. -/
def due (b : Block) (now : Instant) (sched : Schedule) : Bool :=
  if b.spec.derived then false
  else
    match b.lastAttempt with
    | none => true
    | some last =>
      if b.immediate || !sched.cache || b.spec.interval = 0 then true
      else if b.lastFailed then
        min (failureRetry - sched.sampleInterval) b.spec.interval ≤ now - last
      else b.spec.interval ≤ now - last

/-! ### The hub -/

structure Inner where
  seq : Nat
  blocks : List Block
  lastHeartbeat : Option Instant

def new (specs : List BlockSpec) : Inner where
  seq := 0
  blocks := specs.map Block.new
  lastHeartbeat := none

/-- The raw reply of the block with this name. -/
def lookup (blocks : List Block) (name : String) : Option Value :=
  (blocks.find? fun b => b.spec.name = name).bind Block.raw

/-- Shape the raw reply of a block of the hub. -/
def shape (blocks : List Block) (spec : BlockSpec) (raw : Value) : Value :=
  match spec.shape with
  | some f => f raw (lookup blocks)
  | none => raw

/-- Publish a block whose fields are up to date.  `flipped`: its stale flag has just
    changed, so an event goes out in any case. -/
def publish (seq : Nat) (b : Block) (decision : Publish) (flipped : Bool) (now : Instant) :
    Nat × Block × List Event :=
  let dataChanged := decide (b.published ≠ b.data)
  let dataGoesOut :=
    match decision with
    | .ifChanged => dataChanged
    -- an event that says fresh must not carry the value from before
    | .no => flipped && !b.stale && dataChanged
  if !flipped && !dataGoesOut then (seq, b, [])
  else
    let b := { b with
      published := if dataGoesOut then b.data else b.published
      publishedAt := some now
      revision := b.revision + 1 }
    (seq + 1, b, [.block ⟨b.view, seq + 1⟩])

/-- Ask the policy after a read, and publish as it says. -/
def publishRead (seq : Nat) (b : Block) (flipped : Bool) (now : Instant) :
    Nat × Block × List Event :=
  publish seq b (b.spec.policy.onRead (b.policyInput now)) flipped now

/-- Put back block `i` after it was worked on. -/
def put (g : Inner) (i : Nat) (r : Nat × Block × List Event) : Inner × List Event :=
  ({ g with seq := r.1, blocks := g.blocks.set i r.2.1 }, r.2.2)

/-- Work on block `i` in place. -/
def onBlock (f : Nat → Block → Nat × Block × List Event) (g : Inner) (i : Nat) :
    Inner × List Event :=
  match g.blocks[i]? with
  | none => (g, [])
  | some b => put g i (f g.seq b)

/-- Recompute one block after block `i`, called `name`, got a new reply. -/
def reshape (i : Nat) (name : String) (now : Instant) (g : Inner) (j : Nat) :
    Inner × List Event :=
  match g.blocks[j]? with
  | none => (g, [])
  | some b =>
    if j = i || b.stale || !b.spec.deps.contains name then (g, [])
    else
      match b.raw with
      | none => (g, [])
      | some raw =>
        let shaped := shape g.blocks b.spec raw
        if b.data = some shaped then (g, [])
        else put g j (publishRead g.seq { b with data := some shaped } false now)

def reshapeDependents (g : Inner) (i : Nat) (name : String) (now : Instant) :
    Inner × List Event :=
  forEach (reshape i name now) (List.range g.blocks.length) g

/-- A reply counts as read only if it is a JSON object. -/
def accepted : Except String Value → Option Value
  | .ok v => if v.isObject then some v else none
  | .error _ => none

/-- The fields a successful read sets. -/
def Block.read (b : Block) (v shaped : Value) (now : Instant) (wall : Nat) : Block :=
  { b with
    lastAttempt := some now, immediate := false, lastFailed := false, lastSuccess := some now
    observedAt := wall, raw := some v, data := some shaped, stale := false }

/-- The fields a failed read sets; whether the block flips to stale is up to the caller. -/
def Block.fail (b : Block) (now : Instant) : Block :=
  { b with lastAttempt := some now, immediate := false, lastFailed := true }

/-- Record the outcome of reading block `i`.  An index outside the hub panics before
    anything is changed. -/
def recordRead (g : Inner) (i : Nat) (result : Except String Value) (now : Instant)
    (wall : Nat) : Inner × List Event :=
  match g.blocks[i]? with
  | none => (g, [])
  | some b =>
    match accepted result with
    | some v =>
      let shaped := shape g.blocks b.spec v
      let r := put g i (publishRead g.seq (b.read v shaped now wall) b.stale now)
      -- dependents only have to follow a reply that is different
      if b.raw = some v then r
      else
        let r' := reshapeDependents r.1 i b.spec.name now
        (r'.1, r.2 ++ r'.2)
    | none =>
      if b.stale then put g i (g.seq, b.fail now, [])
      else put g i (publish g.seq { b.fail now with stale := true } .no true now)

/-- The position of the first block with this name. -/
def position (g : Inner) (name : String) : Option Nat :=
  g.blocks.findIdx? fun b => b.spec.name = name

/-- Hand in data by name, for derived blocks. -/
def record (g : Inner) (name : String) (result : Except String Value) (now : Instant)
    (wall : Nat) : Inner × List Event :=
  match position g name with
  | some i => recordRead g i result now wall
  | none => (g, [])

def markImmediate (g : Inner) (names : Option (List String)) : Inner :=
  { g with blocks := g.blocks.map fun b =>
      if names.all (·.contains b.spec.name) then { b with immediate := true } else b }

/-- A block that is past its `max_age` goes stale. -/
def expireBlock (now : Instant) (sampleInterval : Duration) (seq : Nat) (b : Block) :
    Nat × Block × List Event :=
  if !b.stale && b.lastSuccess.any (fun ok => b.maxAge sampleInterval < now - ok) then
    publish seq { b with stale := true } .no true now
  else (seq, b, [])

def expire (g : Inner) (now : Instant) (sampleInterval : Duration) : Inner × List Event :=
  forEach (onBlock (expireBlock now sampleInterval)) (List.range g.blocks.length) g

/-- The hook of the block's policy at the end of a round. -/
def roundEndBlock (now : Instant) (seq : Nat) (b : Block) : Nat × Block × List Event :=
  if b.stale then (seq, b, [])
  else
    let decision := b.spec.policy.onRoundEnd (b.policyInput now)
    if decision = .no then (seq, b, []) else publish seq b decision false now

def emitHeartbeat (g : Inner) (now : Instant) (execAgeMs : Nat) : Inner × List Event :=
  ({ g with seq := g.seq + 1, lastHeartbeat := some now },
    [.heartbeat
      { seq := g.seq + 1
        blocks := g.blocks.map fun b => (b.spec.name, b.observedAt)
        execAgeMs }])

def roundEnd (g : Inner) (now : Instant) (sampleInterval : Duration) : Inner × List Event :=
  let r₁ := expire g now sampleInterval
  let r₂ := forEach (onBlock (roundEndBlock now)) (List.range r₁.1.blocks.length) r₁.1
  let r₃ := emitHeartbeat r₂.1 now 0
  (r₃.1, r₁.2 ++ r₂.2 ++ r₃.2)

def heartbeatIfQuiet (g : Inner) (now : Instant) (execAgeMs : Nat) (quiet : Duration) :
    Inner × List Event :=
  if g.lastHeartbeat.any (fun t => now - t < quiet) then (g, [])
  else emitHeartbeat g now execAgeMs

def views (g : Inner) : List BlockView := g.blocks.map Block.view

/-- The cut and all blocks.  The subscription is made under the same lock. -/
def snapshot (g : Inner) : Nat × List BlockView := (g.seq, views g)

/-! ### Runs -/

/-- A call of the hub, with the clocks it reads. -/
inductive Op where
  | recordRead (i : Nat) (result : Except String Value) (now : Instant) (wall : Nat)
  | record (name : String) (result : Except String Value) (now : Instant) (wall : Nat)
  | markImmediate (names : Option (List String))
  | expire (now : Instant) (sampleInterval : Duration)
  | roundEnd (now : Instant) (sampleInterval : Duration)
  | heartbeatIfQuiet (now : Instant) (execAgeMs : Nat) (quiet : Duration)

def step (g : Inner) : Op → Inner × List Event
  | .recordRead i result now wall => recordRead g i result now wall
  | .record name result now wall => record g name result now wall
  | .markImmediate names => (markImmediate g names, [])
  | .expire now sampleInterval => expire g now sampleInterval
  | .roundEnd now sampleInterval => roundEnd g now sampleInterval
  | .heartbeatIfQuiet now execAgeMs quiet => heartbeatIfQuiet g now execAgeMs quiet

/-- The time at which an operation records a read. -/
def Op.time : Op → Option Instant
  | .recordRead _ _ now _ | .record _ _ now _ => some now
  | _ => none

/-- The successful read an operation records: which block, and the reply. -/
def Op.read (g : Inner) : Op → Option (Nat × Value)
  | .recordRead i result _ _ => (accepted result).map (i, ·)
  | .record name result _ _ =>
    (position g name).bind fun i => (accepted result).map (i, ·)
  | _ => none

/-- A run of the hub from a state, with everything it emitted. -/
def run (g : Inner) (ops : List Op) : Inner × List Event := forEach step ops g

end Datad.Hub
