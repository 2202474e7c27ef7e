import Yggdrasil.Base.Slice
import Yggdrasil.Base.SwapRemove
import Yggdrasil.Wire.Messages

/-!
# The packet queue

`PacketQueue` of `traffic.rs`: packets are grouped into flows.
-/

namespace Yggdrasil

def DEFAULT_PACKET_QUEUE_MAX_BYTES_MULTIPLIER : Nat := 64
def DEFAULT_PACKET_QUEUE_PER_FLOW_MULTIPLIER : Nat := 16
def DEFAULT_MAX_MESSAGE_SIZE : Nat := 1024 * 1024

def CODEL_TARGET : Duration := Duration.fromMillis 15
def CODEL_INTERVAL : Duration := Duration.fromMillis 100

def TrafficPacket.wireSize (self : TrafficPacket) : Nat :=
  pathSize self.path + pathSize self.fromPath + PUBLIC_KEY_SIZE + PUBLIC_KEY_SIZE + uvarintSize self.watermark +
    self.payload.length

structure Codel where
  firstAboveTime : Option Instant
  dropNext : Option Instant
  count : UInt32
  lastcount : UInt32
  dropping : Bool

namespace PacketQueue

structure FlowKey where
  source : PublicKey
  dest : PublicKey
deriving DecidableEq

structure PqPacketInfo where
  packet : TrafficPacket
  size : Nat
  time : Instant

structure Flow where
  infos : List PqPacketInfo
  size : Nat
  deficit : Nat
  index : Option Nat

end PacketQueue

structure PacketQueue where
  flows : HashMap PacketQueue.FlowKey PacketQueue.Flow
  active : List PacketQueue.FlowKey
  next : Option Nat
  size : Nat
  count : Nat
  maxBytesTotal : Nat
  maxBytesPerFlow : Nat
  quantum : Nat
  codel : Codel

namespace PacketQueue

def new (quantum : Nat) : PacketQueue :=
  let quantum := if quantum = 0 then DEFAULT_MAX_MESSAGE_SIZE else quantum
  { flows := ∅
    active := []
    next := none
    size := 0
    count := 0
    maxBytesTotal := quantum * DEFAULT_PACKET_QUEUE_MAX_BYTES_MULTIPLIER
    maxBytesPerFlow := quantum * DEFAULT_PACKET_QUEUE_PER_FLOW_MULTIPLIER
    quantum
    codel := { firstAboveTime := none, dropNext := none, count := 0, lastcount := 0, dropping := false } }

variable (self : PacketQueue)

def isEmpty : Bool := self.size == 0

/-! ## The ring of active flows -/

def activate (key : FlowKey) : PacketQueue :=
  let idx := self.active.length
  { self with
    active := self.active ++ [key]
    flows := self.flows.modify key fun flow => { flow with index := some idx } }

def deactivate (key : FlowKey) : Option PacketQueue :=
  match (self.flows.lookup key).bind Flow.index with
  | none => some self
  | some idx => do
    let last ← Nat.checkedSub self.active.length 1
    if last < idx then return self
    else
      let moved ← self.active[last]?
      let flows := if idx ≠ last then self.flows.modify moved fun mf => { mf with index := some idx } else self.flows
      let active := self.active.swapRemove idx
      let flows := flows.modify key fun flow => { flow with index := none }
      let next := if self.next = some last then some idx else self.next
      return { self with
        flows, active
        next := if active.isEmpty then none else next.map fun n => if n ≥ active.length then 0 else n }

def flowFor (key : FlowKey) : PacketQueue :=
  match self.flows.lookup key with
  | some _ => self
  | none => { self with flows := self.flows.insert key { infos := [], size := 0, deficit := 0, index := none } }

def removeFlowIfEmpty (key : FlowKey) : Option PacketQueue :=
  match self.flows.lookup key with
  | none => some self
  | some f =>
    if !f.infos.isEmpty then some self
    else (if f.index.isSome then self.deactivate key else some self).map fun self =>
      { self with flows := self.flows.remove key }

def dropFrom (key : FlowKey) : Option (Option PqPacketInfo × PacketQueue) :=
  let deficitCap := self.quantum * 4
  match self.flows.lookup key with
  | none => some (none, self)
  | some flow =>
    match flow.infos with
    | [] => some (none, self)
    | info :: infos => do
      let flowSize ← Nat.checkedSub flow.size info.size
      let size ← Nat.checkedSub self.size info.size
      let count ← Nat.checkedSub self.count 1
      let popped : Flow := { flow with infos, size := flowSize, deficit := min flow.deficit deficitCap }
      let self ← { self with flows := self.flows.modify key fun _ => popped, size, count }.removeFlowIfEmpty key
      return (some info, self)

/-! ## Eviction -/

def maxBy {α : Type} (cmp : α → α → Ordering) : List α → Option α
  | [] => none
  | x :: xs => some (xs.foldl (fun best y => if cmp best y = .gt then best else y) x)

def largestFlow : Option FlowKey :=
  let heads := self.active.filterMap fun k =>
    (self.flows.lookup k).bind fun f => f.infos.head?.map fun head => (k, f.size, head.time)
  (maxBy (fun a b => (compare a.2.1 b.2.1).then (compare b.2.2 a.2.2)) heads).map fun a => a.1

def dropLargest : Option (Bool × PacketQueue) :=
  match self.largestFlow with
  | some key => (self.dropFrom key).map fun r => (r.1.isSome, r.2)
  | none => some (false, self)

/-- Per-flow cap: evict this flow's oldest packets until the new one fits. The answer is false for a `return`. -/
def evictFlow (pktSize : Nat) (key : FlowKey) : Nat → PacketQueue → Option (Bool × PacketQueue)
  | 0, _ => none
  | fuel + 1, self =>
    let flowSize := (self.flows.lookup key).elim 0 Flow.size
    let flowCount := (self.flows.lookup key).elim 0 fun f => f.infos.length
    if flowSize + pktSize ≤ self.maxBytesPerFlow ∨ flowCount = 0 then some (true, self)
    else do
      let r ← self.dropFrom key
      if r.1.isNone then return (false, r.2) else evictFlow pktSize key fuel r.2

/-- Global cap: evict from the largest flow until the new packet fits. The answer is false for a `return`. -/
def evictLargest (pktSize : Nat) : Nat → PacketQueue → Option (Bool × PacketQueue)
  | 0, _ => none
  | fuel + 1, self =>
    if self.size + pktSize > self.maxBytesTotal ∧ self.size > 0 then do
      let r ← self.dropLargest
      if !r.1 then return (false, r.2) else evictLargest pktSize fuel r.2
    else some (true, self)

def append (key : FlowKey) (info : PqPacketInfo) : PacketQueue :=
  let self := self.flowFor key
  let needsActivate := ((self.flows.lookup key).bind Flow.index).isNone
  let self := { self with
    flows := self.flows.modify key fun flow =>
      { flow with infos := flow.infos ++ [info], size := flow.size + info.size }
    size := self.size + info.size
    count := self.count + 1 }
  if needsActivate then self.activate key else self

/-- Evicts packets to keep the byte caps. -/
def push (packet : TrafficPacket) (now : Instant) : Option PacketQueue :=
  let pktSize := packet.wireSize
  if self.maxBytesTotal < pktSize ∨ self.maxBytesPerFlow < pktSize then some self
  else do
    let key : FlowKey := { source := packet.source, dest := packet.dest }
    let info : PqPacketInfo := { packet, size := pktSize, time := now }
    let r ← evictFlow pktSize key (self.count + 1) (self.flowFor key)
    if !r.1 then return r.2
    else
      let r ← evictLargest pktSize (r.2.count + 1) r.2
      if !r.1 then return r.2 else return r.2.append key info

/-! ## Deficit round robin -/

def credit (key : FlowKey) : PacketQueue :=
  { self with
    flows := self.flows.modify key fun flow => { flow with deficit := (flow.deficit + self.quantum) % 2 ^ 64 } }

def spend (key : FlowKey) (size : Nat) : PacketQueue :=
  { self with
    flows := self.flows.modify key fun flow => { flow with deficit := (flow.deficit + 2 ^ 64 - size) % 2 ^ 64 } }

def serveable (key : FlowKey) : Bool :=
  (self.flows.lookup key).any fun f => f.infos.head?.any fun head => head.size ≤ f.deficit

def popLoop : Nat → PacketQueue → Nat → FlowKey → Option (PqPacketInfo × PacketQueue)
  | 0, _, _, _ => none
  | fuel + 1, self, idx, key => do
    let r ← if self.serveable key then self.dropFrom key else some (none, self)
    match r.1 with
    | some info => return (info, r.2.spend key info.size)
    | none =>
      let idx := if idx + 1 ≥ r.2.active.length then 0 else idx + 1
      let key ← r.2.active[idx]?
      popLoop fuel ({ r.2 with next := some idx }.credit key) idx key

/-- Serves the flows by deficit round robin. -/
def popInfo : Option (Option PqPacketInfo × PacketQueue) :=
  if self.isEmpty || self.active.isEmpty then some (none, { self with next := none })
  else do
    let idx := self.next.elim 0 fun n => if n ≥ self.active.length then 0 else n
    let key ← self.active[idx]?
    let start := { self with next := some idx }
    let start := if self.next.isNone then start.credit key else start
    let r ← popLoop (17 * self.active.length + 1) start idx key
    return (some r.1, r.2)

/-! ## CoDel -/

def signedNanos (now t : Instant) : Int := (now : Int) - (t : Int)

def codelShouldDrop (info : Option PqPacketInfo) (now : Instant) : Bool × PacketQueue :=
  match info with
  | none => (false, { self with codel.firstAboveTime := none })
  | some pkt =>
    if elapsed now pkt.time < CODEL_TARGET ∨ self.count ≤ 1 then (false, { self with codel.firstAboveTime := none })
    else
      match self.codel.firstAboveTime with
      | none => (false, { self with codel.firstAboveTime := some (now + CODEL_INTERVAL) })
      | some fat => (now > fat, self)

section
variable (codelControlLaw : Instant → UInt32 → Instant)

def codelDropLoop (now : Instant) : Nat → PacketQueue → Option PqPacketInfo →
    Option (Option PqPacketInfo × PacketQueue)
  | 0, _, _ => none
  | fuel + 1, self, info =>
    if self.codel.dropping ∧ self.codel.dropNext.any fun dn => now ≥ dn then do
      let r ← { self with codel.count := self.codel.count + 1 }.popInfo
      let d := r.2.codelShouldDrop r.1 now
      let self :=
        if !d.1 then { d.2 with codel.dropping := false }
        else { d.2 with codel.dropNext := d.2.codel.dropNext.map fun dn => codelControlLaw dn d.2.codel.count }
      codelDropLoop now fuel self r.1
    else some (info, self)

/-- Drops packets that have waited too long. -/
def popCodel (self : PacketQueue) (now : Instant) : Option (Option TrafficPacket × PacketQueue) := do
  let r ← self.popInfo
  if r.1.isNone then return (none, { r.2 with codel.dropping := false })
  else
    let d := r.2.codelShouldDrop r.1 now
    let intervalNs : Int := CODEL_INTERVAL
    let self := d.2
    if self.codel.dropping then
      if !d.1 then return (r.1.map PqPacketInfo.packet, { self with codel.dropping := false })
      else
        let r ← codelDropLoop codelControlLaw now (self.count + 2) self r.1
        return (r.1.map PqPacketInfo.packet, r.2)
    else if d.1 ∧ ((self.codel.dropNext.any fun dn => signedNanos now dn < intervalNs) ∨
        self.codel.firstAboveTime.any fun fat => signedNanos now fat ≥ intervalNs) then
      let r ← self.popInfo
      let self := (r.2.codelShouldDrop r.1 now).2
      let delta := self.codel.count - self.codel.lastcount
      let count := if delta > 1 ∧ self.codel.dropNext.any fun dn =>
        signedNanos now dn < 16 * intervalNs then delta else 1
      return (r.1.map PqPacketInfo.packet, { self with codel := { self.codel with
            dropping := true, count, lastcount := count, dropNext := some (codelControlLaw now count) } })
    else return (r.1.map PqPacketInfo.packet, self)

end

end PacketQueue

end Yggdrasil
