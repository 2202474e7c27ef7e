import Yggdrasil.KeyStore.Ckr
import Yggdrasil.KeyStore.Packet

/-!
# The packet firewall

`firewall.rs`: the header parser and the connection table. A call takes its lock for a whole transition. An index
outside the packet is `none`, where the program panics.
-/

namespace Yggdrasil
open Option

def PROTO_TCP : UInt8 := 6
def PROTO_UDP : UInt8 := 17
def PROTO_ICMPV6 : UInt8 := 58

def HOP_BY_HOP : UInt8 := 0
def ROUTING : UInt8 := 43
def FRAGMENT : UInt8 := 44
def DEST_OPTS : UInt8 := 60

def TCP_FLAG_FIN : UInt8 := 0x01
def TCP_FLAG_SYN : UInt8 := 0x02
def TCP_FLAG_RST : UInt8 := 0x04
def TCP_FLAG_ACK : UInt8 := 0x10

def ICMP_ECHO_REQUEST : UInt8 := 128
def ICMP_ECHO_REPLY : UInt8 := 129

def TCP_SYN_TIMEOUT : Duration := Duration.fromSecs 30
def TCP_ESTABLISHED_TIMEOUT : Duration := Duration.fromSecs 300
def TCP_CLOSE_TIMEOUT : Duration := Duration.fromSecs 10
def UDP_TIMEOUT : Duration := Duration.fromSecs 60
def ICMP_TIMEOUT : Duration := Duration.fromSecs 30

structure FlowKey where
  proto : UInt8
  ourIp : Address
  ourPort : UInt16
  peerIp : Address
  peerPort : UInt16
deriving DecidableEq

inductive TcpState
  | synSent
  | established
  | finSeen
  | closed
deriving DecidableEq

structure FlowEntry where
  lastSeen : Instant
  tcpState : Option TcpState

def FlowEntry.timeout (self : FlowEntry) (proto : UInt8) : Duration :=
  if proto = PROTO_TCP then
    match self.tcpState with
    | some .synSent => TCP_SYN_TIMEOUT
    | some .established => TCP_ESTABLISHED_TIMEOUT
    | some .finSeen | some .closed => TCP_CLOSE_TIMEOUT
    | none => TCP_SYN_TIMEOUT
  else if proto = PROTO_UDP then UDP_TIMEOUT
  else if proto = PROTO_ICMPV6 then ICMP_TIMEOUT
  else UDP_TIMEOUT

structure Parsed where
  proto : UInt8
  srcIp : Address
  dstIp : Address
  srcPort : UInt16
  dstPort : UInt16
  tcpFlags : UInt8
  icmpType : UInt8
deriving DecidableEq

def isTracked (proto : UInt8) : Bool := proto == PROTO_TCP || proto == PROTO_UDP || proto == PROTO_ICMPV6

def advanceTcp (prev : Option TcpState) (flags : UInt8) : TcpState :=
  if flags &&& TCP_FLAG_RST ≠ 0 then .closed
  else if flags &&& TCP_FLAG_FIN ≠ 0 then .finSeen
  else
    let syn := flags &&& TCP_FLAG_SYN != 0
    let ack := flags &&& TCP_FLAG_ACK != 0
    match prev with
    | some .closed => .closed
    | some .finSeen => .finSeen
    | some .established => .established
    | some .synSent | none => if ack && !syn then .established else if syn && ack then .established else .synSent

/-! ## The parser -/

def readU16 (pkt : Bytes) (off : Nat) : Option UInt16 := do
  let hi ← pkt[off]?
  let lo ← pkt[off + 1]?
  return u16FromBeBytes hi lo

/-- The last next-header byte and the offset of the header it names; nothing for a header that is cut off or a
later fragment. -/
def walkExtHeaders (pkt : Bytes) : Nat → UInt8 → Nat → Option (Option (UInt8 × Nat))
  | 0, next, off => some (some (next, off))
  | n + 1, next, off =>
    if next = HOP_BY_HOP ∨ next = ROUTING ∨ next = DEST_OPTS then
      if off + 2 > pkt.length then some none
      else do
        let nxt ← pkt[off]?
        let units ← pkt[off + 1]?
        let hdrLen := (units.toNat + 1) * 8
        if off + hdrLen > pkt.length then some none else walkExtHeaders pkt n nxt (off + hdrLen)
    else if next = FRAGMENT then
      if off + 8 > pkt.length then some none
      else do
        let fragWord ← readU16 pkt (off + 2)
        if fragWord >>> 3 ≠ 0 then some none
        else
          let nxt ← pkt[off]?
          walkExtHeaders pkt n nxt (off + 8)
    else some (some (next, off))

/-- The ports, the TCP flags and the ICMP type of the transport header at `off`. -/
def parseTransport (pkt : Bytes) (proto : UInt8) (off : Nat) (srcIp dstIp : Address) : Option (Option Parsed) :=
  let parsed : Parsed := { proto, srcIp, dstIp, srcPort := 0, dstPort := 0, tcpFlags := 0, icmpType := 0 }
  if proto = PROTO_TCP then
    if off + 14 > pkt.length then some none
    else do
      let srcPort ← readU16 pkt off
      let dstPort ← readU16 pkt (off + 2)
      let tcpFlags ← pkt[off + 13]?
      return some { parsed with srcPort, dstPort, tcpFlags }
  else if proto = PROTO_UDP then
    if off + 8 > pkt.length then some none
    else do
      let srcPort ← readU16 pkt off
      let dstPort ← readU16 pkt (off + 2)
      return some { parsed with srcPort, dstPort }
  else if proto = PROTO_ICMPV6 then
    if off + 8 > pkt.length then some none
    else do
      let icmpType ← pkt[off]?
      -- the identifier of an echo takes the place of both ports
      if icmpType = ICMP_ECHO_REQUEST ∨ icmpType = ICMP_ECHO_REPLY then
        let id ← readU16 pkt (off + 4)
        return some { parsed with srcPort := id, dstPort := id, icmpType }
      else return some { parsed with icmpType }
  else some none

/-- Parse an IPv6 packet far enough to extract the transport-layer 5-tuple, the TCP flags and the ICMP type. -/
def parse (pkt : Bytes) : Option (Option Parsed) :=
  if pkt.length < 40 then some none
  else do
    let first : UInt8 ← pkt[0]?
    if first >>> 4 ≠ 6 then some none
    else
      let srcIp ← Vector.ofSlice? 16 pkt 8
      let dstIp ← Vector.ofSlice? 16 pkt 24
      let next ← pkt[6]?
      match ← walkExtHeaders pkt 8 next 40 with
      | none => some none
      | some (proto, off) => if !isTracked proto then some none else parseTransport pkt proto off srcIp dstIp

/-! ## The connection table -/

def FlowEntry.touch (entry : FlowEntry) (p : Parsed) (now : Instant) : FlowEntry :=
  { lastSeen := now
    tcpState := if p.proto = PROTO_TCP then some (advanceTcp entry.tcpState p.tcpFlags) else entry.tcpState }

structure Firewall where
  enable : Bool
  openTcp : List UInt16
  openUdp : List UInt16
  openAllFor : List Ipv6Net
  allowIcmpEcho : Bool
  table : HashMap FlowKey FlowEntry

namespace Firewall
variable (self : Firewall)

def gc (now : Instant) : Firewall :=
  { self with table := self.table.retain fun key entry => elapsed now entry.lastSeen < entry.timeout key.proto }

def observeOutbound (pkt : Bytes) (now : Instant) : Option Firewall := do
  match ← parse pkt with
  | none => return self
  | some p =>
    if !isTracked p.proto then return self
    else
      let key : FlowKey :=
        { proto := p.proto, ourIp := p.srcIp, ourPort := p.srcPort, peerIp := p.dstIp, peerPort := p.dstPort }
      let entry := (self.table.lookup key).getD
        { lastSeen := now, tcpState := if p.proto = PROTO_TCP then some .synSent else none }
      return { self with table := self.table.insert key (entry.touch p now) }

def opensFlow (p : Parsed) : Bool :=
  if p.proto = PROTO_TCP then
    p.tcpFlags &&& TCP_FLAG_SYN != 0 && p.tcpFlags &&& TCP_FLAG_ACK == 0 && self.openTcp.contains p.dstPort
  else if p.proto = PROTO_UDP then self.openUdp.contains p.dstPort
  else false

def checkInbound (pkt : Bytes) (now : Instant) : Option (Bool × Firewall) := do
  match ← parse pkt with
  | none => return (false, self)
  | some p =>
    if self.openAllFor.any fun net => net.contains p.srcIp then return (true, self)
    else if p.proto = PROTO_ICMPV6 ∧ (1 ≤ p.icmpType ∧ p.icmpType ≤ 4) then return (true, self)
    else if p.proto = PROTO_ICMPV6 ∧ p.icmpType = ICMP_ECHO_REQUEST ∧ self.allowIcmpEcho then return (true, self)
    else
      -- the packet's source and destination reversed match the outbound key
      let key : FlowKey :=
        { proto := p.proto, ourIp := p.dstIp, ourPort := p.dstPort, peerIp := p.srcIp, peerPort := p.srcPort }
      match self.table.lookup key with
      | some entry => return (true, { self with table := self.table.insert key (entry.touch p now) })
      | none =>
        if self.opensFlow p then
          let tcpState := if p.proto = PROTO_TCP then some TcpState.synSent else none
          return (true, { self with table := self.table.insert key { lastSeen := now, tcpState } })
        else return (false, self)

end Firewall

open Option (yields_some Yields.bind)
open List (yields_getElem?)
open Vector (yields_ofSlice?)

theorem yields_readU16 {pkt : Bytes} {off : Nat} (h : off + 2 ≤ pkt.length) :
    (readU16 pkt off).Yields fun _ => True := by
  refine (yields_getElem? (by omega)).bind fun hi _ => ?_
  exact (yields_getElem? (by omega)).bind fun lo _ => yields_some trivial

variable (pkt : Bytes)

theorem yields_walkExtHeaders (n : Nat) (next : UInt8) (off : Nat) :
    (walkExtHeaders pkt n next off).Yields fun _ => True := by
  induction n generalizing next off with
  | zero => exact yields_some trivial
  | succ n ih =>
    unfold walkExtHeaders
    split
    · split
      · exact yields_some trivial
      next h =>
        refine (yields_getElem? (by omega)).bind fun nxt _ => ?_
        refine (yields_getElem? (by omega)).bind fun units _ => ?_
        dsimp only
        split
        · exact yields_some trivial
        · exact ih _ _
    split
    · split
      · exact yields_some trivial
      next h =>
        refine (yields_readU16 (by omega)).bind fun fragWord _ => ?_
        split
        · exact yields_some trivial
        · exact (yields_getElem? (by omega)).bind fun nxt _ => ih _ _
    · exact yields_some trivial

theorem yields_parseTransport (proto : UInt8) (off : Nat) (srcIp dstIp : Address) :
    (parseTransport pkt proto off srcIp dstIp).Yields fun r => ∀ p ∈ r, p.proto = proto := by
  have hnone : ∀ p ∈ (none : Option Parsed), p.proto = proto := fun p hp => absurd hp (not_mem_none p)
  have hsome : ∀ q : Parsed, q.proto = proto → ∀ p ∈ some q, p.proto = proto := by
    intro q hq p hp
    rw [← some.inj hp]
    exact hq
  unfold parseTransport
  split
  · split
    · exact yields_some hnone
    next h =>
      refine (yields_readU16 (by omega)).bind fun srcPort _ => ?_
      refine (yields_readU16 (by omega)).bind fun dstPort _ => ?_
      exact (yields_getElem? (by omega)).bind fun tcpFlags _ => yields_some (hsome _ rfl)
  split
  · split
    · exact yields_some hnone
    next h =>
      refine (yields_readU16 (by omega)).bind fun srcPort _ => ?_
      exact (yields_readU16 (by omega)).bind fun dstPort _ => yields_some (hsome _ rfl)
  split
  · split
    · exact yields_some hnone
    next h =>
      refine (yields_getElem? (by omega)).bind fun icmpType _ => ?_
      split
      · exact (yields_readU16 (by omega)).bind fun id _ => yields_some (hsome _ rfl)
      · exact yields_some (hsome _ rfl)
  · exact yields_some hnone

theorem yields_parse : (parse pkt).Yields fun r => ∀ p ∈ r, isTracked p.proto = true := by
  have hnone : ∀ p ∈ (none : Option Parsed), isTracked p.proto = true := fun p hp => absurd hp (not_mem_none p)
  unfold parse
  split
  · exact yields_some hnone
  next h =>
    refine (yields_getElem? (by omega)).bind fun first _ => ?_
    split
    · exact yields_some hnone
    refine (yields_ofSlice? (by omega)).bind fun srcIp _ => ?_
    refine (yields_ofSlice? (by omega)).bind fun dstIp _ => ?_
    refine (yields_getElem? (by omega)).bind fun next _ => ?_
    refine (yields_walkExtHeaders pkt 8 next 40).bind fun walked _ => ?_
    cases walked with
    | none => exact yields_some hnone
    | some last =>
      dsimp only
      split
      · exact yields_some hnone
      next htracked =>
        obtain ⟨r, hr, hproto⟩ := yields_parseTransport pkt last.1 last.2 srcIp dstIp
        refine ⟨r, hr, fun p hp => ?_⟩
        rw [hproto p hp]
        simpa using htracked

theorem exists_parse : ∃ parsed, parse pkt = some parsed := by
  obtain ⟨parsed, hparsed, -⟩ := yields_parse pkt
  exact ⟨parsed, hparsed⟩

theorem isTracked_of_parse {pkt : Bytes} {p : Parsed} (h : parse pkt = some (some p)) : isTracked p.proto = true := by
  obtain ⟨parsed, hparsed, htracked⟩ := yields_parse pkt
  rw [h] at hparsed
  exact htracked p (some.inj hparsed).symm

theorem Firewall.exists_observeOutbound (self : Firewall) (pkt : Bytes) (now : Instant) :
    ∃ fw, self.observeOutbound pkt now = some fw := by
  obtain ⟨parsed, hparsed⟩ := exists_parse pkt
  unfold observeOutbound
  rw [hparsed]
  cases parsed with
  | none => exact ⟨_, rfl⟩
  | some p =>
    dsimp only [bind_eq_bind, bind_some]
    split <;> exact ⟨_, rfl⟩

theorem Firewall.exists_checkInbound (self : Firewall) (pkt : Bytes) (now : Instant) :
    ∃ result, self.checkInbound pkt now = some result := by
  obtain ⟨parsed, hparsed⟩ := exists_parse pkt
  unfold checkInbound
  rw [hparsed]
  cases parsed with
  | none => exact ⟨_, rfl⟩
  | some p =>
    dsimp only [bind_eq_bind, bind_some]
    repeat' split
    all_goals exact ⟨_, rfl⟩

end Yggdrasil
