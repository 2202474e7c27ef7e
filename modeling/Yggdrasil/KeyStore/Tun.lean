import Yggdrasil.Base.Interleave
import Yggdrasil.KeyStore.Firewall

/-!
# `ReadWriteCloser`: the calls at the TUN

The calls of `ipv6rwc.rs` with crypto-key routing and firewall, as programs of atomic sections: a load or a store of a
shared map, or what stands under one lock. A section reads the clock once. A call fails where the program panics.
-/

namespace Yggdrasil
open Vector

/-- Bridges IPv6 traffic (TUN) with the core; with crypto-key routing also IPv4 and routed traffic. -/
structure FullReadWriteCloser extends ReadWriteCloser where
  mtu : UInt32
  ckr : Option CryptoKey
  firewall : Option Firewall

/-- What a call hands to the core: a packet of the TUN, an answer to an oversized packet, or a lookup. -/
inductive TunOutput
  | written (written : Written)
  | reply (written : Written)
  | lookup (key : PublicKey)
deriving DecidableEq

abbrev TunProc (α : Type) := Proc FullReadWriteCloser Instant TunOutput α

structure ByteRange where
  start : Nat
  stop : Nat
deriving DecidableEq

def ByteRange.len (range : ByteRange) : Nat := range.stop - range.start

def clampMtu (mtu : UInt64) : UInt64 := if mtu < 1280 then 1280 else if 65535 < mtu then 65535 else mtu

def clampOverlayMtu (current requested : UInt64) : UInt64 :=
  if clampMtu requested < current then clampMtu requested else current

def KeyStoreLookups.sourceMatches (lookups : KeyStoreLookups) (key : PublicKey) (srcIp : Address) : Bool :=
  (lookups.keyToInfo.lookup key).any fun info => srcIp == info.address || Address.subnet srcIp == info.subnet

namespace FullReadWriteCloser
open Proc
variable (pfx : UInt8)

def new (publicKey : PublicKey) (mtu : UInt64) (firewall : Option Firewall) : FullReadWriteCloser :=
  { ReadWriteCloser.new pfx publicKey with mtu := (clampMtu mtu).toUInt32, ckr := none, firewall }

variable (ckr : CryptoKey)

def initCryptoKey : TunProc Unit := update fun _ self => ((), { self with ckr := some ckr })

def setMtu (mtu : UInt64) : TunProc Unit := do
  let current ← read fun _ self => self.mtu
  update fun _ self => ((), { self with mtu := (clampOverlayMtu current.toUInt64 mtu).toUInt32 })

def askFirewall {α : Type} (absent : α) (ask : Firewall → Option (α × Firewall)) (self : FullReadWriteCloser) :
    Option (α × FullReadWriteCloser) :=
  match self.firewall with
  | some fw =>
    if fw.enable then (ask fw).map fun r => (r.1, { self with firewall := some r.2 }) else some (absent, self)
  | none => some (absent, self)

def gcFirewall : TunProc Unit :=
  update fun now self => ((), { self with firewall := self.firewall.map fun fw => fw.gc now })

/-! ## The key store -/

def flush (key : PublicKey) (buffered : Option BufferedPacket) : TunProc Unit :=
  emit fun now => (ReadWriteCloser.flush key now buffered).map TunOutput.written

def updateKey (key : PublicKey) : TunProc Unit := do
  let fresh ← read fun now self => (self.lookups.keyToInfo.lookup key).any fun info =>
    elapsed now info.lastSeen < KEY_STORE_TIMEOUT / 2
  if fresh then pure ()
  else
    let address := addrForKey pfx key
    let subnet := subnetForKey pfx key
    let now ← read fun now _ => now
    -- the writer lock: clone and swap
    update fun _ self => ((), { self with
        lookups :=
          { keyToInfo := self.lookups.keyToInfo.insert key { address, subnet, lastSeen := now }
            addrToInfo := self.lookups.addrToInfo.insert address key
            subnetToInfo := self.lookups.subnetToInfo.insert subnet key } })
    let buffered ← update fun _ self =>
      ((self.buffers.addrBuffer.lookup address, self.buffers.subnetBuffer.lookup subnet), { self with
          buffers :=
            { addrBuffer := self.buffers.addrBuffer.remove address
              subnetBuffer := self.buffers.subnetBuffer.remove subnet } })
    flush key buffered.1
    flush key buffered.2

def cleanup : TunProc Unit := do
  update fun now self => ((), { self with lookups := (self.toReadWriteCloser.cleanup now).lookups })
  update fun now self => ((), { self with buffers := (self.toReadWriteCloser.cleanup now).buffers })

/-! ## Packets from the TUN -/

variable (buf : Bytes)

def observeOutbound (now : Instant) : FullReadWriteCloser → Option (Unit × FullReadWriteCloser) :=
  askFirewall () fun fw => (fw.observeOutbound buf now).map fun fw => ((), fw)

/-- Put a packet into the buffer of its destination; returns the key to look for. -/
def buffer (dstIp : Address) (buf : Bytes) (now : Instant) (self : FullReadWriteCloser) :
    PublicKey × FullReadWriteCloser :=
  let buffered : BufferedPacket := { data := buf, time := now }
  if isValidAddress pfx dstIp then
    (Address.getKey dstIp, { self with buffers.addrBuffer := self.buffers.addrBuffer.insert dstIp buffered })
  else
    let dstSubnet := Address.subnet dstIp
    (Subnet.getKey dstSubnet, { self with buffers.subnetBuffer := self.buffers.subnetBuffer.insert dstSubnet buffered })

/-- Send a packet to the key of a Yggdrasil destination, or keep it and look for the key. -/
def sendOrBuffer (dstIp : Address) (buf : Bytes) : TunProc (Except String Unit) := do
  match ← read fun _ self => ReadWriteCloser.destinationKey pfx self.lookups dstIp with
  | some key =>
    emit fun _ => [.written { key, data := buf }]
    pure (.ok ())
  | none =>
    let lookupKey ← update (buffer pfx dstIp buf)
    emit fun _ => [.lookup lookupKey]
    pure (.ok ())

/-- The route of a destination outside the Yggdrasil range; without one the packet is dropped. -/
def ckrSend (dst : IpAddr) (buf : Bytes) : TunProc (Except String Unit) :=
  match ckr.getPublicKeyForAddress pfx dst with
  | some key => do
    emit fun _ => [.written { key, data := buf }]
    pure (.ok ())
  | none => pure (.ok ())

def ckrWrite (ip4 ip6 : Bool) : TunProc (Except String Unit) :=
  if ip4 then
    if buf.length < 20 then pure (.ok ())
    else do
      let dst ← ofOption (ofSlice? 4 buf 16)
      ckrSend pfx ckr (.v4 dst) buf
  else do
    let dstIp ← ofOption (ofSlice? 16 buf 24)
    if ip6 && ckr.yggdrasilRouting && (isValidAddress pfx dstIp || isValidSubnet pfx (Address.subnet dstIp)) then
      sendOrBuffer pfx dstIp buf
    else ckrSend pfx ckr (.v6 dstIp) buf

def observe (ip6 : Bool) : TunProc Unit := if ip6 then attempt (observeOutbound buf) else pure ()

def standardWrite (ip6 : Bool) : TunProc (Except String Unit) :=
  if buf.length < IPV6_HEADER_LEN then pure (.error "packet too short")
  else if !ip6 then pure (.error "not an IPv6 packet")
  else do
    let srcIp ← ofOption (ofSlice? 16 buf 8)
    let dstIp ← ofOption (ofSlice? 16 buf 24)
    let sourceIsUs ← read fun _ self => srcIp == self.address || Address.subnet srcIp == self.subnet
    if !sourceIsUs then pure (.error "invalid source address")
    else if !isValidAddress pfx dstIp && !isValidSubnet pfx (Address.subnet dstIp) then
      pure (.error "invalid destination address")
    else sendOrBuffer pfx dstIp buf

def write : TunProc (Except String Unit) := do
  let ip4 := buf.head?.any isIp4
  let ip6 := buf.head?.any isIp6
  observe buf ip6
  match ← read fun _ self => self.ckr with
  | some ckr =>
    if !ip4 && !ip6 then pure (.ok ())
    else if ip6 && buf.length < IPV6_HEADER_LEN then pure (.ok ())
    else ckrWrite pfx ckr buf ip4 ip6
  | none => standardWrite pfx buf ip6

/-! ## Packets from the network -/

def checkInbound (packet : Bytes) (now : Instant) : FullReadWriteCloser → Option (Bool × FullReadWriteCloser) :=
  askFirewall true fun fw => fw.checkInbound packet now

def ckrSourceValid (packet : Bytes) (ip4 : Bool) (fromKey : PublicKey) : TunProc Bool :=
  if ip4 then
    if packet.length < 20 then pure false
    else do
      let src ← ofOption (ofSlice? 4 packet 12)
      pure (ckr.getPublicKeyForAddress pfx (.v4 src) == some fromKey)
  else do
    let src ← ofOption (ofSlice? 16 packet 8)
    pure (ckr.getPublicKeyForAddress pfx (.v6 src) == some fromKey)

def ckrReadValidate (packet : Bytes) (ip4 ip6 : Bool) (fromKey : PublicKey) : TunProc Bool := do
  if ip6 && ckr.yggdrasilRouting then
    let srcIp ← ofOption (ofSlice? 16 packet 8)
    if ← read fun _ self => self.lookups.sourceMatches fromKey srcIp then pure true
    else ckrSourceValid pfx ckr packet ip4 fromKey
  else ckrSourceValid pfx ckr packet ip4 fromKey

def replyTooBig (packet : Bytes) (overlayMtu : UInt32) (ip6 : Bool) (fromAddr : PublicKey) : TunProc Unit :=
  if ip6 then do
    match ← ofOption (buildIcmpv6Ptb packet overlayMtu) with
    | some ptb => emit fun _ => [.reply { key := fromAddr, data := ptb }]
    | none => pure ()
  else pure ()

/-- The checks of a packet that is not too long, after the sender's key is known. -/
def validateInbound (ckrGuard : Option CryptoKey) (packet : Bytes) (ip4 ip6 : Bool) (fromKey : PublicKey) :
    TunProc Bool := do
  match ckrGuard with
  | some ckr =>
    if ← ckrReadValidate pfx ckr packet ip4 ip6 fromKey then
      if ip6 then attempt (checkInbound packet) else pure true
    else pure false
  | none =>
    let srcIp ← ofOption (ofSlice? 16 packet 8)
    let dstIp ← ofOption (ofSlice? 16 packet 24)
    let dstIsUs ← read fun _ self => dstIp == self.address || Address.subnet dstIp == self.subnet
    if !dstIsUs then pure false
    else if ← read fun _ self => self.lookups.sourceMatches fromKey srcIp then attempt (checkInbound packet)
    else pure false

/-- Validate one inbound packet at `range` of `buf`: the range to deliver to the TUN, if any. -/
def acceptInbound (range : ByteRange) (fromAddr : PublicKey) : TunProc (Option ByteRange) := do
  let n := range.len
  if n = 0 then pure none
  else
    let packet ← ofOption (buf.slice? range.start range.stop)
    let first ← ofOption packet[0]?
    let ip4 := isIp4 first
    let ip6 := isIp6 first
    let ckrGuard ← read fun _ self => self.ckr
    if ckrGuard.isNone && !ip6 then pure none
    else if ckrGuard.isSome && !ip4 && !ip6 then pure none
    else if ip6 && n < IPV6_HEADER_LEN then pure none
    else
      let overlayMtu ← read fun _ self => self.mtu
      if overlayMtu.toNat < n then
        replyTooBig packet overlayMtu ip6 fromAddr
        pure none
      else
        updateKey pfx fromAddr
        if ← validateInbound pfx ckrGuard packet ip4 ip6 fromAddr then pure (some range) else pure none

end FullReadWriteCloser

/-! ## A call that nobody interrupts -/

def WriteResult.turn (self : FullReadWriteCloser) :
    WriteResult → Turn FullReadWriteCloser TunOutput (Except String Unit)
  | .err message => ⟨.error message, [], self⟩
  | .sent written => ⟨.ok (), [.written written], self⟩
  | .lookup key => ⟨.ok (), [.lookup key], self⟩

namespace FullReadWriteCloser
open Proc
variable {pfx : UInt8} (self : FullReadWriteCloser) (now : Instant)

theorem alone_updateKey (key : PublicKey) : (updateKey pfx key).alone now self =
      some ⟨(), (self.toReadWriteCloser.updateKey pfx key now).1.map .written,
        { self with toReadWriteCloser := (self.toReadWriteCloser.updateKey pfx key now).2 }⟩ := by
  unfold updateKey ReadWriteCloser.updateKey
  rw [alone_read_bind]
  split
  · rfl
  unfold flush
  rw [alone_read_bind, alone_update_bind, alone_update_bind, alone_emit_bind, alone_emit, List.map_append]
  rfl

variable {self}

theorem alone_observe_bind (hfw : self.firewall = none) (buf : Bytes) (ip6 : Bool) {α : Type}
    (rest : Unit → TunProc α) : (observe buf ip6 >>= rest).alone now self = (rest ()).alone now self := by
  cases ip6 with
  | false => rfl
  | true =>
    have hobserve : observeOutbound buf now self = some ((), self) := by
      unfold observeOutbound askFirewall
      rw [hfw]
    exact alone_attempt_bind hobserve rest

theorem alone_standardWrite (buf : Bytes) : (standardWrite pfx buf (buf.head?.any isIp6)).alone now self =
      some ((self.toReadWriteCloser.write pfx buf now).1.turn
        { self with toReadWriteCloser := (self.toReadWriteCloser.write pfx buf now).2 }) := by
  unfold standardWrite ReadWriteCloser.write
  split
  · rfl
  next hlen =>
    have h40 : 40 ≤ buf.length := Nat.le_of_not_lt hlen
    have hip6 : (!buf.head?.any isIp6) = true ↔ buf.getD 0 0 &&& 0xf0 ≠ 0x60 := by
      cases buf with
      | nil => exact absurd (by decide) hlen
      | cons b bs => simp [isIp6]
    simp only [hip6]
    split
    · rfl
    rw [ofSlice?_of_le (by omega), ofSlice?_of_le (by omega), alone_ofOption_bind, alone_ofOption_bind,
      alone_read_bind]
    generalize hsrc : ofSlice 16 buf 8 = srcIp
    generalize hdst : ofSlice 16 buf 24 = dstIp
    have hus : (!(srcIp == self.address || Address.subnet srcIp == self.subnet)) = true ↔
        srcIp ≠ self.address ∧ Address.subnet srcIp ≠ self.subnet := by
      simp
    have hsrc' : (Vector.ofFn fun i : Fin 16 => buf.getD (8 + i) 0) = srcIp := hsrc
    have hdst' : (Vector.ofFn fun i : Fin 16 => buf.getD (24 + i) 0) = dstIp := hdst
    simp only [hus, hsrc', hdst']
    split
    · rfl
    split
    · rfl
    unfold sendOrBuffer
    rw [alone_read_bind]
    cases ReadWriteCloser.destinationKey pfx self.lookups dstIp with
    | some key => rfl
    | none =>
      unfold buffer
      dsimp only
      split <;> rfl

theorem alone_write (hckr : self.ckr = none) (hfw : self.firewall = none) (buf : Bytes) :
    (write pfx buf).alone now self = some ((self.toReadWriteCloser.write pfx buf now).1.turn
      { self with toReadWriteCloser := (self.toReadWriteCloser.write pfx buf now).2 }) := by
  have hstandard : (write pfx buf).alone now self = (standardWrite pfx buf (buf.head?.any isIp6)).alone now self := by
    unfold write
    rw [alone_observe_bind now hfw, alone_read_bind, hckr]
  rw [hstandard, alone_standardWrite]

end FullReadWriteCloser

end Yggdrasil
