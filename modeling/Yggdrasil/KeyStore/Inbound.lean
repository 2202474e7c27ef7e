import Yggdrasil.KeyStore.Known
import Yggdrasil.KeyStore.Tun

/-!
# No spoofed packet passes the TUN

Any number of calls run on one `ReadWriteCloser`, interleaved section by section.
-/

namespace Yggdrasil
open Bool List Option HashMap

/-! ## What a packet says -/

variable (packet : Bytes)

def IsIpv4 : Prop := packet.head?.any isIp4 ∧ 20 ≤ packet.length

def IsIpv6 : Prop := packet.head?.any isIp6 ∧ IPV6_HEADER_LEN ≤ packet.length

def sourceIp6 : Address := Vector.ofSlice 16 packet 8

def destinationIp6 : Address := Vector.ofSlice 16 packet 24

def sourceIp : IpAddr :=
  if packet.head?.any isIp4 then .v4 (Vector.ofSlice 4 packet 12) else .v6 (sourceIp6 packet)

def destinationIp : IpAddr :=
  if packet.head?.any isIp4 then .v4 (Vector.ofSlice 4 packet 16) else .v6 (destinationIp6 packet)

theorem ofSlice?_sourceIp6 {packet : Bytes} (h : IPV6_HEADER_LEN ≤ packet.length) :
    Vector.ofSlice? 16 packet 8 = some (sourceIp6 packet) := Vector.ofSlice?_of_le (Nat.le_trans (by decide) h)

theorem ofSlice?_destinationIp6 {packet : Bytes} (h : IPV6_HEADER_LEN ≤ packet.length) :
    Vector.ofSlice? 16 packet 24 = some (destinationIp6 packet) := Vector.ofSlice?_of_le (Nat.le_trans (by decide) h)

variable (pfx : UInt8)

/-- The address of the key, or one in its subnet. -/
def OwnsAddress (key : PublicKey) (addr : Address) : Prop :=
  addr = addrForKey pfx key ∨ Address.subnet addr = subnetForKey pfx key

def CryptoKey.Owns (ckr : CryptoKey) (key : PublicKey) (addr : IpAddr) : Prop :=
  isYggdrasilDestination pfx addr = false ∧ ckr.LongestMatch addr key

/-- Without crypto-key routing: an IPv6 packet for the node, from an address of its sender. -/
def StandardInbound (own : PublicKey) (packet : Bytes) (fromKey : PublicKey) : Prop :=
  IsIpv6 packet ∧ OwnsAddress pfx own (destinationIp6 packet) ∧ OwnsAddress pfx fromKey (sourceIp6 packet)

/-- With crypto-key routing: the source is an address of the sender, or is routed to it. -/
def CkrInbound (ckr : CryptoKey) (packet : Bytes) (fromKey : PublicKey) : Prop :=
  (IsIpv4 packet ∨ IsIpv6 packet) ∧
    (ckr.yggdrasilRouting ∧ IsIpv6 packet ∧ OwnsAddress pfx fromKey (sourceIp6 packet) ∨
      ckr.Owns pfx fromKey (sourceIp packet))

/-- The packet fits the MTU and passes the check of the routing mode, as they were at some points of the call. -/
structure Accepted (pfx : UInt8) (own : PublicKey) (seen : List FullReadWriteCloser) (packet : Bytes)
    (fromKey : PublicKey) : Prop where
  mtu : ∃ s ∈ seen, packet.length ≤ s.mtu.toNat
  valid : ∃ s ∈ seen, (s.ckr = none → StandardInbound pfx own packet fromKey) ∧
    ∀ ckr, s.ckr = some ckr → CkrInbound pfx ckr packet fromKey

/-- The destination is an address of the key, or the routing table leads it there at some point of the call. -/
def OwnsDestination (seen : List FullReadWriteCloser) (key : PublicKey) (packet : Bytes) : Prop :=
  IsIpv6 packet ∧ OwnsAddress pfx key (destinationIp6 packet) ∨
    (IsIpv4 packet ∨ IsIpv6 packet) ∧ ∃ s ∈ seen, ∃ ckr, s.ckr = some ckr ∧ ckr.Owns pfx key (destinationIp packet)

/-! ## The key store -/

structure KeyStoreBuffers.Addressed (buffers : KeyStoreBuffers) : Prop where
  addrBuffer : ∀ a b, buffers.addrBuffer.lookup a = some b → IsIpv6 b.data ∧ destinationIp6 b.data = a
  subnetBuffer : ∀ s b, buffers.subnetBuffer.lookup s = some b →
    IsIpv6 b.data ∧ Address.subnet (destinationIp6 b.data) = s

section Lookups
variable {pfx : UInt8} {lookups : KeyStoreLookups} {buffers : KeyStoreBuffers}

section
variable (h : lookups.Consistent pfx)
include h

theorem KeyStoreLookups.Consistent.sourceMatches {key : PublicKey} {srcIp : Address}
    (hsrc : lookups.sourceMatches key srcIp) : OwnsAddress pfx key srcIp := by
  unfold KeyStoreLookups.sourceMatches at hsrc
  rw [Option.any_eq_true] at hsrc
  obtain ⟨info, hinfo, hmatch⟩ := hsrc
  obtain ⟨haddress, hsubnet⟩ := h.keyToInfo key info hinfo
  rw [or_eq_true, beq_iff_eq, beq_iff_eq, haddress, hsubnet] at hmatch
  exact hmatch

theorem KeyStoreLookups.Consistent.destinationKey {key : PublicKey} {dstIp : Address}
    (hkey : ReadWriteCloser.destinationKey pfx lookups dstIp = some key) : OwnsAddress pfx key dstIp := by
  unfold ReadWriteCloser.destinationKey at hkey
  split at hkey
  · exact .inl (h.addrToInfo dstIp key hkey).symm
  · exact .inr (h.subnetToInfo _ key hkey).symm

end

theorem KeyStoreBuffers.Addressed.remove (h : buffers.Addressed) (a : Address) (s : Subnet) :
    KeyStoreBuffers.Addressed
      { addrBuffer := buffers.addrBuffer.remove a, subnetBuffer := buffers.subnetBuffer.remove s } where
  addrBuffer := forall_remove h.addrBuffer a
  subnetBuffer := forall_remove h.subnetBuffer s

theorem KeyStoreBuffers.Addressed.retain (h : buffers.Addressed) (p : BufferedPacket → Bool) :
    KeyStoreBuffers.Addressed
      { addrBuffer := buffers.addrBuffer.retain fun _ b => p b
        subnetBuffer := buffers.subnetBuffer.retain fun _ b => p b } where
  addrBuffer := forall_retain h.addrBuffer _
  subnetBuffer := forall_retain h.subnetBuffer _

end Lookups

/-! ## The calls -/

/-- A call on the `ReadWriteCloser`. The range of a packet that the core hands over lies in the buffer. -/
inductive TunCall
  | acceptInbound (buf : Bytes) (range : ByteRange) (inBuf : range.stop ≤ buf.length) (fromAddr : PublicKey)
  | write (buf : Bytes)
  | updateKey (key : PublicKey)
  | cleanup
  | setMtu (mtu : UInt64)
  | initCryptoKey (ckr : CryptoKey)
  | gcFirewall

inductive TunResult
  | inbound (accepted : Option ByteRange)
  | outbound (result : Except String Unit)
  | finished
deriving DecidableEq

def TunCall.proc : TunCall → TunProc TunResult
  | .acceptInbound buf range _ fromAddr => do
    let accepted ← FullReadWriteCloser.acceptInbound pfx buf range fromAddr
    pure (.inbound accepted)
  | .write buf => do
    let result ← FullReadWriteCloser.write pfx buf
    pure (.outbound result)
  | .updateKey key => do
    FullReadWriteCloser.updateKey pfx key
    pure .finished
  | .cleanup => do
    FullReadWriteCloser.cleanup
    pure .finished
  | .setMtu mtu => do
    FullReadWriteCloser.setMtu mtu
    pure .finished
  | .initCryptoKey ckr => do
    FullReadWriteCloser.initCryptoKey ckr
    pure .finished
  | .gcFirewall => do
    FullReadWriteCloser.gcFirewall
    pure .finished

namespace FullReadWriteCloser

structure Consistent (pfx : UInt8) (own : PublicKey) (rwc : FullReadWriteCloser) : Prop where
  address : rwc.address = addrForKey pfx own
  subnet : rwc.subnet = subnetForKey pfx own
  lookups : rwc.lookups.Consistent pfx
  buffers : rwc.buffers.Addressed

/-- What a call may hand to the core: a packet for a key that owns its destination, or an answer to a sender. -/
def Sends (pfx : UInt8) (call : TunCall) (seen : List FullReadWriteCloser) : TunOutput → Prop
  | .written w => OwnsDestination pfx seen w.key w.data
  | .reply w => ∃ buf range inBuf, call = .acceptInbound buf range inBuf w.key
  | .lookup _ => True

abbrev Harmless {α : Type} (pfx : UInt8) (own : PublicKey) (call : TunCall) (seen : List FullReadWriteCloser)
    (p : TunProc α) : Prop := p.Meets (Consistent pfx own) (Sends pfx call) (fun _ _ => True) seen

variable {pfx : UInt8} {own : PublicKey} {call : TunCall} {seen : List FullReadWriteCloser}

theorem Consistent.of_store {s s' : FullReadWriteCloser} (h : s.Consistent pfx own)
    (hstore : s'.toReadWriteCloser = s.toReadWriteCloser) : s'.Consistent pfx own where
  address := by rw [hstore]; exact h.address
  subnet := by rw [hstore]; exact h.subnet
  lookups := by rw [hstore]; exact h.lookups
  buffers := by rw [hstore]; exact h.buffers

theorem consistent_new (mtu : UInt64) (firewall : Option Firewall) :
    (FullReadWriteCloser.new pfx own mtu firewall).Consistent pfx own where
  address := rfl
  subnet := rfl
  lookups := ⟨fun _ _ h => absurd h nofun, fun _ _ h => absurd h nofun, fun _ _ h => absurd h nofun⟩
  buffers := ⟨fun _ _ h => absurd h nofun, fun _ _ h => absurd h nofun⟩

open Proc

/-! ### Keys -/

theorem meets_flush {key : PublicKey} {buffered : Option BufferedPacket}
    (h : ∀ b, buffered = some b → IsIpv6 b.data ∧ OwnsAddress pfx key (destinationIp6 b.data)) :
    Harmless pfx own call seen (flush key buffered) := by
  refine meets_emit (fun now e seen' _ he => ?_) fun _ _ => trivial
  obtain ⟨w, hw, rfl⟩ := mem_map.mp he
  cases buffered with
  | none => exact absurd hw not_mem_nil
  | some b =>
    rw [ReadWriteCloser.flush] at hw
    split at hw
    · rw [mem_singleton.mp hw]
      exact .inl (h b rfl)
    · exact absurd hw not_mem_nil

theorem meets_updateKey (key : PublicKey) : Harmless pfx own call seen (updateKey pfx key) := by
  refine meets_bind (meets_read fun _ _ seen _ _ _ => ?_)
  split
  · exact meets_pure trivial
  refine meets_bind (meets_read fun now _ seen _ _ _ => ?_)
  refine meets_bind (meets_update fun _ s seen _ hs => ⟨?_, ?_⟩)
  · exact ⟨hs.address, hs.subnet, hs.lookups.learn key now, hs.buffers⟩
  refine meets_bind (meets_update fun _ s seen _ hs => ⟨?_, ?_⟩)
  · exact ⟨hs.address, hs.subnet, hs.lookups, hs.buffers.remove _ _⟩
  refine (meets_flush fun b hb => ?_).bind fun _ seen _ _ => meets_flush fun b hb => ?_
  · obtain ⟨hip6, hdst⟩ := hs.buffers.addrBuffer _ b hb
    exact ⟨hip6, .inl hdst⟩
  obtain ⟨hip6, hdst⟩ := hs.buffers.subnetBuffer _ b hb
  exact ⟨hip6, .inr hdst⟩

theorem meets_cleanup : Harmless pfx own call seen cleanup := by
  refine meets_bind (meets_update fun now s seen _ hs => ⟨?_, ?_⟩)
  · exact ⟨hs.address, hs.subnet, hs.lookups.removeKeys _, hs.buffers⟩
  refine meets_update fun now s seen _ hs => ⟨?_, trivial⟩
  exact ⟨hs.address, hs.subnet, hs.lookups, hs.buffers.retain _⟩

/-! ### Packets from the TUN -/

variable {buf packet : Bytes} {ckr : CryptoKey}

theorem Consistent.buffer {s : FullReadWriteCloser} (hs : s.Consistent pfx own) (hbuf : IsIpv6 buf)
    (now : Instant) : (buffer pfx (destinationIp6 buf) buf now s).2.Consistent pfx own := by
  unfold FullReadWriteCloser.buffer
  dsimp only
  split
  · refine ⟨hs.address, hs.subnet, hs.lookups, ?_, hs.buffers.subnetBuffer⟩
    exact forall_insert hs.buffers.addrBuffer ⟨hbuf, rfl⟩
  refine ⟨hs.address, hs.subnet, hs.lookups, hs.buffers.addrBuffer, ?_⟩
  exact forall_insert hs.buffers.subnetBuffer ⟨hbuf, rfl⟩

theorem meets_sendOrBuffer (hbuf : IsIpv6 buf) :
    Harmless pfx own call seen (sendOrBuffer pfx (destinationIp6 buf) buf) := by
  refine meets_bind (meets_read fun _ s seen _ _ hs => ?_)
  split
  next key hkey =>
    refine meets_bind (meets_emit (fun _ e seen _ he => ?_) fun _ _ => trivial)
    rw [mem_singleton.mp he]
    exact .inl ⟨hbuf, hs.lookups.destinationKey hkey⟩
  refine meets_bind (meets_update fun now s seen _ hs => ⟨hs.buffer hbuf now, ?_⟩)
  refine meets_bind (meets_emit (fun _ e seen _ he => ?_) fun _ _ => trivial)
  rw [mem_singleton.mp he]
  trivial

theorem meets_ckrSend (hbuf : IsIpv4 buf ∨ IsIpv6 buf) (hckr : ∃ s ∈ seen, s.ckr = some ckr) :
    Harmless pfx own call seen (ckrSend pfx ckr (destinationIp buf) buf) := by
  unfold ckrSend
  split
  next key hkey =>
    refine meets_bind (meets_emit (fun _ e seen' hsub he => ?_) fun _ _ => trivial)
    rw [mem_singleton.mp he]
    obtain ⟨s, hs, hckr⟩ := hckr
    exact .inr ⟨hbuf, s, hsub hs, ckr, hckr, (ckr.getPublicKeyForAddress_eq_some_iff pfx _ key).mp hkey⟩
  · exact meets_pure trivial

theorem meets_ckrWrite (hip : buf.head?.any isIp4 ∨ IsIpv6 buf) (hckr : ∃ s ∈ seen, s.ckr = some ckr) :
    Harmless pfx own call seen (ckrWrite pfx ckr buf (buf.head?.any isIp4) (buf.head?.any isIp6)) := by
  unfold ckrWrite
  split
  next hip4 =>
    split
    · exact meets_pure trivial
    next hlen =>
      have hdst : destinationIp buf = .v4 (Vector.ofSlice 4 buf 16) := if_pos hip4
      refine meets_bind (meets_ofOption (Vector.ofSlice?_of_le (by omega)) ?_)
      rw [← hdst]
      exact meets_ckrSend (.inl ⟨hip4, by omega⟩) hckr
  next hip4 =>
    have hip6 : IsIpv6 buf := hip.resolve_left hip4
    have hdst : destinationIp buf = .v6 (destinationIp6 buf) := if_neg hip4
    refine meets_bind (meets_ofOption (ofSlice?_destinationIp6 hip6.2) ?_)
    split
    · exact meets_sendOrBuffer hip6
    rw [← hdst]
    exact meets_ckrSend (.inr hip6) hckr

theorem meets_standardWrite (buf : Bytes) :
    Harmless pfx own call seen (standardWrite pfx buf (buf.head?.any isIp6)) := by
  unfold standardWrite
  split
  · exact meets_pure trivial
  next hlen =>
    split
    · exact meets_pure trivial
    next hip6 =>
      have hbuf : IsIpv6 buf := ⟨by simpa using hip6, Nat.le_of_not_lt hlen⟩
      refine meets_bind (meets_ofOption (ofSlice?_sourceIp6 hbuf.2) ?_)
      refine meets_bind (meets_ofOption (ofSlice?_destinationIp6 hbuf.2) ?_)
      refine meets_bind (meets_read fun _ s seen _ _ _ => ?_)
      generalize (sourceIp6 buf == s.address || Address.subnet (sourceIp6 buf) == s.subnet) = sourceIsUs
      generalize hdst : destinationIp6 buf = dstIp
      split
      · exact meets_pure trivial
      split
      · exact meets_pure trivial
      rw [← hdst]
      exact meets_sendOrBuffer hbuf

theorem meets_askFirewall {α : Type} {absent : α} {ask : Instant → Firewall → Option (α × Firewall)}
    (hask : ∀ now fw, ∃ r, ask now fw = some r) {post : List FullReadWriteCloser → α → Prop}
    (hpost : ∀ seen a, post seen a) :
    (attempt fun now => askFirewall absent (ask now)).Meets (Consistent pfx own) (Sends pfx call) post seen := by
  refine meets_attempt fun now s hs => ?_
  unfold askFirewall
  split
  next fw _ =>
    split
    · obtain ⟨r, hr⟩ := hask now fw
      rw [hr]
      exact ⟨_, rfl, hs.of_store rfl, fun _ _ => hpost _ _⟩
    · exact ⟨_, rfl, hs, fun _ _ => hpost _ _⟩
  · exact ⟨_, rfl, hs, fun _ _ => hpost _ _⟩

theorem meets_observe (buf : Bytes) (ip6 : Bool) : Harmless pfx own call seen (observe buf ip6) := by
  unfold observe
  split
  · refine meets_askFirewall (fun now fw => ?_) fun _ _ => trivial
    obtain ⟨fw', hfw'⟩ := fw.exists_observeOutbound buf now
    rw [hfw']
    exact ⟨_, rfl⟩
  · exact meets_pure trivial

theorem meets_write (buf : Bytes) : Harmless pfx own call seen (write pfx buf) := by
  refine (meets_observe buf _).bind fun _ seen _ _ => ?_
  refine meets_bind (meets_read fun _ s seen' _ hs _ => ?_)
  split
  next ckr hckr =>
    split
    · exact meets_pure trivial
    next hip =>
      split
      · exact meets_pure trivial
      next hlen =>
        refine meets_ckrWrite ?_ ⟨s, hs, hckr⟩
        cases hip4 : buf.head?.any isIp4 with
        | true => exact .inl rfl
        | false =>
          have hip6 : buf.head?.any isIp6 = true := by simpa [hip4] using hip
          refine .inr ⟨hip6, ?_⟩
          simpa [hip6] using hlen
  · exact meets_standardWrite buf

/-! ### Packets from the network -/

theorem meets_checkInbound {P : Prop} (hP : P) (packet : Bytes) :
    (attempt (checkInbound packet)).Meets (Consistent pfx own) (Sends pfx call) (fun _ accepted => accepted = true → P)
      seen :=
  meets_askFirewall (fun now fw => fw.exists_checkInbound packet now) fun _ _ _ => hP

theorem meets_ckrSourceValid (hip : packet.head?.any isIp4 ∨ IsIpv6 packet) (fromKey : PublicKey) :
    (ckrSourceValid pfx ckr packet (packet.head?.any isIp4) fromKey).Meets (Consistent pfx own) (Sends pfx call)
      (fun _ valid => valid = true → CkrInbound pfx ckr packet fromKey) seen := by
  unfold ckrSourceValid
  split
  next hip4 =>
    split
    · exact meets_pure fun h => absurd h false_ne_true
    next hlen =>
      have hsrc : sourceIp packet = .v4 (Vector.ofSlice 4 packet 12) := if_pos hip4
      refine meets_bind (meets_ofOption (Vector.ofSlice?_of_le (by omega)) (meets_pure fun hvalid => ?_))
      rw [← hsrc, beq_iff_eq, ckr.getPublicKeyForAddress_eq_some_iff] at hvalid
      exact ⟨.inl ⟨hip4, by omega⟩, .inr hvalid⟩
  next hip4 =>
    have hip6 : IsIpv6 packet := hip.resolve_left hip4
    have hsrc : sourceIp packet = .v6 (sourceIp6 packet) := if_neg hip4
    refine meets_bind (meets_ofOption (ofSlice?_sourceIp6 hip6.2) (meets_pure fun hvalid => ?_))
    rw [← hsrc, beq_iff_eq, ckr.getPublicKeyForAddress_eq_some_iff] at hvalid
    exact ⟨.inr hip6, .inr hvalid⟩

theorem meets_ckrReadValidate (hip : packet.head?.any isIp4 ∨ IsIpv6 packet)
    (hip6 : packet.head?.any isIp6 → IsIpv6 packet) (fromKey : PublicKey) :
    (ckrReadValidate pfx ckr packet (packet.head?.any isIp4) (packet.head?.any isIp6) fromKey).Meets
      (Consistent pfx own) (Sends pfx call) (fun _ valid => valid = true → CkrInbound pfx ckr packet fromKey) seen := by
  unfold ckrReadValidate
  split
  next hrouting =>
    rw [and_eq_true] at hrouting
    have hipv6 := hip6 hrouting.1
    refine meets_bind (meets_ofOption (ofSlice?_sourceIp6 hipv6.2) ?_)
    refine meets_bind (meets_read fun _ s seen _ _ hs => ?_)
    split
    next hsource =>
      refine meets_pure fun _ => ⟨.inr hipv6, .inl ⟨hrouting.2, hipv6, ?_⟩⟩
      exact hs.lookups.sourceMatches hsource
    · exact meets_ckrSourceValid hip fromKey
  · exact meets_ckrSourceValid hip fromKey

theorem meets_replyTooBig {overlayMtu : UInt32} {ip6 : Bool} {fromAddr : PublicKey}
    (hcall : ∃ buf range inBuf, call = .acceptInbound buf range inBuf fromAddr) :
    Harmless pfx own call seen (replyTooBig packet overlayMtu ip6 fromAddr) := by
  unfold replyTooBig
  split
  · obtain ⟨ptb, hptb⟩ := exists_buildIcmpv6Ptb packet overlayMtu
    refine meets_bind (meets_ofOption hptb ?_)
    cases ptb with
    | none => exact meets_pure trivial
    | some ptb =>
      refine meets_emit (fun _ e _ _ he => ?_) fun _ _ => trivial
      rw [mem_singleton.mp he]
      exact hcall
  · exact meets_pure trivial

theorem meets_validateInbound {ckrGuard : Option CryptoKey}
    (hip : packet.head?.any isIp4 ∧ ckrGuard.isSome ∨ IsIpv6 packet) (hip6 : packet.head?.any isIp6 → IsIpv6 packet)
    (fromKey : PublicKey) :
    (validateInbound pfx ckrGuard packet (packet.head?.any isIp4) (packet.head?.any isIp6) fromKey).Meets
      (Consistent pfx own) (Sends pfx call)
      (fun _ valid => valid = true → (ckrGuard = none → StandardInbound pfx own packet fromKey) ∧
        ∀ ckr, ckrGuard = some ckr → CkrInbound pfx ckr packet fromKey) seen := by
  cases ckrGuard with
  | some ckr =>
    refine (meets_ckrReadValidate (hip.imp And.left id) hip6 fromKey).bind fun valid seen _ hvalid => ?_
    split
    next h =>
      have hckr : (some ckr = none → StandardInbound pfx own packet fromKey) ∧
          ∀ ckr', some ckr = some ckr' → CkrInbound pfx ckr' packet fromKey := by
        refine ⟨fun h => absurd h (some_ne_none ckr), fun ckr' hckr' => ?_⟩
        rw [← some.inj hckr']
        exact hvalid h
      split
      · exact meets_checkInbound hckr packet
      · exact meets_pure fun _ => hckr
    · exact meets_pure fun h => absurd h false_ne_true
  | none =>
    have hipv6 : IsIpv6 packet := hip.resolve_left fun h => absurd h.2 false_ne_true
    refine meets_bind (meets_ofOption (ofSlice?_sourceIp6 hipv6.2) ?_)
    refine meets_bind (meets_ofOption (ofSlice?_destinationIp6 hipv6.2) ?_)
    refine meets_bind (meets_read fun _ s seen _ _ hs => ?_)
    cases hdst : (destinationIp6 packet == s.address || Address.subnet (destinationIp6 packet) == s.subnet) with
    | false => exact meets_pure fun h => absurd h false_ne_true
    | true =>
      rw [or_eq_true, beq_iff_eq, beq_iff_eq, hs.address, hs.subnet] at hdst
      refine meets_bind (meets_read fun _ s' seen _ _ hs' => ?_)
      cases hsrc : s'.lookups.sourceMatches fromKey (sourceIp6 packet) with
      | false => exact meets_pure fun h => absurd h false_ne_true
      | true =>
        refine meets_checkInbound ⟨fun _ => ?_, fun ckr h => absurd h.symm (some_ne_none ckr)⟩ packet
        exact ⟨hipv6, hdst, hs'.lookups.sourceMatches hsrc⟩

/-- What `accept_inbound` promises: the range that it returns is the one it was given, and holds an accepted packet. -/
def Delivered (pfx : UInt8) (own : PublicKey) (buf : Bytes) (range : ByteRange) (fromAddr : PublicKey)
    (seen : List FullReadWriteCloser) (accepted : Option ByteRange) : Prop :=
  ∀ out, accepted = some out → out = range ∧
    ∃ packet, buf.slice? range.start range.stop = some packet ∧ Accepted pfx own seen packet fromAddr

theorem meets_drop {range : ByteRange} {fromAddr : PublicKey} :
    (pure none : TunProc (Option ByteRange)).Meets (Consistent pfx own) (Sends pfx call)
      (Delivered pfx own buf range fromAddr) seen :=
  meets_pure fun out h => absurd h.symm (some_ne_none out)

theorem isIpv6_of_checks {ckrGuard : Option CryptoKey}
    (hstandard : ¬ (ckrGuard.isNone && !packet.head?.any isIp6) = true)
    (hckr : ¬ (ckrGuard.isSome && !packet.head?.any isIp4 && !packet.head?.any isIp6) = true)
    (hshort : ¬ (packet.head?.any isIp6 && packet.length < IPV6_HEADER_LEN) = true) :
    (packet.head?.any isIp6 → IsIpv6 packet) ∧ (packet.head?.any isIp4 ∧ ckrGuard.isSome ∨ IsIpv6 packet) := by
  have hipv6 : packet.head?.any isIp6 → IsIpv6 packet := by
    intro h
    refine ⟨h, ?_⟩
    simpa [h] using hshort
  refine ⟨hipv6, ?_⟩
  cases h6 : packet.head?.any isIp6 with
  | true => exact .inr (hipv6 h6)
  | false =>
    have hsome : ckrGuard.isSome := by simpa [h6, ne_none_iff_isSome] using hstandard
    have h4 : packet.head?.any isIp4 := by simpa [h6, hsome] using hckr
    exact .inl ⟨h4, hsome⟩

theorem meets_acceptInbound {range : ByteRange} (inBuf : range.stop ≤ buf.length) (fromAddr : PublicKey)
    (hcall : ∃ buf range inBuf, call = .acceptInbound buf range inBuf fromAddr) :
    (acceptInbound pfx buf range fromAddr).Meets (Consistent pfx own) (Sends pfx call)
      (Delivered pfx own buf range fromAddr) seen := by
  unfold acceptInbound
  dsimp only
  split
  · exact meets_drop
  next hn =>
    have hlen : 0 < range.stop - range.start := Nat.pos_of_ne_zero hn
    obtain ⟨packet, hpacket, hlength⟩ := yields_slice? (i := range.start) (by omega) inBuf
    have hpos : 0 < packet.length := by omega
    obtain ⟨first, hfirst, -⟩ := yields_getElem? hpos
    have hhead : packet.head? = some first := by rw [head?_eq_getElem?, hfirst]
    have hip4 : isIp4 first = packet.head?.any isIp4 := by rw [hhead]; rfl
    have hip6 : isIp6 first = packet.head?.any isIp6 := by rw [hhead]; rfl
    have hn : range.len = packet.length := hlength.symm
    refine meets_bind (meets_ofOption hpacket ?_)
    refine meets_bind (meets_ofOption hfirst ?_)
    rw [hip4, hip6, hn]
    refine meets_bind (meets_read fun _ s seen _ hs _ => ?_)
    split
    · exact meets_drop
    next hstandard =>
    split
    · exact meets_drop
    next hckr =>
    split
    · exact meets_drop
    next hshort =>
    obtain ⟨hipv6, hip⟩ := isIpv6_of_checks hstandard hckr hshort
    refine meets_bind (meets_read fun _ s' seen' hsub hs' _ => ?_)
    split
    · exact (meets_replyTooBig hcall).bind fun _ _ _ _ => meets_drop
    next hmtu =>
      refine (meets_updateKey fromAddr).bind fun _ updated hupdated _ => ?_
      refine (meets_validateInbound hip hipv6 fromAddr).bind fun valid checked hchecked hvalid => ?_
      split
      next h =>
        refine meets_pure fun out hout => ⟨(some.inj hout).symm, packet, hpacket, ?_, ?_⟩
        · exact ⟨s', hchecked (hupdated hs'), Nat.le_of_not_lt hmtu⟩
        · exact ⟨s, hchecked (hupdated (hsub hs)), hvalid h⟩
      · exact meets_drop

/-! ### All calls -/

def Finished (pfx : UInt8) (own : PublicKey) : TunCall → List FullReadWriteCloser → TunResult → Prop
  | .acceptInbound buf range _ fromAddr, seen, .inbound accepted => Delivered pfx own buf range fromAddr seen accepted
  | _, _, _ => True

/-- Every call meets its goal, section by section. -/
theorem meets_proc (call : TunCall) :
    (call.proc pfx).Meets (Consistent pfx own) (Sends pfx call) (Finished pfx own call) seen := by
  cases call with
  | acceptInbound buf range inBuf fromAddr =>
    exact (meets_acceptInbound inBuf fromAddr ⟨buf, range, inBuf, rfl⟩).bind fun _ _ _ h => meets_pure h
  | write buf => exact (meets_write buf).bind fun _ _ _ _ => meets_pure trivial
  | updateKey key => exact (meets_updateKey key).bind fun _ _ _ _ => meets_pure trivial
  | cleanup => exact meets_cleanup.bind fun _ _ _ _ => meets_pure trivial
  | setMtu mtu =>
    refine meets_bind (meets_bind (meets_read fun _ _ _ _ _ _ => ?_))
    exact meets_update fun _ s _ _ hs => ⟨hs.of_store rfl, meets_pure trivial⟩
  | initCryptoKey ckr
  | gcFirewall => exact meets_bind (meets_update fun _ s _ _ hs => ⟨hs.of_store rfl, meets_pure trivial⟩)

end FullReadWriteCloser

open FullReadWriteCloser

def tunPool (own : PublicKey) (mtu : UInt64) (firewall : Option Firewall)
    (events : List (Pool.Event TunCall Instant)) : Pool TunCall FullReadWriteCloser Instant TunOutput TunResult :=
  Pool.run (TunCall.proc pfx) (FullReadWriteCloser.new pfx own mtu firewall) events

/-- In every interleaving: the maps lead an address and a subnet to a key that owns them, no call reads outside a
packet, a delivered packet fits the MTU and has a source that belongs to its sender, and a packet goes to a key that
owns its destination, or answers the sender of an oversized one. -/
theorem inbound_antispoofing (pfx : UInt8) (own : PublicKey) (mtu : UInt64) (firewall : Option Firewall)
    (events : List (Pool.Event TunCall Instant)) :
    (∀ a k, (tunPool pfx own mtu firewall events).state.lookups.addrToInfo.lookup a = some k → addrForKey pfx k = a) ∧
    (∀ s k, (tunPool pfx own mtu firewall events).state.lookups.subnetToInfo.lookup s = some k →
      subnetForKey pfx k = s) ∧
    (∀ thread ∈ (tunPool pfx own mtu firewall events).threads, thread.proc ≠ .failed) ∧
    (∀ thread ∈ (tunPool pfx own mtu firewall events).threads, ∀ buf range inBuf fromAddr out,
      thread.call = .acceptInbound buf range inBuf fromAddr → thread.proc = .done (.inbound (some out)) →
        out = range ∧ ∃ packet, buf.slice? range.start range.stop = some packet ∧
          Accepted pfx own thread.seen packet fromAddr) ∧
    ∀ sent ∈ (tunPool pfx own mtu firewall events).outputs, Sends pfx sent.call sent.seen sent.output := by
  have hsound : (tunPool pfx own mtu firewall events).Sound (Consistent pfx own) (Sends pfx) (Finished pfx own) :=
    Pool.sound_run (fun call _ => meets_proc call) (consistent_new mtu firewall) events
  refine ⟨hsound.state.lookups.addrToInfo, hsound.state.lookups.subnetToInfo, fun _ => hsound.ne_failed, ?_,
    hsound.outputs⟩
  intro thread hthread buf range inBuf fromAddr out hcall hproc
  have hfinished := hsound.done hthread hproc
  rw [hcall] at hfinished
  exact hfinished out rfl

-- the header of a packet from key 7 to key 1, in the eleven sections of a call that learns key 7 on the way
example :
    let packet : Bytes := [0x60, 0, 0, 0, 0, 0, 59, 64] ++ (addrForKey 2 7).toList ++ (addrForKey 2 1).toList
    ((tunPool 2 1 65535 none (.start (.acceptInbound packet ⟨0, 40⟩ (by decide +kernel) 7) ::
      List.replicate 11 (.turn 0 0))).threads.map fun thread => thread.proc.result?) =
        [some (.inbound (some ⟨0, 40⟩))] := by
  decide +kernel

end Yggdrasil
