import Yggdrasil.Session.Manager
import Yggdrasil.Wire.Framing

/-!
# The MTU of a connection

`PacketConnImpl::mtu` and `EncryptedPacketConn::mtu`, the largest payload that `write_to` accepts, against what is
written for a payload: the frame that a neighbour has to accept, and the packet that the session layer hands to the
layer below.
-/

namespace Yggdrasil
open List

inductive WriteError where
  | closed
  | oversizedMessage
deriving DecidableEq, Repr

/-! ## Frames -/

structure PacketConnImpl where
  pubKey : PublicKey
  closed : Bool
  peerMaxMessageSize : UInt64

namespace PacketConnImpl

def mtu (self : PacketConnImpl) : UInt64 :=
  let traffic : Traffic := { path := [], fromPath := [], source := 0, dest := 0, watermark := u64Max, payload := [] }
  let overhead := traffic.size + 1
  saturatingSub self.peerMaxMessageSize (UInt64.ofNat overhead)

/-- Send a packet to the given address: what is handed to the router, and the number of bytes. The length of a slice is
below `2 ^ 64`. -/
def writeTo (self : PacketConnImpl) (buf : Bytes) (addr : PublicKey) : Except WriteError (TrafficPacket × Nat) :=
  if self.closed then .error .closed
  else if buf.length > self.mtu.toNat then .error .oversizedMessage
  else .ok (TrafficPacket.new self.pubKey addr buf, buf.length)

end PacketConnImpl

/-- The bytes of a traffic frame besides its length and the payload. -/
def trafficOverhead (path fromPath : List PeerPort) (watermark : UInt64) : Nat :=
  1 + pathSize path + pathSize fromPath + PUBLIC_KEY_SIZE + PUBLIC_KEY_SIZE + uvarintSize watermark

theorem uvarintSize_u64Max : uvarintSize u64Max = 10 := by
  have hle := uvarintSize_le_ten u64Max
  have hlt := (lt_uvarintSize_iff 8 u64Max).mpr (by decide)
  omega

theorem trafficOverhead_nil : trafficOverhead [] [] u64Max = 77 := by
  have hempty : pathSize [] = 1 := by
    rw [pathSize, uvarintSize_last (by decide)]
    rfl
  rw [trafficOverhead, hempty, uvarintSize_u64Max]
  rfl

theorem PacketConnImpl.mtu_eq (conn : PacketConnImpl) :
    conn.mtu.toNat = conn.peerMaxMessageSize.toNat - trafficOverhead [] [] u64Max := by
  have hsize : Traffic.size
      { path := [], fromPath := [], source := 0, dest := 0, watermark := u64Max, payload := [] } + 1 =
      trafficOverhead [] [] u64Max := by
    simp only [Traffic.size, trafficOverhead, length_nil]
    omega
  simp only [PacketConnImpl.mtu, hsize, toNat_saturatingSub]
  rw [trafficOverhead_nil]
  rfl

theorem PacketConnImpl.writeTo_eq_ok {conn : PacketConnImpl} {buf : Bytes} {addr : PublicKey}
    {sent : TrafficPacket × Nat} :
    conn.writeTo buf addr = .ok sent ↔ conn.closed = false ∧ buf.length ≤ conn.mtu.toNat ∧
      sent = (TrafficPacket.new conn.pubKey addr buf, buf.length) := by
  rw [PacketConnImpl.writeTo]
  cases conn.closed with
  | true => simp
  | false =>
    by_cases h : buf.length > conn.mtu.toNat
    · simp [h]
    · simp [h, Nat.le_of_not_gt h, eq_comm]

theorem Outbound.length_traffic (tr : Traffic) :
    (Outbound.traffic tr).content.length = trafficOverhead tr.path tr.fromPath tr.watermark + tr.payload.length := by
  show tr.encode.length + 1 = _
  rw [Traffic.length_encode, Traffic.size, trafficOverhead]
  omega

def TrafficPacket.routed (tr : TrafficPacket) (path fromPath : List PeerPort) (watermark : UInt64) : Outbound :=
  .traffic { path, fromPath, source := tr.source, dest := tr.dest, watermark, payload := tr.payload }

def Takes (maxMessageSize : UInt64) (m : Outbound) : Prop :=
  m.content.length ≤ maxMessageSize.toNat ∧
    ∀ rest, (readFrame maxMessageSize).run (m.frame ++ rest) = .ok (m.content, rest)

theorem takes_iff {maxMessageSize : UInt64} {m : Outbound} :
    Takes maxMessageSize m ↔ m.content.length ≤ maxMessageSize.toNat := by
  refine ⟨fun h => h.1, fun h => ⟨h, fun rest => ?_⟩⟩
  rw [m.frame_eq]
  exact readFrame_framed h rest

theorem frames_taken_iff {conn : PacketConnImpl} (hopen : conn.closed = false) (addr : PublicKey)
    (path fromPath : List PeerPort) (watermark : UInt64) : (∀ buf tr n, conn.writeTo buf addr = .ok (tr, n) →
      Takes conn.peerMaxMessageSize (tr.routed path fromPath watermark)) ↔
    trafficOverhead path fromPath watermark ≤ min (trafficOverhead [] [] u64Max) conn.peerMaxMessageSize.toNat := by
  have hmtu := conn.mtu_eq
  have hlen : ∀ buf, ((TrafficPacket.new conn.pubKey addr buf).routed path fromPath watermark).content.length =
      trafficOverhead path fromPath watermark + buf.length := fun buf => Outbound.length_traffic _
  constructor
  · intro h
    -- the longest payload that is accepted
    have hmax := (h (List.replicate conn.mtu.toNat 0) _ _ (PacketConnImpl.writeTo_eq_ok.mpr
      ⟨hopen, Nat.le_of_eq length_replicate, rfl⟩)).1
    rw [hlen, length_replicate] at hmax
    omega
  intro h buf tr n hsent
  obtain ⟨-, hle, heq⟩ := PacketConnImpl.writeTo_eq_ok.mp hsent
  cases heq
  rw [takes_iff, hlen]
  omega

/-! ## Packets of the session layer -/

namespace Session

def BOX_OVERHEAD : Nat := 16

def SESSION_TRAFFIC_OVERHEAD_MIN : Nat := 1 + 1 + 1 + 1 + BOX_OVERHEAD + 32

def SESSION_TRAFFIC_OVERHEAD : UInt64 := UInt64.ofNat (SESSION_TRAFFIC_OVERHEAD_MIN + 9 + 9 + 9)

def SESSION_INIT_SIZE : Nat := 1 + 32 + BOX_OVERHEAD + 64 + 32 + 32 + 8 + 8

def SESSION_TYPE_INIT : UInt8 := 1
def SESSION_TYPE_ACK : UInt8 := 2
def SESSION_TYPE_TRAFFIC : UInt8 := 3

/-- The bytes of keys, signatures and boxes; a box is larger than what is sealed in it by the tag. -/
structure BoxBytes where
  publicKey : CurvePublicKey → BitVec 256
  encrypt : SalsaBox → UInt64 → Bytes → Bytes
  ephemeral : SealedInit → CurvePublicKey
  initBox : SealedInit → SalsaBox
  signature : SealedInit → Sig
  length_encrypt : ∀ box nonce msg, (encrypt box nonce msg).length = msg.length + BOX_OVERHEAD

variable (bytes : BoxBytes)

def curveKeyBytes (key : CurvePublicKey) : Bytes := (bytes.publicKey key).beBytes 32

/-- The bytes that `encrypt_outside_lock` writes. A message of another origin may have no header or key. -/
def TrafficMsg.encode (self : TrafficMsg) : Bytes :=
  match self.header, self.body.plain.innerKey with
  | some header, some nextPub =>
    SESSION_TYPE_TRAFFIC :: (encodeUvarint header.localKeySeq ++ encodeUvarint header.remoteKeySeq ++
      encodeUvarint header.nonce ++
      bytes.encrypt self.body.key self.body.nonce (curveKeyBytes bytes nextPub ++ self.body.plain.payload))
  | _, _ => []

def SealedInit.encode (msgType : UInt8) (self : SealedInit) : Bytes :=
  let payload := sigBytes (bytes.signature self) ++ curveKeyBytes bytes self.init.current ++
    curveKeyBytes bytes self.init.next ++ wordBytes self.init.keySeq ++ wordBytes self.init.seq
  msgType :: (curveKeyBytes bytes (bytes.ephemeral self) ++ bytes.encrypt (bytes.initBox self) 0 payload)

def Packet.encode : Packet → Bytes
  | junk => []
  | init h => h.encode bytes SESSION_TYPE_INIT
  | ack h => h.encode bytes SESSION_TYPE_ACK
  | traffic t => t.encode bytes

@[simp] theorem length_curveKeyBytes (key : CurvePublicKey) : (curveKeyBytes bytes key).length = 32 :=
  BitVec.length_beBytes _

theorem length_encryptOutsideLock (snap : SessionInfo.SendSnapshot) (msg : Bytes) :
    ((SessionInfo.encryptOutsideLock snap msg).encode bytes).length =
      1 + uvarintSize snap.localKeySeq + uvarintSize snap.remoteKeySeq + uvarintSize
        snap.sendNonce + BOX_OVERHEAD + 32 +
        msg.length := by
  show (SESSION_TYPE_TRAFFIC :: (encodeUvarint snap.localKeySeq ++ encodeUvarint snap.remoteKeySeq ++
    encodeUvarint snap.sendNonce ++ bytes.encrypt snap.sendShared snap.sendNonce
      (curveKeyBytes bytes snap.nextPub ++ msg))).length = _
  simp only [length_cons, length_append, bytes.length_encrypt, length_curveKeyBytes, uvarintSize_eq]
  omega

theorem length_sealedInit (msgType : UInt8) (h : SealedInit) : (h.encode bytes msgType).length = SESSION_INIT_SIZE := by
  simp only [SealedInit.encode, length_cons, length_append, bytes.length_encrypt, length_curveKeyBytes,
    sigBytes, wordBytes, BitVec.length_beBytes]
  rfl

end Session

open Session (BoxBytes SESSION_TRAFFIC_OVERHEAD SESSION_INIT_SIZE ConcurrentSessionManager)

structure EncryptedPacketConn where
  inner : PacketConnImpl
  closed : Bool
  sessions : ConcurrentSessionManager

namespace EncryptedPacketConn

def mtu (self : EncryptedPacketConn) : UInt64 := saturatingSub self.inner.mtu SESSION_TRAFFIC_OVERHEAD

/-- Send a packet to the given address: what the session layer does, before its packets are written below. -/
def writeTo (self : EncryptedPacketConn) (buf : Bytes) (addr : PublicKey) (clk : Clock) (rng : Session.Rng) :
    Except WriteError Session.Outcome :=
  if self.closed then .error .closed
  else if buf.length > self.mtu.toNat then .error .oversizedMessage
  else .ok (self.sessions.writeTo addr buf self.inner.pubKey clk rng)

theorem mtu_eq (conn : EncryptedPacketConn) : conn.mtu.toNat = conn.inner.mtu.toNat - SESSION_TRAFFIC_OVERHEAD.toNat :=
  toNat_saturatingSub _ _

theorem writeTo_eq_ok {conn : EncryptedPacketConn} {buf : Bytes} {addr : PublicKey} {clk : Clock} {rng : Session.Rng}
    {out : Session.Outcome} :
    conn.writeTo buf addr clk rng = .ok out ↔ conn.closed = false ∧ buf.length ≤ conn.mtu.toNat ∧
      out = conn.sessions.writeTo addr buf conn.inner.pubKey clk rng := by
  rw [writeTo]
  cases conn.closed with
  | true => simp
  | false =>
    by_cases h : buf.length > conn.mtu.toNat
    · simp [h]
    · simp [h, Nat.le_of_not_gt h, eq_comm]

/-- What is written below for a message to `addr` that is accepted is no larger than the MTU there. -/
def InnerFits (bytes : BoxBytes) (conn : EncryptedPacketConn) (addr : PublicKey) : Prop :=
  ∀ buf clk rng out, conn.writeTo buf addr clk rng = .ok out →
    ∀ dest data, .sendToInner dest data ∈ out.actions → (data.encode bytes).length ≤ conn.inner.mtu.toNat

/-- So is what `handle_init` and `handle_ack` write when they find the message in the buffer for `addr`. -/
def LaterFits (bytes : BoxBytes) (conn : EncryptedPacketConn) (addr : PublicKey) : Prop :=
  ∀ buf clk rng out, conn.writeTo buf addr clk rng = .ok out → ∀ mgr : ConcurrentSessionManager,
    mgr.sessions addr = none → mgr.buffers addr = out.mgr.buffers addr → ∀ init ourKey clk rng dest data,
      .sendToInner dest data ∈ (mgr.handleInit addr init ourKey clk rng).actions ++
        (mgr.handleAck addr init ourKey clk rng).actions → (data.encode bytes).length ≤ conn.inner.mtu.toNat

/-- Every connection over `inner` without a session with a destination. -/
def Unopened (inner : PacketConnImpl) (fits : EncryptedPacketConn → PublicKey → Prop) : Prop :=
  ∀ (conn : EncryptedPacketConn) (addr : PublicKey), conn.inner = inner → conn.sessions.sessions addr = none →
    fits conn addr

/-- Every connection over `inner` with a session with a destination. -/
def Opened (inner : PacketConnImpl) (fits : EncryptedPacketConn → PublicKey → Prop) : Prop :=
  ∀ (conn : EncryptedPacketConn) (addr : PublicKey), conn.inner = inner → (conn.sessions.sessions addr).isSome →
    fits conn addr

variable {bytes : BoxBytes} {inner : PacketConnImpl}

theorem length_doSend_le (bytes : BoxBytes) (info : Session.SessionInfo) (buf : Bytes) (now : Instant)
    (rng : Session.Rng) :
    ((info.doSend buf now rng).1.encode bytes).length ≤ SESSION_TRAFFIC_OVERHEAD.toNat + buf.length := by
  have htotal : SESSION_TRAFFIC_OVERHEAD.toNat = 79 := rfl
  have hlocal := uvarintSize_le_ten (info.sendSnapshot rng).1.localKeySeq
  have hremote := uvarintSize_le_ten (info.sendSnapshot rng).1.remoteKeySeq
  have hnonce := uvarintSize_le_ten (info.sendSnapshot rng).1.sendNonce
  show ((Session.SessionInfo.encryptOutsideLock (info.sendSnapshot rng).1 buf).encode bytes).length ≤ _
  rw [Session.length_encryptOutsideLock, Session.BOX_OVERHEAD]
  omega

/-- What is sent once a session is there: the message from the buffer, and an ack. -/
theorem mem_later {mgr : ConcurrentSessionManager} {addr ourKey dest : PublicKey} {buf : Session.SessionBuffer}
    {msg : Bytes}
    (hnone : mgr.sessions addr = none) (hbuf : mgr.buffers addr = some buf) (hmsg : buf.data = some msg)
    {init : Session.SessionInit} {clk : Clock} {rng : Session.Rng} {data : Session.Packet}
    (h : .sendToInner dest data ∈ (mgr.handleInit addr init ourKey clk rng).actions ++
      (mgr.handleAck addr init ourKey clk rng).actions) :
    (∃ info now rng, data = .traffic (Session.SessionInfo.doSend info msg now rng).1) ∨
      ∃ sealed, data = .ack sealed := by
  simp only [ConcurrentSessionManager.handleInit, ConcurrentSessionManager.handleAck, hnone,
    ConcurrentSessionManager.createSessionFromInit, hbuf, hmsg, ConcurrentSessionManager.sendBuffered, mem_append,
    mem_cons, not_mem_nil, or_false, Session.OutAction.sendToInner.injEq] at h
  rcases h with (⟨-, h⟩ | ⟨-, h⟩) | ⟨-, h⟩ | ⟨-, h⟩
  · exact .inl ⟨_, _, _, h⟩
  · exact .inr ⟨_, h⟩
  · exact .inr ⟨_, h⟩
  · exact .inl ⟨_, _, _, h⟩

def longSession : Session.SessionInfo :=
  { (Session.SessionInfo.new ⟨⟨0, 0⟩⟩ ⟨⟨0, 0⟩⟩ 0 0 ⟨0, 0⟩).1 with
    localKeySeq := u64Max
    remoteKeySeq := u64Max
    sendNonce := u64Max - 1 }

theorem session_fits_iff :
    Opened inner (InnerFits bytes) ↔ SESSION_TRAFFIC_OVERHEAD.toNat ≤ inner.mtu.toNat := by
  constructor
  · intro h
    have hfits := h ⟨inner, false, (ConcurrentSessionManager.new ⟨none⟩ 0).insertSession 0 longSession⟩ 0 rfl rfl
      [] ⟨0, 0⟩ ⟨0, 0⟩ _ (writeTo_eq_ok.mpr ⟨rfl, Nat.zero_le _, rfl⟩) _ _ mem_cons_self
    have hlen : (((longSession.doSend [] 0 ⟨0, 0⟩).1).encode bytes).length =
        1 + uvarintSize u64Max + uvarintSize u64Max + uvarintSize u64Max + Session.BOX_OVERHEAD + 32 + 0 :=
      Session.length_encryptOutsideLock bytes _ []
    have hle : (((longSession.doSend [] 0 ⟨0, 0⟩).1).encode bytes).length ≤ inner.mtu.toNat := hfits
    rw [hlen, uvarintSize_u64Max] at hle
    exact hle
  intro h conn addr hinner hsession buf clk rng out hout dest data hsent
  obtain ⟨info, hinfo⟩ := Option.isSome_iff_exists.mp hsession
  obtain ⟨-, hle, rfl⟩ := writeTo_eq_ok.mp hout
  rw [ConcurrentSessionManager.writeTo, hinfo] at hsent
  cases mem_singleton.mp hsent
  have hlen := length_doSend_le bytes info buf clk.now rng
  rw [conn.mtu_eq, hinner] at hle
  rw [Session.Packet.encode, hinner]
  omega

theorem init_fits_iff : Unopened inner (InnerFits bytes) ↔ SESSION_INIT_SIZE ≤ inner.mtu.toNat := by
  constructor
  · intro h
    have hfits := h ⟨inner, false, ConcurrentSessionManager.new ⟨none⟩ 0⟩ 0 rfl rfl [] ⟨0, 0⟩ ⟨0, 0⟩ _
      (writeTo_eq_ok.mpr ⟨rfl, Nat.zero_le _, rfl⟩) _ _ mem_cons_self
    rw [Session.Packet.encode, Session.length_sealedInit] at hfits
    exact hfits
  intro h conn addr hinner hnone buf clk rng out hout dest data hsent
  obtain ⟨-, -, rfl⟩ := writeTo_eq_ok.mp hout
  rw [ConcurrentSessionManager.writeTo, hnone] at hsent
  cases mem_singleton.mp hsent
  rw [Session.Packet.encode, Session.length_sealedInit, hinner]
  exact h

theorem later_fits_iff : Unopened inner (LaterFits bytes) ↔ SESSION_INIT_SIZE ≤ inner.mtu.toNat := by
  constructor
  · intro h
    have hfits := h ⟨inner, false, ConcurrentSessionManager.new ⟨none⟩ 0⟩ 0 rfl rfl [] ⟨0, 0⟩ ⟨0, 0⟩ _
      (writeTo_eq_ok.mpr ⟨rfl, Nat.zero_le _, rfl⟩) _ rfl rfl (.new ⟨⟨0, 0⟩⟩ ⟨⟨0, 0⟩⟩ 0 ⟨0, 0⟩) 0 ⟨0, 0⟩ ⟨0, 0⟩ _ _
      (mem_append_right _ mem_cons_self)
    rw [Session.Packet.encode, Session.length_sealedInit] at hfits
    exact hfits
  intro h conn addr hinner hnone buf clk rng out hout mgr hmgr hbuf init ourKey clk' rng' dest data hsent
  obtain ⟨-, hle, rfl⟩ := writeTo_eq_ok.mp hout
  rw [ConcurrentSessionManager.writeTo, hnone, ConcurrentSessionManager.bufferAndInit] at hbuf
  rcases mem_later hmgr (hbuf.trans (Function.update_self ..)) rfl hsent with ⟨info, now, rng, rfl⟩ | ⟨sealed, rfl⟩
  · have hlen := length_doSend_le bytes info buf now rng
    have hroom : SESSION_TRAFFIC_OVERHEAD.toNat ≤ SESSION_INIT_SIZE := by decide
    rw [conn.mtu_eq, hinner] at hle
    rw [Session.Packet.encode, hinner]
    omega
  · rw [Session.Packet.encode, Session.length_sealedInit, hinner]
    exact h

end EncryptedPacketConn

/-! ## Which headers are safe -/

/-- **What fits, and when.** A neighbour accepts the frames of accepted payloads just when the header of the router fits
and is no larger than the one without paths; the layer below takes what the session layer writes just when there is room
for its header, and without a session, also later from the buffer, for an init. -/
theorem mtu_safety (bytes : BoxBytes) (conn : PacketConnImpl) (hopen : conn.closed = false) :
    (∀ addr path fromPath watermark, (∀ buf tr n, conn.writeTo buf addr = .ok (tr, n) →
        Takes conn.peerMaxMessageSize (tr.routed path fromPath watermark)) ↔
      trafficOverhead path fromPath watermark ≤ min (trafficOverhead [] [] u64Max) conn.peerMaxMessageSize.toNat) ∧
    (EncryptedPacketConn.Opened conn (EncryptedPacketConn.InnerFits bytes) ↔
      SESSION_TRAFFIC_OVERHEAD.toNat ≤ conn.mtu.toNat) ∧
    (EncryptedPacketConn.Unopened conn (EncryptedPacketConn.InnerFits bytes) ↔ SESSION_INIT_SIZE ≤ conn.mtu.toNat) ∧
    (EncryptedPacketConn.Unopened conn (EncryptedPacketConn.LaterFits bytes) ↔ SESSION_INIT_SIZE ≤ conn.mtu.toNat) :=
  ⟨frames_taken_iff hopen, EncryptedPacketConn.session_fits_iff, EncryptedPacketConn.init_fits_iff,
    EncryptedPacketConn.later_fits_iff⟩

def plainBoxes : BoxBytes where
  publicKey _ := 0
  encrypt _ _ msg := msg ++ List.replicate Session.BOX_OVERHEAD 0
  ephemeral h := h.init.current
  initBox h := s(h.init.current, h.init.next)
  signature _ := 0
  length_encrypt _ _ msg := by rw [length_append, length_replicate]

def deepRouter : Router :=
  { Router.new ⟨6, fun _ => 0⟩ ⟨0, 0, none⟩ with
    infos := ([6, 5, 4, 3, 2] : List PublicKey).foldl (fun infos key => infos.insert key ⟨key - 1, 1, 1, 2, 0, 0⟩)
      ((∅ : HashMap PublicKey RouterInfo).insert 1 ⟨1, 1, 1, 0, 0, 0⟩)
    peers := (∅ : HashMap PublicKey (HashMap PeerId PeerEntry)).insert 5
      ((∅ : HashMap PeerId PeerEntry).insert 7 ⟨7, 5, 1, 0, 0⟩)
    pathfinder :=
      { Pathfinder.new ⟨6, fun _ => 0⟩ with
        paths := (∅ : HashMap PublicKey PathInfo).insert 9 ⟨[1, 1, 1, 1, 1], 1, 0, 0, none, false⟩ } }

def deepConn : PacketConnImpl := ⟨6, false, 1024⟩

def deepPayload : Bytes := List.replicate 947 0

theorem mtu_safety_short : deepConn.closed = false ∧ ∀ tr n, deepConn.writeTo deepPayload 9 = .ok (tr, n) →
    Takes 1024 (tr.routed [1] [2] 2) := by
  have hone : ∀ v : UInt64, v.toNat < 128 → uvarintSize v = 1 := fun _ => uvarintSize_last
  have hheader : trafficOverhead [1] [2] 2 ≤ min (trafficOverhead [] [] u64Max) 1024 := by
    rw [trafficOverhead_nil]
    simp only [trafficOverhead, pathSize, map_cons, map_nil, hone 0 (by decide), hone 1 (by decide),
      hone 2 (by decide)]
    decide
  exact ⟨rfl, ((mtu_safety plainBoxes deepConn rfl).1 9 [1] [2] 2).mpr hheader deepPayload⟩

/-- **An accepted payload leads to a frame that a neighbour with the same limit does not take**: with both paths the
header is one byte larger than the MTU leaves. -/
theorem mtu_exceeded : deepConn.writeTo deepPayload 9 = .ok (TrafficPacket.new 6 9 deepPayload, 947) ∧
    (deepRouter.sendTraffic ⟨fun _ _ _ => true, fun _ => 0⟩ ⟨0, 0⟩ (TrafficPacket.new 6 9 deepPayload)).actions =
      [.sendTraffic 7 { TrafficPacket.new 6 9 deepPayload with
        path := [1, 1, 1, 1, 1], fromPath := [2, 2, 2, 2, 2], watermark := 10 }] ∧
    ((TrafficPacket.new 6 9 deepPayload).routed [1, 1, 1, 1, 1] [2, 2, 2, 2, 2] 10).content.length = 1025 ∧
    ∀ rest, (readFrame 1024).run
      (((TrafficPacket.new 6 9 deepPayload).routed [1, 1, 1, 1, 1] [2, 2, 2, 2, 2] 10).frame ++ rest) =
        .error .oversizedMessage := by
  have hone : ∀ v : UInt64, v.toNat < 128 → uvarintSize v = 1 := fun _ => uvarintSize_last
  have hpayload : deepPayload.length = 947 := length_replicate
  have hlen : ((TrafficPacket.new 6 9 deepPayload).routed [1, 1, 1, 1, 1] [2, 2, 2, 2, 2] 10).content.length =
      1025 := by
    rw [TrafficPacket.routed, Outbound.length_traffic]
    simp only [trafficOverhead, pathSize, map_cons, map_nil, hone 0 (by decide), hone 1 (by decide),
      hone 2 (by decide), hone 10 (by decide)]
    simp [TrafficPacket.new, hpayload, PUBLIC_KEY_SIZE]
  have hmtu : deepConn.mtu.toNat = 947 := by
    rw [deepConn.mtu_eq, trafficOverhead_nil]
    rfl
  refine ⟨PacketConnImpl.writeTo_eq_ok.mpr ⟨rfl, ?_, ?_⟩, ?_, hlen, fun rest => ?_⟩
  · rw [hmtu, hpayload]
  · rw [hpayload]
    rfl
  · decide +kernel
  rw [Outbound.frame_eq]
  exact readFrame_oversized (by rw [hlen]; decide) (by rw [hlen]; decide) rest

/-! ## The buffer of the encrypted reader -/

def ENCRYPTED_READ_BUFFER : Nat := 128 * 1024

/-- `PacketConnImpl::read_from`: what a buffer of `len` bytes takes of a packet. -/
def PacketConnImpl.readFrom (len : Nat) (payload : Bytes) : Bytes := payload.take (min len payload.length)

theorem PacketConnImpl.readFrom_eq_iff {len : Nat} {payload : Bytes} : readFrom len payload = payload ↔
    payload.length ≤ len := by
  rw [readFrom, take_eq_self_iff]
  omega

namespace EncryptedPacketConn

/-- What `handle_data` gets of a message that is accepted, whatever the session is when it is sent. -/
def ReceivedWhole (bytes : BoxBytes) (conn : EncryptedPacketConn) : Prop :=
  ∀ buf addr clk rng out, conn.writeTo buf addr clk rng = .ok out → ∀ snap : Session.SessionInfo.SendSnapshot,
    PacketConnImpl.readFrom ENCRYPTED_READ_BUFFER ((Session.SessionInfo.encryptOutsideLock snap buf).encode bytes) =
      (Session.SessionInfo.encryptOutsideLock snap buf).encode bytes

end EncryptedPacketConn

/-- **Messages arrive whole** exactly if the largest packet that the layer below accepts fits into the buffer of
the reader. -/
theorem received_whole_iff (bytes : BoxBytes) (conn : EncryptedPacketConn) (hopen : conn.closed = false) :
    conn.ReceivedWhole bytes ↔
      conn.inner.peerMaxMessageSize.toNat ≤ ENCRYPTED_READ_BUFFER + trafficOverhead [] [] u64Max := by
  have hoverhead : SESSION_TRAFFIC_OVERHEAD.toNat = 79 := rfl
  have hbuffer : ENCRYPTED_READ_BUFFER = 131072 := rfl
  have hmtu := conn.mtu_eq
  rw [conn.inner.mtu_eq] at hmtu
  constructor
  · intro h
    have hlongest := h (List.replicate conn.mtu.toNat 0) 0 ⟨0, 0⟩ ⟨0, 0⟩ _
      (EncryptedPacketConn.writeTo_eq_ok.mpr ⟨hopen, Nat.le_of_eq length_replicate, rfl⟩)
      (EncryptedPacketConn.longSession.sendSnapshot ⟨0, 0⟩).1
    rw [PacketConnImpl.readFrom_eq_iff, Session.length_encryptOutsideLock, length_replicate] at hlongest
    change 1 + uvarintSize u64Max + uvarintSize u64Max + uvarintSize u64Max + 16 + 32 + _ ≤ _ at hlongest
    rw [uvarintSize_u64Max] at hlongest
    omega
  intro h buf addr clk rng out hout snap
  obtain ⟨-, hle, -⟩ := EncryptedPacketConn.writeTo_eq_ok.mp hout
  have hlocal := uvarintSize_le_ten snap.localKeySeq
  have hremote := uvarintSize_le_ten snap.remoteKeySeq
  have hnonce := uvarintSize_le_ten snap.sendNonce
  rw [PacketConnImpl.readFrom_eq_iff, Session.length_encryptOutsideLock, Session.BOX_OVERHEAD]
  omega

theorem received_whole_iff_small : EncryptedPacketConn.ReceivedWhole plainBoxes
    ⟨⟨6, false, 65535 * 2⟩, false, ConcurrentSessionManager.new ⟨none⟩ 0⟩ :=
  (received_whole_iff plainBoxes _ rfl).mpr (by rw [trafficOverhead_nil]; decide)

/-- With the default limit of 1 MiB a message as long as the buffer is accepted, and its last bytes are lost. -/
theorem long_message_truncated : ¬ ∀ (bytes : BoxBytes) (conn : EncryptedPacketConn), conn.ReceivedWhole bytes := by
  intro hclaim
  let conn : EncryptedPacketConn := ⟨⟨6, false, 1024 * 1024⟩, false, ConcurrentSessionManager.new ⟨none⟩ 0⟩
  have hmtu : ENCRYPTED_READ_BUFFER ≤ conn.mtu.toNat := by
    rw [conn.mtu_eq, conn.inner.mtu_eq, trafficOverhead_nil]
    decide
  have hwhole := hclaim plainBoxes conn (List.replicate ENCRYPTED_READ_BUFFER 0) 0 ⟨0, 0⟩ ⟨0, 0⟩ _
    (EncryptedPacketConn.writeTo_eq_ok.mpr ⟨rfl, by rwa [length_replicate], rfl⟩)
    ((Session.SessionInfo.new ⟨⟨0, 0⟩⟩ ⟨⟨0, 0⟩⟩ 0 0 ⟨0, 0⟩).1.sendSnapshot ⟨0, 0⟩).1
  rw [PacketConnImpl.readFrom_eq_iff, Session.length_encryptOutsideLock, length_replicate] at hwhole
  omega

end Yggdrasil
