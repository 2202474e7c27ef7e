import Yggdrasil.Base.HashMap
import Yggdrasil.Types

/-!
# Data of the router

The records of `router.rs` and `traffic.rs`, the messages of `wire.rs` that the router sends, and the bytes it signs.
Ports, connection ids, sequence numbers, nonces and watermarks are `u64`.
-/

namespace Yggdrasil

abbrev PeerPort := UInt64

abbrev PeerId := UInt64

abbrev Sig := BitVec 512

/-- Functions of other crates: signature verification, and the hash behind the bloom filters. -/
structure Env where
  verify : PublicKey → Bytes → Sig → Bool
  murmur3 : Bytes → BitVec 128

/-- The node's own identity. -/
structure Crypto where
  publicKey : PublicKey
  sign : Bytes → Sig

structure RouterInfo where
  parent : PublicKey
  seq : UInt64
  nonce : UInt64
  port : PeerPort
  psig : Sig
  sig : Sig
deriving DecidableEq

structure RouterAnnounce where
  key : PublicKey
  parent : PublicKey
  seq : UInt64
  nonce : UInt64
  port : PeerPort
  psig : Sig
  sig : Sig
deriving DecidableEq

def RouterAnnounce.info (ann : RouterAnnounce) : RouterInfo :=
  { parent := ann.parent, seq := ann.seq, nonce := ann.nonce, port := ann.port, psig := ann.psig, sig := ann.sig }

/-- Also for `SigReqState`, which has the same fields. -/
structure SigReq where
  seq : UInt64
  nonce : UInt64
deriving DecidableEq

/-- Also for `SigResState`. -/
structure SigRes where
  seq : UInt64
  nonce : UInt64
  port : PeerPort
  psig : Sig
deriving DecidableEq

structure Announce where
  key : PublicKey
  parent : PublicKey
  sigRes : SigRes
  sig : Sig
deriving DecidableEq

def RouterInfo.getAnnounce (self : RouterInfo) (key : PublicKey) : RouterAnnounce :=
  { key, parent := self.parent, seq := self.seq, nonce := self.nonce, port := self.port, psig := self.psig
    sig := self.sig }

def RouterAnnounce.toWire (self : RouterAnnounce) : Announce :=
  { key := self.key, parent := self.parent
    sigRes := { seq := self.seq, nonce := self.nonce, port := self.port, psig := self.psig }, sig := self.sig }

def RouterAnnounce.fromWire (ann : Announce) : RouterAnnounce :=
  { key := ann.key, parent := ann.parent, seq := ann.sigRes.seq, nonce := ann.sigRes.nonce, port := ann.sigRes.port
    psig := ann.sigRes.psig, sig := ann.sig }

@[simp] theorem RouterInfo.info_getAnnounce (self : RouterInfo) (key : PublicKey) :
    (self.getAnnounce key).info = self :=
  rfl

@[simp] theorem RouterInfo.key_getAnnounce (self : RouterInfo) (key : PublicKey) :
    (self.getAnnounce key).key = key := rfl

@[simp] theorem RouterAnnounce.fromWire_toWire (ann : RouterAnnounce) : fromWire ann.toWire = ann := rfl

/-- Minimal peer info needed by the router for routing decisions. -/
structure PeerEntry where
  id : PeerId
  key : PublicKey
  port : PeerPort
  prio : UInt8
  order : UInt64
deriving DecidableEq

structure RouterPath where
  root : PublicKey
  path : List PeerPort
deriving DecidableEq

/-- A user traffic packet routed through the network. `keepalive` is local only. -/
structure TrafficPacket where
  path : List PeerPort
  fromPath : List PeerPort
  source : PublicKey
  dest : PublicKey
  watermark : UInt64
  payload : Bytes
  keepalive : Bool
deriving DecidableEq

def TrafficPacket.new (source dest : PublicKey) (payload : Bytes) : TrafficPacket :=
  { path := [], fromPath := [], source, dest, watermark := u64Max, payload, keepalive := false }

structure PathLookup where
  source : PublicKey
  dest : PublicKey
  fromPath : List PeerPort
deriving DecidableEq

structure PathNotifyInfo where
  seq : UInt64
  path : List PeerPort
  sig : Sig
deriving DecidableEq

structure PathNotify where
  path : List PeerPort
  watermark : UInt64
  source : PublicKey
  dest : PublicKey
  info : PathNotifyInfo
deriving DecidableEq

structure PathBroken where
  path : List PeerPort
  watermark : UInt64
  source : PublicKey
  dest : PublicKey
deriving DecidableEq

def BLOOM_FILTER_BITS : Nat := 8192
def BLOOM_FILTER_K : Nat := 8

/-- A Bloom filter with fixed 8192 bits and 8 hash functions; bit `i` of the array is bit `i % 64` of word `i / 64`. -/
structure BloomFilter where
  bits : BitVec BLOOM_FILTER_BITS
deriving DecidableEq

/-- Actions the router produces that the networking layer must execute. -/
inductive RouterAction where
  | sendSigReq (peerId : PeerId) (req : SigReq)
  | sendSigRes (peerId : PeerId) (res : SigRes)
  | sendAnnounce (peerId : PeerId) (ann : Announce)
  | sendBloom (peerId : PeerId) (bloom : BloomFilter)
  | sendTraffic (peerId : PeerId) (traffic : TrafficPacket)
  | sendPathNotify (peerId : PeerId) (notify : PathNotify)
  | sendPathLookup (peerId : PeerId) (lookup : PathLookup)
  | sendPathBroken (peerId : PeerId) (broken : PathBroken)
  | deliverTraffic (traffic : TrafficPacket)
  | pathNotifyCallback (key : PublicKey)
deriving DecidableEq

/-! ## Signed bytes -/

def keyBytes (key : PublicKey) : Bytes := (List.range 32).map fun i => ⟨key.extractLsb' (8 * (31 - i)) 8⟩

def encodeUvarint (value : UInt64) : Bytes :=
  let byte := (value &&& 0x7f).toUInt8
  if value >>> 7 = 0 then [byte] else (byte ||| 0x80) :: encodeUvarint (value >>> 7)
termination_by value.toNat
decreasing_by
  rename_i h
  have hne : (value >>> 7).toNat ≠ 0 := fun h0 => h (UInt64.toNat.inj h0)
  rw [UInt64.toNat_shiftRight, Nat.shiftRight_eq_div_pow] at hne ⊢
  have h7 : (7 : UInt64).toNat % 64 = 7 := rfl
  rw [h7] at hne ⊢
  omega

def encodePath (path : List PeerPort) : Bytes := path.flatMap encodeUvarint ++ encodeUvarint 0

def bytesForSig (seq : UInt64) (path : List PeerPort) : Bytes := encodeUvarint seq ++ encodePath path

/-- The bytes a parent signs for its child: node || parent || seq || nonce || port. -/
def sigResBytesForSig (node parent : PublicKey) (seq nonce : UInt64) (port : PeerPort) : Bytes :=
  keyBytes node ++ keyBytes parent ++ encodeUvarint seq ++ encodeUvarint nonce ++ encodeUvarint port

/-- Verify a signature response from `parent` for `node`. Port 0 is only valid for a root's self-announce. -/
def checkSigRes (env : Env) (res : SigRes) (node parent : PublicKey) : Bool :=
  if res.port = 0 ∧ node ≠ parent then false
  else env.verify parent (sigResBytesForSig node parent res.seq res.nonce res.port) res.psig

namespace RouterAnnounce

/-- Compute bytes for the signature: node || parent || seq || nonce || port. -/
def bytesForSig (self : RouterAnnounce) : Bytes :=
  keyBytes self.key ++ keyBytes self.parent ++ encodeUvarint self.seq ++ encodeUvarint self.nonce ++
    encodeUvarint self.port

def check (env : Env) (self : RouterAnnounce) : Bool :=
  if self.port = 0 ∧ self.key ≠ self.parent then false
  else env.verify self.key self.bytesForSig self.sig && env.verify self.parent self.bytesForSig self.psig

end RouterAnnounce

end Yggdrasil
