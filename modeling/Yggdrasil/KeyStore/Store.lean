import Yggdrasil.Base.HashMap
import Yggdrasil.KeyStore.Address

/-!
# `ReadWriteCloser`: the key store

The mapping from addresses to keys between the TUN and the core, `ipv6rwc.rs` without crypto-key routing and firewall. A
call is one transition, as it is when it runs alone.
-/

namespace Yggdrasil
open List Option

def KEY_STORE_TIMEOUT : Duration := Duration.fromSecs 120
def IPV6_HEADER_LEN : Nat := 40

structure KeyInfo where
  address : Address
  subnet : Subnet
  lastSeen : Instant

structure BufferedPacket where
  data : Bytes
  time : Instant

structure KeyStoreLookups where
  keyToInfo : HashMap PublicKey KeyInfo
  addrToInfo : HashMap Address PublicKey
  subnetToInfo : HashMap Subnet PublicKey

structure KeyStoreBuffers where
  addrBuffer : HashMap Address BufferedPacket
  subnetBuffer : HashMap Subnet BufferedPacket

structure ReadWriteCloser where
  address : Address
  subnet : Subnet
  lookups : KeyStoreLookups
  buffers : KeyStoreBuffers

structure Written where
  key : PublicKey
  data : Bytes
deriving DecidableEq

/-- What `write` does with a packet: an error, a packet for a known key, or a lookup for an unknown one. -/
inductive WriteResult where
  | err (message : String)
  | sent (written : Written)
  | lookup (key : PublicKey)
deriving DecidableEq

namespace ReadWriteCloser

def new (pfx : UInt8) (publicKey : PublicKey) : ReadWriteCloser :=
  { address := addrForKey pfx publicKey, subnet := subnetForKey pfx publicKey, lookups := ⟨∅, ∅, ∅⟩
    buffers := ⟨∅, ∅⟩ }

def flush (key : PublicKey) (now : Instant) : Option BufferedPacket → List Written
  | some buffered => if elapsed now buffered.time < KEY_STORE_TIMEOUT then [{ key, data := buffered.data }] else []
  | none => []

/-- Returns what is handed to `core.write_to`. -/
def updateKey (pfx : UInt8) (self : ReadWriteCloser) (key : PublicKey) (now : Instant) :
    List Written × ReadWriteCloser :=
  if (self.lookups.keyToInfo.lookup key).any fun info =>
    elapsed now info.lastSeen < KEY_STORE_TIMEOUT / 2 then ([], self)
  else
    let address := addrForKey pfx key
    let subnet := subnetForKey pfx key
    let lookups : KeyStoreLookups :=
      { keyToInfo := self.lookups.keyToInfo.insert key { address, subnet, lastSeen := now }
        addrToInfo := self.lookups.addrToInfo.insert address key
        subnetToInfo := self.lookups.subnetToInfo.insert subnet key }
    let buffers : KeyStoreBuffers :=
      { addrBuffer := self.buffers.addrBuffer.remove address, subnetBuffer := self.buffers.subnetBuffer.remove subnet }
    (flush key now (self.buffers.addrBuffer.lookup address) ++ flush key now (self.buffers.subnetBuffer.lookup subnet),
      { self with lookups, buffers })

def removeKey (lookups : KeyStoreLookups) (key : PublicKey) : KeyStoreLookups :=
  match lookups.keyToInfo.lookup key with
  | some info =>
    { keyToInfo := lookups.keyToInfo.remove key
      addrToInfo := lookups.addrToInfo.remove info.address
      subnetToInfo := lookups.subnetToInfo.remove info.subnet }
  | none => lookups

def cleanup (self : ReadWriteCloser) (now : Instant) : ReadWriteCloser :=
  let expiredKeys := (self.lookups.keyToInfo.toList.filter fun entry =>
    KEY_STORE_TIMEOUT < elapsed now entry.2.lastSeen).map Prod.fst
  { self with
    lookups := expiredKeys.foldl removeKey self.lookups
    buffers :=
      { addrBuffer := self.buffers.addrBuffer.retain fun _ buf => elapsed now buf.time < KEY_STORE_TIMEOUT
        subnetBuffer := self.buffers.subnetBuffer.retain fun _ buf => elapsed now buf.time < KEY_STORE_TIMEOUT } }

def destinationKey (pfx : UInt8) (lookups : KeyStoreLookups) (dstIp : Address) : Option PublicKey :=
  if isValidAddress pfx dstIp then lookups.addrToInfo.lookup dstIp
  else lookups.subnetToInfo.lookup (Address.subnet dstIp)

def write (pfx : UInt8) (self : ReadWriteCloser) (buf : Bytes) (now : Instant) : WriteResult × ReadWriteCloser :=
  if buf.length < IPV6_HEADER_LEN then (.err "packet too short", self)
  else if buf.getD 0 0 &&& 0xf0 ≠ 0x60 then (.err "not an IPv6 packet", self)
  else
    let srcIp : Address := Vector.ofFn fun i => buf.getD (8 + i) 0
    let dstIp : Address := Vector.ofFn fun i => buf.getD (24 + i) 0
    let srcSubnet := Address.subnet srcIp
    let dstSubnet := Address.subnet dstIp
    if srcIp ≠ self.address ∧ srcSubnet ≠ self.subnet then (.err "invalid source address", self)
    else if !isValidAddress pfx dstIp && !isValidSubnet pfx dstSubnet then (.err "invalid destination address", self)
    else
      match destinationKey pfx self.lookups dstIp with
      | some key => (.sent { key, data := buf }, self)
      | none =>
        let buffered : BufferedPacket := { data := buf, time := now }
        if isValidAddress pfx dstIp then
          (.lookup (Address.getKey dstIp),
            { self with buffers.addrBuffer := self.buffers.addrBuffer.insert dstIp buffered })
        else
          (.lookup (Subnet.getKey dstSubnet),
            { self with buffers.subnetBuffer := self.buffers.subnetBuffer.insert dstSubnet buffered })

end ReadWriteCloser

/-! ## The keys of the store -/

def KeyStoreLookups.Holds (lookups : KeyStoreLookups) (k : PublicKey) : Prop :=
  (∃ info, lookups.keyToInfo.lookup k = some info) ∨ (∃ a, lookups.addrToInfo.lookup a = some k) ∨
    ∃ s, lookups.subnetToInfo.lookup s = some k

namespace ReadWriteCloser
variable {pfx : UInt8} {self : ReadWriteCloser} {key k : PublicKey} {now : Instant}

theorem holds_updateKey (h : (self.updateKey pfx key now).2.lookups.Holds k) : k = key ∨ self.lookups.Holds k := by
  rw [updateKey] at h
  split at h
  · exact .inr h
  simp only [KeyStoreLookups.Holds, HashMap.lookup_insert] at h
  rcases h with ⟨info, h⟩ | ⟨a, h⟩ | ⟨s, h⟩
  · split at h
    next hk => exact .inl hk
    · exact .inr (.inl ⟨info, h⟩)
  · split at h
    · exact .inl (some.inj h).symm
    · exact .inr (.inr (.inl ⟨a, h⟩))
  split at h
  · exact .inl (some.inj h).symm
  · exact .inr (.inr (.inr ⟨s, h⟩))

theorem mem_flush {buffered : Option BufferedPacket} {w : Written} (h : w ∈ flush key now buffered) : w.key = key := by
  cases buffered with
  | none => exact absurd h not_mem_nil
  | some buffered =>
    rw [flush] at h
    split at h
    · rw [mem_singleton.mp h]
    · exact absurd h not_mem_nil

theorem key_of_mem_updateKey {w : Written} (h : w ∈ (self.updateKey pfx key now).1) : w.key = key := by
  rw [updateKey] at h
  split at h
  · exact absurd h not_mem_nil
  rcases mem_append.mp h with h | h <;> exact mem_flush h

theorem holds_removeKey {lookups : KeyStoreLookups} (h : (removeKey lookups key).Holds k) : lookups.Holds k := by
  rw [removeKey] at h
  cases hinfo : lookups.keyToInfo.lookup key with
  | none =>
    rw [hinfo] at h
    exact h
  | some info =>
    rw [hinfo] at h
    simp only [KeyStoreLookups.Holds, HashMap.lookup_remove, ite_none_left_eq_some] at h
    rcases h with ⟨info, -, h⟩ | ⟨a, -, h⟩ | ⟨s, -, h⟩
    · exact .inl ⟨info, h⟩
    · exact .inr (.inl ⟨a, h⟩)
    · exact .inr (.inr ⟨s, h⟩)

theorem holds_cleanup (h : (self.cleanup now).lookups.Holds k) : self.lookups.Holds k := by
  have hfold : ∀ (keys : List PublicKey) (lookups : KeyStoreLookups), (keys.foldl removeKey lookups).Holds k →
      lookups.Holds k := by
    intro keys
    induction keys with
    | nil => exact fun _ h => h
    | cons key keys ih => exact fun lookups h => holds_removeKey (ih _ h)
  exact hfold _ _ h

theorem holds_of_destinationKey {lookups : KeyStoreLookups} {dst : Address}
    (h : destinationKey pfx lookups dst = some k) : lookups.Holds k := by
  rw [destinationKey] at h
  split at h
  · exact .inr (.inl ⟨dst, h⟩)
  · exact .inr (.inr ⟨_, h⟩)

theorem lookups_write (buf : Bytes) : (self.write pfx buf now).2.lookups = self.lookups := by
  simp only [write]
  repeat' split
  all_goals rfl

theorem holds_of_write {buf : Bytes} {w : Written} (h : (self.write pfx buf now).1 = .sent w) :
    self.lookups.Holds w.key := by
  simp only [write] at h
  split at h
  · cases h
  split at h
  · cases h
  split at h
  · cases h
  split at h
  · cases h
  split at h
  next key hkey =>
    cases h
    exact holds_of_destinationKey hkey
  · split at h <;> cases h

end ReadWriteCloser

end Yggdrasil
