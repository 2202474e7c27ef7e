import Mathlib.Data.Fin.VecNotation
import Yggdrasil.Router.Types

/-!
# Bloom filters of the peers

`bloom.rs`: which peers are on the tree, the filter advertised to each of them, and whose filter may hold a key.

Indexing the table and `expect` are reads that may fail: the functions that do so return `none` where the source panics.
-/

namespace Yggdrasil

structure BloomInfo where
  send : BloomFilter
  recv : BloomFilter
  seq : UInt16
  onTree : Bool
  zDirty : Bool
deriving DecidableEq

def baseHashes (env : Env) (data : Bytes) : Fin 4 → UInt64 :=
  let result1 := env.murmur3 data
  let result2 := env.murmur3 (data ++ [1])
  ![⟨result1.extractLsb' 0 64⟩, ⟨result1.extractLsb' 64 64⟩, ⟨result2.extractLsb' 0 64⟩, ⟨result2.extractLsb' 64 64⟩]

def location (h : Fin 4 → UInt64) (i : Nat) (m : Nat) : Nat :=
  let base := h (Fin.ofNat 4 (i % 2))
  let inner := (i + i % 2) % 4
  let mult := h (Fin.ofNat 4 (2 + inner / 2))
  ((base + i.toUInt64 * mult) % m.toUInt64).toNat

namespace BloomFilter

def new : BloomFilter := ⟨0⟩

def setBit (self : BloomFilter) (bit : Nat) : BloomFilter := ⟨self.bits ||| BitVec.twoPow BLOOM_FILTER_BITS bit⟩

def add (env : Env) (self : BloomFilter) (key : Bytes) : BloomFilter :=
  (List.range BLOOM_FILTER_K).foldl (fun b i => b.setBit (location (baseHashes env key) i BLOOM_FILTER_BITS)) self

def merge (self other : BloomFilter) : BloomFilter := ⟨self.bits ||| other.bits⟩

end BloomFilter

def BloomInfo.new : BloomInfo :=
  { send := BloomFilter.new, recv := BloomFilter.new, seq := 0, onTree := false, zDirty := false }

def BloomFilter.test (env : Env) (self : BloomFilter) (key : Bytes) : Bool :=
  (List.range BLOOM_FILTER_K).all fun i => self.bits.getLsbD (location (baseHashes env key) i BLOOM_FILTER_BITS)

structure Blooms where
  blooms : HashMap PublicKey BloomInfo

/-- The filter computed for a peer, whether it differs from the last one, and the table with it. -/
structure BloomFor where
  filter : BloomFilter
  isNew : Bool
  blooms : Blooms

structure ToSend where
  toSend : List (PublicKey × BloomFilter)
  blooms : Blooms

namespace Blooms
variable (self : Blooms)

def isOnTree (key : PublicKey) : Bool :=
  match self.blooms.lookup key with
  | some info => info.onTree
  | none => false

def xKey (key : PublicKey) (transform : Option (PublicKey → PublicKey)) : PublicKey :=
  match transform with
  | some f => f key
  | none => key

def addInfo (key : PublicKey) : Blooms :=
  match self.blooms.lookup key with
  | some _ => self
  | none => { blooms := self.blooms.insert key BloomInfo.new }

def removeInfo (key : PublicKey) : Blooms := { blooms := self.blooms.remove key }

def handleBloom (peerKey : PublicKey) (filter : BloomFilter) : Blooms :=
  { blooms := self.blooms.modify peerKey fun info => { info with recv := filter } }

/-- A peer is on the tree if it is our parent or a child of ours. -/
def onTree (selfKey selfParent : PublicKey) (infos : HashMap PublicKey PublicKey) (pk : PublicKey) : Bool :=
  if selfParent = pk then true else infos.lookup pk = some selfKey

/-- Update on-tree status for all peers; a peer that is dropped from the tree is sent a blank filter. -/
def fixOnTree (selfKey selfParent : PublicKey) (infos : HashMap PublicKey PublicKey) : ToSend where
  toSend := self.blooms.toList.filterMap fun (pk, pbi) =>
    if pbi.onTree && !onTree selfKey selfParent infos pk then some (pk, BloomFilter.new) else none
  blooms :=
    { blooms := self.blooms.mapValues fun pk pbi =>
        { pbi with
          onTree := onTree selfKey selfParent infos pk
          send := if pbi.onTree && !onTree selfKey selfParent infos pk then BloomFilter.new else pbi.send } }

/-- Our own transformed key, and the filters received from all on-tree peers except `key`. -/
def heldFor (env : Env) (self : Blooms) (key ourKey : PublicKey) (transform : Option (PublicKey → PublicKey)) :
    BloomFilter :=
  ((self.blooms.toList.filter fun (k, info) => info.onTree && k != key).map fun (_, info) => info.recv).foldl
    BloomFilter.merge (BloomFilter.new.add env (keyBytes (xKey ourKey transform)))

def getBloomFor (env : Env) (self : Blooms) (key ourKey : PublicKey) (keepOnes : Bool)
    (transform : Option (PublicKey → PublicKey)) : Option BloomFor :=
  let held := self.heldFor env key ourKey transform
  match self.blooms.lookup key with
  | none => none
  | some pbi =>
    let b := if keepOnes then held.merge pbi.send else held
    let zDirty := if keepOnes then (if !pbi.zDirty then decide (b ≠ held) else true) else false
    let isNew := decide (b ≠ pbi.send)
    let pbi := { pbi with zDirty, send := if isNew then b else pbi.send }
    some { filter := b, isNew, blooms := { blooms := self.blooms.modify key fun _ => pbi } }

def getSendBloom (key : PublicKey) : Option BloomFilter := (self.blooms.lookup key).map BloomInfo.send

def advertise (env : Env) (selfKey : PublicKey) (transform : Option (PublicKey → PublicKey)) :
    List PublicKey → Blooms → Option ToSend
  | [], self => some { toSend := [], blooms := self }
  | k :: keys, self =>
    match self.blooms.lookup k with
    | none => none
    | some old =>
      match self.getBloomFor env k selfKey (!old.zDirty) transform with
      | none => none
      | some found =>
        match found.blooms.blooms.lookup k with
        | none => none
        | some pbi =>
          let seq := pbi.seq + 1
          let send := found.isNew || decide (seq ≥ 3600)
          let pbi := { pbi with seq := if send then 0 else seq }
          match advertise env selfKey transform keys { blooms := found.blooms.blooms.modify k fun _ => pbi } with
          | none => none
          | some rest => some { rest with toSend := (if send then [(k, found.filter)] else []) ++ rest.toSend }

def doMaintenance (env : Env) (self : Blooms) (selfKey selfParent : PublicKey) (infos : HashMap PublicKey PublicKey)
    (transform : Option (PublicKey → PublicKey)) : Option ToSend :=
  let fixed := self.fixOnTree selfKey selfParent infos
  let onTreeKeys := (fixed.blooms.blooms.toList.filter fun entry => entry.2.onTree).map Prod.fst
  match advertise env selfKey transform onTreeKeys fixed.blooms with
  | none => none
  | some updated => some { updated with toSend := fixed.toSend ++ updated.toSend }

/-- The peers that should receive a lookup for `toKey` that came from `fromKey`. -/
def getMulticastTargets (env : Env) (self : Blooms) (fromKey toKey : PublicKey)
    (transform : Option (PublicKey → PublicKey)) : List PublicKey :=
  let xform := xKey toKey transform
  (self.blooms.toList.filter fun (k, pbi) => pbi.onTree && k != fromKey && pbi.recv.test env (keyBytes xform)).map
    Prod.fst

end Blooms

end Yggdrasil
