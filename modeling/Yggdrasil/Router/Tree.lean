import Mathlib.Data.Finset.Basic
import Yggdrasil.Router.Bloom
import Yggdrasil.Router.Pathfinder

/-!
# `Router`: tree state and greedy lookup

The state of `router.rs` and the part of it that reads the spanning tree: `update`, the walk to the root, the distance
between a path and a key, and the choice of a next hop.
-/

namespace Yggdrasil
open List

def UNKNOWN_LATENCY : Duration := 4294967295

structure Config where
  pathTimeout : Duration
  pathThrottle : Duration
  bloomTransform : Option (PublicKey → PublicKey)

structure Router where
  crypto : Crypto
  pathfinder : Pathfinder
  blooms : Blooms
  peers : HashMap PublicKey (HashMap PeerId PeerEntry)
  sent : HashMap PublicKey (Finset PublicKey)
  infos : HashMap PublicKey RouterInfo
  infoTimes : HashMap PublicKey Instant
  cache : HashMap PublicKey RouterPath
  lags : HashMap PeerId Duration
  pathTimeout : Duration
  pathThrottle : Duration
  bloomTransform : Option (PublicKey → PublicKey)

/-- The CRDT ordering: whether an announcement replaces the stored info of its key. -/
def RouterAnnounce.supersedes (ann : RouterAnnounce) (info : RouterInfo) : Bool :=
  if info.seq > ann.seq then false
  else if info.seq < ann.seq then true
  else if info.parent < ann.parent then false
  else if ann.parent < info.parent then true
  else if ann.nonce < info.nonce then true
  else false

def rootWalk (infos : HashMap PublicKey RouterInfo) : Nat → PublicKey → List PublicKey → List PeerPort →
    Option RouterPath
  | 0, _, _, _ => none
  | fuel + 1, next, visited, ports =>
    if next ∈ visited then none
    else
      match infos.lookup next with
      | some info =>
        if next = info.parent then some { root := next, path := ports }
        else rootWalk infos fuel info.parent (next :: visited) (info.port :: ports)
      | none => none

def distLoop : List PeerPort → List PeerPort → UInt64 → UInt64
  | k :: keyPath, d :: destPath, dist => if k = d then distLoop keyPath destPath (dist - 2) else dist
  | _, _, dist => dist

def saturatingMul (a b : UInt64) : UInt64 := if a.toNat * b.toNat < UInt64.size then a * b else u64Max

structure Best where
  peer : PeerEntry
  cost : UInt64
  dist : UInt64

def Best.accepts (best : Best) (p : PeerEntry) (cost dist : UInt64) : Bool :=
  if p.key = best.peer.key ∧ p.prio < best.peer.prio then true
  else if p.key = best.peer.key ∧ p.prio > best.peer.prio then false
  else if saturatingMul cost dist < saturatingMul best.cost best.dist then true
  else if saturatingMul cost dist > saturatingMul best.cost best.dist then false
  else if dist < best.dist then true
  else if dist > best.dist then false
  else if cost < best.cost then true
  else if cost > best.cost then false
  else p.order < best.peer.order

namespace Router

def new (crypto : Crypto) (config : Config) : Router :=
  { crypto, pathfinder := Pathfinder.new crypto, blooms := ⟨∅⟩, peers := ∅, sent := ∅, infos := ∅, infoTimes := ∅
    cache := ∅, lags := ∅, pathTimeout := config.pathTimeout, pathThrottle := config.pathThrottle
    bloomTransform := config.bloomTransform }

variable (self : Router)

def update (ann : RouterAnnounce) (now : Instant) : Bool × Router :=
  if (self.infos.lookup ann.key).all ann.supersedes then
    (true, { self with
        sent := self.sent.mapValues fun _ sent => sent.erase ann.key
        cache := ∅
        infos := self.infos.insert ann.key ann.info
        infoTimes := self.infoTimes.insert ann.key now })
  else (false, self)

def getRootAndPath (dest : PublicKey) : RouterPath :=
  (rootWalk self.infos (self.infos.keys.length + 1) dest [] []).getD { root := dest, path := [] }

def cachedRootAndPath (key : PublicKey) : RouterPath × Router :=
  match self.cache.lookup key with
  | some rp => (rp, self)
  | none =>
    let rp := self.getRootAndPath key
    (rp, { self with cache := self.cache.insert key rp })

def cachedCoords (key : PublicKey) : List PeerPort × Router :=
  let found := self.cachedRootAndPath key
  (found.1.path, found.2)

def getDist (destPath : List PeerPort) (key : PublicKey) : UInt64 × Router :=
  let own := self.cachedRootAndPath self.crypto.publicKey
  let found := own.2.cachedRootAndPath key
  let root := found.1.root
  if (self.infos.lookup root).all fun info => info.parent ≠ root then (u64Max, found.2)
  else if root ≠ own.1.root then (u64Max, found.2)
  else (distLoop found.1.path destPath (found.1.path.length + destPath.length).toUInt64, found.2)

def getCost (peerId : PeerId) : UInt64 :=
  let c := ((self.lags.lookup peerId).getD UNKNOWN_LATENCY / Duration.fromMillis 1).toUInt64
  if c = 0 then 1 else c

def collectCandidates (path : List PeerPort) (bestDist : UInt64) : List PublicKey → Router → List PeerEntry × Router
  | [], self => ([], self)
  | k :: peerKeys, self =>
    let dist := self.getDist path k
    let rest := collectCandidates path bestDist peerKeys dist.2
    if dist.1 < bestDist then (((self.peers.lookup k).getD ∅).values ++ rest.1, rest.2) else rest

def selectBest (path : List PeerPort) : List PeerEntry → Option Best → Router → Option Best × Router
  | [], best, self => (best, self)
  | p :: candidates, best, self =>
    let dist := self.getDist path p.key
    let cost := self.getCost p.id
    let accept := best.all fun best => best.accepts p cost dist.1
    selectBest path candidates (if accept then some { peer := p, cost, dist := dist.1 } else best) dist.2

structure Found where
  peerId : Option PeerId
  watermark : UInt64
  router : Router

def lookup (path : List PeerPort) (watermark : UInt64) : Found :=
  let selfDist := self.getDist path self.crypto.publicKey
  if selfDist.1 ≥ watermark then { peerId := none, watermark, router := selfDist.2 }
  else
    let candidates := collectCandidates path selfDist.1 self.peers.keys selfDist.2
    let best := selectBest path candidates.1 none candidates.2
    { peerId := best.1.map fun best => best.peer.id, watermark := selfDist.1, router := best.2 }

def bestPeerForKey (key : PublicKey) : Option PeerId :=
  (((self.peers.lookup key).getD ∅).values.foldl
    (fun best e => if best.all fun b : PeerEntry => e.prio < b.prio then some e else best) none).map PeerEntry.id

end Router

theorem rootWalk_fuel (infos : HashMap PublicKey RouterInfo) (fuel : Nat) :
    ∀ (next : PublicKey) (visited : List PublicKey) (ports : List PeerPort), visited.Nodup → visited ⊆ infos.keys →
      infos.keys.length < fuel + visited.length →
      rootWalk infos (fuel + 1) next visited ports = rootWalk infos fuel next visited ports := by
  induction fuel with
  | zero =>
    intro next visited ports hnodup hsub hlt
    have hle := (subperm_of_subset hnodup hsub).length_le
    omega
  | succ fuel ih =>
    intro next visited ports hnodup hsub hlt
    rw [rootWalk, rootWalk]
    split
    · rfl
    next hnew =>
      cases hinfo : infos.lookup next with
      | none => rfl
      | some info =>
        simp only
        split
        · rfl
        have hmem : next ∈ infos.keys := HashMap.mem_keys_iff.mpr ⟨info, hinfo⟩
        refine ih info.parent (next :: visited) _ (nodup_cons.mpr ⟨hnew, hnodup⟩)
          (cons_subset.mpr ⟨hmem, hsub⟩) ?_
        rw [length_cons]
        omega

theorem Router.getRootAndPath_eq (self : Router) (dest : PublicKey) (extra : Nat) : self.getRootAndPath dest =
      (rootWalk self.infos (self.infos.keys.length + 1 + extra) dest [] []).getD { root := dest, path := [] } := by
  induction extra with
  | zero => rfl
  | succ extra ih =>
    rw [ih, ← Nat.add_assoc, rootWalk_fuel _ _ _ _ _ nodup_nil (nil_subset _)]
    omega

end Yggdrasil
