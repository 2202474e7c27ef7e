import Yggdrasil.Router.Traffic

/-!
# `Router`: peers, parents and announcements

The part of `router.rs` that builds the spanning tree.

* Functions that use `unwrap` or map indexing return `none` where the source panics.
* Random numbers are an argument: `rand i` is the `i`-th number a call draws.
* The order in which a `HashSet` is read is arbitrary; announcements of a set of keys are listed in the order of
  `infos`.
-/

namespace Yggdrasil

/-- The settings of `Config` that the tree maintenance reads, besides those of the traffic part. -/
structure FullConfig extends Config where
  routerRefresh : Duration
  routerTimeout : Duration

/-- Adds to `Router` the fields that only this part reads. -/
structure FullRouter extends Router where
  ports : HashMap PeerPort PublicKey
  ancs : HashMap PublicKey (List PublicKey)
  rtts : HashMap PeerId Duration
  requests : HashMap PublicKey SigReq
  responses : HashMap PublicKey SigRes
  responded : Finset PeerId
  resSeqs : HashMap PublicKey UInt64
  resSeqCtr : UInt64
  refresh : Bool
  doRoot1 : Bool
  doRoot2 : Bool
  lastRefresh : Instant
  routerRefresh : Duration
  routerTimeout : Duration

def distWalk (infos : HashMap PublicKey RouterInfo) : Nat → PublicKey → UInt64 → HashMap PublicKey UInt64 →
    PublicKey × HashMap PublicKey UInt64 × Bool
  | 0, _, _, dists => (0, dists, false)
  | fuel + 1, next, dist, dists =>
    if (dists.lookup next).isSome then (0, dists, false)
    else
      match infos.lookup next with
      | none => (0, dists, false)
      | some info =>
        if info.parent = next then (next, dists.insert next dist, true)
        else distWalk infos fuel info.parent (dist + 1) (dists.insert next dist)

def ancestryWalk (infos : HashMap PublicKey RouterInfo) : Nat → PublicKey → List PublicKey → List PublicKey
  | 0, _, anc => anc
  | fuel + 1, here, anc =>
    if anc.contains here then anc
    else
      match infos.lookup here with
      | none => anc
      | some info => ancestryWalk infos fuel info.parent (here :: anc)

namespace Router

/-- Get root and each known ancestor's distance from `dest`; valid only if the ancestry ends at a root. -/
def getRootAndDists (self : Router) (dest : PublicKey) : PublicKey × HashMap PublicKey UInt64 × Bool :=
  distWalk self.infos (self.infos.keys.length + 1) dest 0 ∅

/-- The known ancestors of a key and the key itself, the topmost first. -/
def getAncestry (self : Router) (key : PublicKey) : List PublicKey :=
  ancestryWalk self.infos (self.infos.keys.length + 1) key []

def announces (self : Router) (keys : List PublicKey) : List Announce :=
  keys.filterMap fun k => (self.infos.lookup k).map fun info => (info.getAnnounce k).toWire

def connections (self : Router) (peerKey : PublicKey) : List PeerId :=
  (((self.peers.lookup peerKey).getD ∅).values).map PeerEntry.id

end Router

namespace FullRouter

structure Outcome where
  actions : List RouterAction
  router : FullRouter

def new (crypto : Crypto) (config : FullConfig) (now : Instant) : FullRouter :=
  { Router.new crypto config.toConfig with
    ports := ∅, ancs := ∅, rtts := ∅, requests := ∅, responses := ∅, responded := ∅, resSeqs := ∅, resSeqCtr := 0
    refresh := false, doRoot1 := false, doRoot2 := true, lastRefresh := now, routerRefresh := config.routerRefresh
    routerTimeout := config.routerTimeout }

variable (self : FullRouter)

def lift (o : Router.Outcome) : Outcome :=
  { actions := o.actions, router := { self with toRouter := o.router } }

/-! ## Signature protocol -/

def newReq (rand : UInt64) : SigReq :=
  { seq := ((self.infos.lookup self.crypto.publicKey).map RouterInfo.seq).getD 0 + 1, nonce := rand }

def handleRequestWithData (peer : PeerEntry) (req : SigReq) : RouterAction :=
  .sendSigRes peer.id
    { seq := req.seq, nonce := req.nonce, port := peer.port
      psig := self.crypto.sign (sigResBytesForSig peer.key self.crypto.publicKey req.seq req.nonce peer.port) }

def newLag (lag rtt : Duration) : Duration :=
  if lag = UNKNOWN_LATENCY then rtt * 2 else lag * 7 / 8 + min rtt (lag * 2) / 8

def reqMatch (key : PublicKey) (res : SigRes) : Bool :=
  (self.requests.lookup key).any fun r => r.seq == res.seq && r.nonce == res.nonce

def recordRtt (peerId : PeerId) (rtt : Duration) : FullRouter :=
  if rtt = 0 then self else { self with rtts := self.rtts.insert peerId rtt }

def storeResponse (key : PublicKey) (res : SigRes) (reqMatch : Bool) : FullRouter :=
  if (self.responses.lookup key).isNone && reqMatch then
    { self with
      resSeqCtr := self.resSeqCtr + 1
      resSeqs := self.resSeqs.insert key (self.resSeqCtr + 1)
      responses := self.responses.insert key res }
  else self

/-- The first matching response on a connection updates its latency. -/
def recordLag (peerId : PeerId) (rtt : Duration) (reqMatch : Bool) : FullRouter :=
  if decide (peerId ∉ self.responded) && reqMatch then
    { self with
      responded := insert peerId self.responded
      lags := self.lags.insert peerId (newLag ((self.lags.lookup peerId).getD UNKNOWN_LATENCY) rtt) }
  else self

def handleResponse (peerId : PeerId) (key : PublicKey) (res : SigRes) (rtt : Duration) :
    FullRouter :=
  let reqMatch := self.reqMatch key res
  ((self.recordRtt peerId rtt).storeResponse key res reqMatch).recordLag peerId rtt reqMatch

def clearReqs : FullRouter :=
  { self with requests := ∅, responses := ∅, resSeqs := ∅, resSeqCtr := 0 }

def requestEach (rand : Nat → UInt64) : List (PublicKey × List PeerId) → FullRouter → Outcome
  | [], self => { actions := [], router := self }
  | (pk, peerIds) :: peerKeys, self =>
    let req := self.newReq (rand peerKeys.length)
    let rest := requestEach rand peerKeys
      { self with requests := self.requests.insert pk req, responded := self.responded \ peerIds.toFinset }
    { rest with actions := peerIds.map (fun peerId => .sendSigReq peerId req) ++ rest.actions }

def sendReqs (rand : Nat → UInt64) : Outcome :=
  requestEach rand (self.peers.toList.map fun peer => (peer.1, peer.2.keys)) self.clearReqs

/-! ## Peer management -/

def admitKey (entry : PeerEntry) : FullRouter :=
  match self.peers.lookup entry.key with
  | some _ => self
  | none =>
    { self with
      peers := self.peers.insert entry.key ∅
      sent := self.sent.insert entry.key ∅
      ports := self.ports.insert entry.port entry.key
      blooms := self.blooms.addInfo entry.key }

/-- The announcements already sent to a known peer, for one more connection. -/
def resend (entry : PeerEntry) : List RouterAction :=
  match self.peers.lookup entry.key, self.sent.lookup entry.key with
  | some _, some sentKeys =>
    (self.announces (self.infos.keys.filter (· ∈ sentKeys))).map fun ann => .sendAnnounce entry.id ann
  | _, _ => []

def ensureRequest (key : PublicKey) (rand : UInt64) : FullRouter :=
  match self.requests.lookup key with
  | some _ => self
  | none => { self with requests := self.requests.insert key (self.newReq rand) }

def addPeer (entry : PeerEntry) (rand : UInt64) : Option Outcome :=
  let resent := self.resend entry
  let self := self.admitKey entry
  match self.peers.lookup entry.key with
  | none => none
  | some peers =>
    let self := { self with
      peers := self.peers.insert entry.key (peers.insert entry.id entry)
      lags := self.lags.insert entry.id UNKNOWN_LATENCY }
    let self := self.ensureRequest entry.key rand
    match self.requests.lookup entry.key with
    | none => none
    | some req =>
      let self := { self with responded := self.responded.erase entry.id }
      let bloom := (self.blooms.getSendBloom entry.key).toList.map fun bloom => RouterAction.sendBloom entry.id bloom
      some { actions := resent ++ [.sendSigReq entry.id req] ++ bloom, router := self }

def removePeer (peerId : PeerId) (key : PublicKey) (port : PeerPort) : Outcome :=
  let self := { self with
    lags := self.lags.remove peerId, responded := self.responded.erase peerId, rtts := self.rtts.remove peerId }
  match self.peers.lookup key with
  | none => { actions := [], router := self }
  | some peers =>
    let peers := peers.remove peerId
    if peers.keys.isEmpty then
      { actions := []
        router := { self with
          peers := self.peers.remove key
          sent := self.sent.remove key
          ports := self.ports.remove port
          requests := self.requests.remove key
          responses := self.responses.remove key
          resSeqs := self.resSeqs.remove key
          ancs := self.ancs.remove key
          cache := self.cache.remove key
          blooms := self.blooms.removeInfo key } }
    else
      { actions := (self.blooms.getSendBloom key).toList.flatMap fun bloom =>
          peers.values.map fun entry => .sendBloom entry.id bloom
        router := { self with peers := self.peers.modify key fun _ => peers } }

/-! ## Tree update & fix -/

def update (ann : RouterAnnounce) (now : Instant) : Bool × FullRouter :=
  let updated := self.toRouter.update ann now
  (updated.1, { self with toRouter := updated.2 })

def markSent (peerKey key : PublicKey) : FullRouter :=
  { self with sent := self.sent.modify peerKey fun sent => insert key sent }

def handleAnnounce (peerId : PeerId) (peerKey : PublicKey) (ann : RouterAnnounce) (now : Instant) :
    Outcome :=
  let updated := self.update ann now
  if updated.1 then
    let self := updated.2
    let self := if ann.key = self.crypto.publicKey then { self with refresh := true } else self
    { actions := [], router := self.markSent peerKey ann.key }
  else
    -- we didn't accept: send back what we know if it's different
    match self.infos.lookup ann.key with
    | none => { actions := [], router := self }
    | some oldInfo =>
      { actions := if oldInfo ≠ ann.info then [.sendAnnounce peerId (oldInfo.getAnnounce ann.key).toWire] else []
        router := self.markSent peerKey ann.key }

def rootAnnounce (rand : UInt64) : RouterAnnounce :=
  let req := self.newReq rand
  let selfKey := self.crypto.publicKey
  let psig := self.crypto.sign (sigResBytesForSig selfKey selfKey req.seq req.nonce 0)
  { key := selfKey, parent := selfKey, seq := req.seq, nonce := req.nonce, port := 0, psig, sig := psig }

def becomeRoot (rand : UInt64) (now : Instant) : Bool × FullRouter :=
  self.update (self.rootAnnounce rand) now

def childAnnounce (peerKey : PublicKey) (res : SigRes) : RouterAnnounce :=
  let selfKey := self.crypto.publicKey
  { key := selfKey, parent := peerKey, seq := res.seq, nonce := res.nonce, port := res.port, psig := res.psig
    sig := self.crypto.sign (sigResBytesForSig selfKey peerKey res.seq res.nonce res.port) }

def useResponse (peerKey : PublicKey) (res : SigRes) (now : Instant) : Bool × FullRouter :=
  self.update (self.childAnnounce peerKey res) now

/-- The best root found so far, the parent leading to it, and the cost. -/
structure BestParent where
  root : PublicKey
  parent : PublicKey
  cost : UInt64

/-- The lowest cost over the connections to a peer, at a distance to the root. -/
def lowestCost (peerKey : PublicKey) (distToRoot : UInt64) : UInt64 :=
  ((self.peers.lookup peerKey).getD ∅).values.foldl
    (fun cost entry =>
      let c := saturatingMul distToRoot (self.getCost entry.id)
      if c < cost then c else cost) u64Max

def selfInfoParent : PublicKey :=
  ((self.infos.lookup self.crypto.publicKey).map RouterInfo.parent).getD self.crypto.publicKey

def currentParent : BestParent :=
  let selfKey := self.crypto.publicKey
  let own : BestParent := { root := selfKey, parent := selfKey, cost := u64Max }
  match self.peers.lookup self.selfInfoParent with
  | none => own
  | some _ =>
    let (root, dists, valid) := self.getRootAndDists selfKey
    if valid ∧ root < selfKey then
      { root, parent := self.selfInfoParent
        cost := self.lowestCost self.selfInfoParent ((dists.lookup root).getD u64Max) }
    else own

def considerParent (best : BestParent) (pk : PublicKey) : BestParent :=
  if (self.infos.lookup pk).isNone then best
  else
    let (pRoot, pDists, valid) := self.getRootAndDists pk
    if !valid then best
    else if (pDists.lookup self.crypto.publicKey).isSome then best -- would loop
    else
      let cost := self.lowestCost pk (((pDists.lookup pRoot).map (· + 1)).getD u64Max)
      let found : BestParent := { root := pRoot, parent := pk, cost }
      let better := fun best : BestParent =>
        if self.refresh ∧ cost * 2 < best.cost ∨ best.parent ≠ self.selfInfoParent ∧ cost < best.cost then found
        else best
      if pRoot < best.root then better found
      else if pRoot ≠ best.root then best
      else better best

def selectParent : BestParent := self.responses.keys.foldl self.considerParent self.currentParent

def restart (rand : Nat → UInt64) : Outcome :=
  sendReqs { self with refresh := false, doRoot1 := false, doRoot2 := false } rand

def fix (rand : Nat → UInt64) (now : Instant) : Outcome :=
  let best := self.selectParent
  if self.refresh || self.doRoot1 || self.doRoot2 || decide (self.selfInfoParent ≠ best.parent) then
    let used := (self.responses.lookup best.parent).bind fun res =>
      if best.root ≠ self.crypto.publicKey ∧ (self.useResponse best.parent res now).1 then
        some (self.useResponse best.parent res now).2
      else none
    match used with
    | some self => self.restart fun i => rand (i + 1)
    | none =>
      if self.doRoot2 then (self.becomeRoot (rand 0) now).2.restart fun i => rand (i + 1)
      else if !self.doRoot1 then { actions := [], router := { self with doRoot1 := true } }
      else { actions := [], router := self }
  else { actions := [], router := self }

/-! ## Announcements -/

def markUnsent (sent : Finset PublicKey) : List PublicKey → List PublicKey × Finset PublicKey
  | [] => ([], sent)
  | k :: anc =>
    if k ∈ sent then markUnsent sent anc
    else
      let rest := markUnsent (insert k sent) anc
      (k :: rest.1, rest.2)

def announceEach (selfAnc : List PublicKey) : List PublicKey → FullRouter → Option Outcome
  | [], self => some { actions := [], router := self }
  | peerKey :: peerKeys, self =>
    match self.sent.lookup peerKey with
    | none => none
    | some sent =>
      let own := markUnsent sent selfAnc
      let peer := markUnsent own.2 (self.getAncestry peerKey)
      let anns := self.announces (own.1 ++ peer.1)
      let actions := (self.connections peerKey).flatMap fun peerId => anns.map fun ann => .sendAnnounce peerId ann
      match announceEach selfAnc peerKeys { self with sent := self.sent.modify peerKey fun _ => peer.2 } with
      | none => none
      | some rest => some { rest with actions := actions ++ rest.actions }

def sendAnnounces : Option Outcome :=
  announceEach (self.getAncestry self.crypto.publicKey) self.sent.keys self

/-! ## Maintenance -/

def updateAncestries : FullRouter :=
  { self with
    ancs := self.peers.keys.foldl (fun ancs pkey =>
      let anc := self.getAncestry pkey
      if ancs.lookup pkey ≠ some anc then ancs.insert pkey anc else ancs) self.ancs }

def bloomsMaintenance (env : Env) (self : FullRouter) : Option Outcome :=
  let parentMap := self.infos.mapValues fun _ info => info.parent
  match self.blooms.doMaintenance env self.crypto.publicKey self.selfInfoParent parentMap self.bloomTransform with
  | none => none
  | some found =>
    some
      { actions := found.toSend.flatMap fun (peerKey, bloom) =>
          (self.connections peerKey).map fun peerId => .sendBloom peerId bloom
        router := { self with blooms := found.blooms } }

/-- The periodic refresh, which asks all peers for new signatures. -/
def refreshTimer (now : Instant) : FullRouter :=
  if elapsed now self.lastRefresh ≥ self.routerRefresh then { self with refresh := true, lastRefresh := now } else self

def doMaintenance (env : Env) (self : FullRouter) (clk : Clock) (rand : Nat → UInt64) : Option Outcome :=
  let self := self.refreshTimer clk.now
  let self := { self with doRoot2 := self.doRoot2 || self.doRoot1, cache := ∅ }
  let self := self.updateAncestries
  let fixed := self.fix rand clk.now
  match fixed.router.sendAnnounces with
  | none => none
  | some announced =>
    match announced.router.bloomsMaintenance env with
    | none => none
    | some bloomed =>
      let paths := bloomed.router.lift (Router.maintainPaths env clk bloomed.router.toRouter)
      some { paths with actions := fixed.actions ++ announced.actions ++ bloomed.actions ++ paths.actions }

def forceRefresh (now : Instant) : FullRouter :=
  { self with
    refresh := true, doRoot1 := true, doRoot2 := true
    lastRefresh := if self.routerRefresh ≤ now then now - self.routerRefresh else now }

/-- One expired key: our own triggers a refresh, any other is evicted. -/
def expire (key : PublicKey) : FullRouter :=
  if key = self.crypto.publicKey then { self with refresh := true }
  else
    { self with
      infos := self.infos.remove key
      infoTimes := self.infoTimes.remove key
      sent := self.sent.mapValues fun _ sent => sent.erase key
      cache := ∅ }

def expireInfos (now : Instant) : FullRouter :=
  let expired := (self.infoTimes.toList.filter fun (k, t) =>
    decide (elapsed now t ≥ if k = self.crypto.publicKey then self.routerRefresh else self.routerTimeout)).map Prod.fst
  expired.foldl expire self

def handleBloom (peerKey : PublicKey) (filter : BloomFilter) : FullRouter :=
  { self with blooms := self.blooms.handleBloom peerKey filter }

end FullRouter

end Yggdrasil
