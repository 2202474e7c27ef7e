import Yggdrasil.Router.Lookup

/-!
# `Router`: traffic and path discovery

`send_traffic`, `route_traffic` and the handlers of path lookups, notifies and broken paths of `router.rs`. A call reads
both clocks once, as `clk`.

`route_traffic` calls itself: a broken path of the node's own starts a lookup, a lookup that the node answers itself
releases a packet, and that packet is routed in turn. The functions on this cycle take the recursive call as `route`.
-/

namespace Yggdrasil.Router

structure Outcome where
  actions : List RouterAction
  router : Router

variable (env : Env) (clk : Clock)

section Cycle
variable (route : Router → TrafficPacket → Outcome) (self : Router)

def handleNotifyInternal (notify : PathNotify) : Outcome :=
  let found := self.lookup notify.path notify.watermark
  let self := found.router
  match found.peerId with
  | some peerId => { actions := [.sendPathNotify peerId { notify with watermark := found.watermark }], router := self }
  | none =>
    if notify.dest ≠ self.crypto.publicKey then { actions := [], router := self }
    else if !env.verify notify.source (bytesForSig notify.info.seq notify.info.path) notify.info.sig then
      { actions := [], router := self }
    else
      let xformedSource := Blooms.xKey notify.source self.bloomTransform
      let accept := self.pathfinder.acceptNotify notify.source xformedSource notify.info.seq notify.info.path clk.now
      let self := { self with pathfinder := accept.2.2 }
      let sent : Outcome :=
        match accept.2.1 with
        | some traffic =>
          let coords := self.cachedCoords self.crypto.publicKey
          route coords.2 { traffic with path := notify.info.path, fromPath := coords.1 }
        | none => { actions := [], router := self }
      { sent with actions := sent.actions ++ if accept.1 then [.pathNotifyCallback notify.source] else [] }

/-- The notify is for this node, carries the signature of its source, and updates the path to it. -/
def acceptsNotify (notify : PathNotify) : Bool :=
  let found := self.lookup notify.path notify.watermark
  found.peerId.isNone && notify.dest == found.router.crypto.publicKey &&
    env.verify notify.source (bytesForSig notify.info.seq notify.info.path) notify.info.sig &&
    (found.router.pathfinder.acceptNotify notify.source (Blooms.xKey notify.source found.router.bloomTransform)
      notify.info.seq notify.info.path clk.now).1

def handleLookupInternal (fromKey : PublicKey) (lookup : PathLookup) : Outcome :=
  let targets := self.blooms.getMulticastTargets env fromKey lookup.dest self.bloomTransform
  let multicast := targets.filterMap fun key => (self.bestPeerForKey key).map fun peerId =>
    RouterAction.sendPathLookup peerId lookup
  let dx := Blooms.xKey lookup.dest self.bloomTransform
  let sx := Blooms.xKey self.crypto.publicKey self.bloomTransform
  if dx = sx then
    let coords := self.cachedCoords self.crypto.publicKey
    let self := coords.2
    let notifyInfo : OwnPathInfo := { seq := clk.unixSecs, path := coords.1, sig := 0 }
    let notifyInfo :=
      if !self.pathfinder.info.contentEqual notifyInfo then notifyInfo.sign self.crypto else self.pathfinder.info
    let self := { self with pathfinder := { self.pathfinder with info := notifyInfo } }
    let notify : PathNotify :=
      { path := lookup.fromPath, watermark := u64Max, source := self.crypto.publicKey, dest := lookup.source
        info := { seq := notifyInfo.seq, path := notifyInfo.path, sig := notifyInfo.sig } }
    let answer := handleNotifyInternal env clk route self notify
    { answer with actions := multicast ++ answer.actions }
  else { actions := multicast, router := self }

def doSendLookup (dest : PublicKey) : Outcome :=
  if self.pathfinder.shouldThrottleLookup dest self.pathThrottle clk.now then { actions := [], router := self }
  else
    let self := { self with pathfinder := self.pathfinder.markLookupSent dest clk.now }
    let coords := self.cachedCoords self.crypto.publicKey
    handleLookupInternal env clk route coords.2 self.crypto.publicKey
      { source := self.crypto.publicKey, dest, fromPath := coords.1 }

def handleBrokenInternal (broken : PathBroken) : Outcome :=
  let found := self.lookup broken.path broken.watermark
  let self := found.router
  match found.peerId with
  | some peerId => { actions := [.sendPathBroken peerId { broken with watermark := found.watermark }], router := self }
  | none =>
    if broken.source ≠ self.crypto.publicKey then { actions := [], router := self }
    else
      let self := { self with pathfinder := self.pathfinder.handleBroken broken.dest }
      if !self.pathfinder.shouldThrottleLookup broken.dest self.pathThrottle clk.now then
        doSendLookup env clk route self broken.dest
      else { actions := [], router := self }

def doBroken (tr : TrafficPacket) : Outcome :=
  handleBrokenInternal env clk route self
    { path := tr.fromPath, watermark := u64Max, source := tr.source, dest := tr.dest }

def routeTrafficBody (tr : TrafficPacket) : Outcome :=
  let found := self.lookup tr.path tr.watermark
  let self := found.router
  match found.peerId with
  | some peerId => { actions := [.sendTraffic peerId { tr with watermark := found.watermark }], router := self }
  | none =>
    if tr.dest = self.crypto.publicKey then
      let pathfinder := self.pathfinder.learnPathFromTraffic tr.source tr.fromPath clk.now
      let pathfinder := pathfinder.refreshIfCoordsMatch tr.source tr.fromPath clk.now
      { actions := [.pathNotifyCallback tr.source, .deliverTraffic tr], router := { self with pathfinder } }
    else doBroken env clk route self tr

end Cycle

def routeTrafficFuel : Nat → Router → TrafficPacket → Outcome
  | 0, self, _ => { actions := [], router := self }
  | fuel + 1, self, tr => routeTrafficBody env clk (routeTrafficFuel fuel) self tr

variable (self : Router)

/-- The recursion is closed with fuel, one unit for each packet that can be released. -/
def routeTraffic (tr : TrafficPacket) : Outcome :=
  routeTrafficFuel env clk (self.pathfinder.waiting.length + 1) self tr

def handleTraffic (tr : TrafficPacket) : Outcome := routeTraffic env clk self tr

def handleNotify (notify : PathNotify) : Outcome :=
  handleNotifyInternal env clk (routeTraffic env clk) self notify

def handleBroken (broken : PathBroken) : Outcome :=
  handleBrokenInternal env clk (routeTraffic env clk) self broken

def handleLookup (peerKey : PublicKey) (lookup : PathLookup) : Outcome :=
  if !self.blooms.isOnTree peerKey then { actions := [], router := self }
  else handleLookupInternal env clk (routeTraffic env clk) self peerKey lookup

def sendTraffic (tr : TrafficPacket) : Outcome :=
  let direct := if tr.payload.isEmpty then none else self.bestPeerForKey tr.dest
  match direct with
  | some peerId =>
    let destCoords := self.cachedCoords tr.dest
    let selfCoords := destCoords.2.cachedCoords self.crypto.publicKey
    { actions := [.sendTraffic peerId { tr with path := destCoords.1, fromPath := selfCoords.1, watermark := 0 }]
      router := selfCoords.2 }
  | none =>
    match self.pathfinder.getPath tr.dest with
    | some path =>
      let coords := self.cachedCoords self.crypto.publicKey
      let self := coords.2
      let tr := { tr with path, fromPath := coords.1 }
      let pathfinder :=
        if self.pathfinder.needsTrafficCache tr.dest then self.pathfinder.cacheTraffic tr.dest tr else self.pathfinder
      routeTraffic env clk { self with pathfinder } tr
    | none =>
      let xform := Blooms.xKey tr.dest self.bloomTransform
      let pathfinder := self.pathfinder.ensureRumor xform clk.now
      let pathfinder :=
        if tr.keepalive then pathfinder.cacheRumorTrafficIfAbsent xform tr else pathfinder.cacheRumorTraffic xform tr
      if !pathfinder.shouldThrottleRumor xform self.pathThrottle clk.now then
        doSendLookup env clk (routeTraffic env clk) { self with pathfinder := pathfinder.markRumorSent xform clk.now }
          tr.dest
      else { actions := [], router := { self with pathfinder } }

/-- `RouterMsg::SendLookup`: an empty packet whose only job is to start a lookup. -/
def sendLookup (dest : PublicKey) : Outcome :=
  let xform := Blooms.xKey dest self.bloomTransform
  sendTraffic env clk { self with pathfinder := self.pathfinder.ensureRumor xform clk.now }
    (TrafficPacket.new self.crypto.publicKey dest [])

/-- Force a path lookup for the given destination, bypassing the rumor throttle. -/
def forceLookup (dest : PublicKey) : Outcome :=
  let xform := Blooms.xKey dest self.bloomTransform
  let pathfinder :=
    match self.pathfinder.rumors.lookup xform with
    | some _ =>
      { self.pathfinder with
        rumors := self.pathfinder.rumors.modify xform fun rumor => { rumor with sendTime := none } }
    | none => self.pathfinder.ensureRumor xform clk.now
  doSendLookup env clk (routeTraffic env clk) { self with pathfinder } dest

def retryRumors : List PublicKey → Router → Outcome
  | [], self => { actions := [], router := self }
  | dest :: dests, self =>
    let xform := Blooms.xKey dest self.bloomTransform
    if self.pathfinder.shouldThrottleRumorRetry xform self.pathThrottle clk.now then retryRumors dests self
    else
      let sent := doSendLookup env clk (routeTraffic env clk)
        { self with pathfinder := self.pathfinder.markRumorRetry xform clk.now } dest
      let rest := retryRumors dests sent.router
      { rest with actions := sent.actions ++ rest.actions }

def maintainPaths : Outcome :=
  let self := { self with pathfinder := self.pathfinder.cleanupExpired self.pathTimeout clk.now }
  retryRumors env clk self.pathfinder.rumorsNeedingRetry self

/-! ## The cycle closes -/

def pending : Nat := self.pathfinder.waiting.length

theorem Caches.pending {r r' : Router} (h : Caches r r') : r'.pending = r.pending := by
  rw [Router.pending, Router.pending, h.frame]

section Congr
variable {env clk} {route₁ route₂ : Router → TrafficPacket → Outcome} {self : Router}

section
variable (h : ∀ r t, r.pending < self.pending → route₁ r t = route₂ r t)
include h

theorem handleNotifyInternal_congr (notify : PathNotify) :
    handleNotifyInternal env clk route₁ self notify = handleNotifyInternal env clk route₂ self notify := by
  have hfound := self.lookup_caches notify.path notify.watermark
  simp only [handleNotifyInternal]
  generalize (self.lookup notify.path notify.watermark).router = r at hfound ⊢
  cases (self.lookup notify.path notify.watermark).peerId with
  | some id => rfl
  | none =>
    have hperm := r.pathfinder.waiting_acceptNotify notify.source (Blooms.xKey notify.source r.bloomTransform)
      notify.info.seq notify.info.path clk.now
    generalize r.pathfinder.acceptNotify notify.source (Blooms.xKey notify.source r.bloomTransform) notify.info.seq
      notify.info.path clk.now = accept at hperm ⊢
    cases htraffic : accept.2.1 with
    | none => rfl
    | some traffic =>
      simp only
      rw [h]
      -- the released packet waits no longer
      have hlen := hperm.length_eq
      rw [htraffic, List.length_append, Option.toList_some, List.length_singleton] at hlen
      rw [← hfound.pending, (cachedCoords_caches _ _).pending]
      show accept.2.2.waiting.length < r.pathfinder.waiting.length
      omega

theorem handleLookupInternal_congr (fromKey : PublicKey) (lookup : PathLookup) :
    handleLookupInternal env clk route₁ self fromKey lookup =
      handleLookupInternal env clk route₂ self fromKey lookup := by
  have hcoords := (self.cachedCoords_caches self.crypto.publicKey).pending
  simp only [handleLookupInternal]
  split
  · rw [handleNotifyInternal_congr]
    intro r t hlt
    exact h r t (hlt.trans_eq hcoords)
  · rfl

theorem doSendLookup_congr (dest : PublicKey) :
    doSendLookup env clk route₁ self dest = doSendLookup env clk route₂ self dest := by
  simp only [doSendLookup]
  split
  · rfl
  refine handleLookupInternal_congr (fun r t hlt => h r t (hlt.trans_eq ?_)) _ _
  rw [(cachedCoords_caches _ _).pending, pending, pending, Pathfinder.waiting_markLookupSent]

theorem handleBrokenInternal_congr (broken : PathBroken) :
    handleBrokenInternal env clk route₁ self broken = handleBrokenInternal env clk route₂ self broken := by
  have hfound := self.lookup_caches broken.path broken.watermark
  simp only [handleBrokenInternal]
  cases (self.lookup broken.path broken.watermark).peerId with
  | some id => rfl
  | none =>
    simp only
    split
    · rfl
    split
    · refine doSendLookup_congr (fun r' t hlt => h r' t (hlt.trans_eq ?_)) _
      rw [← hfound.pending, pending, pending, Pathfinder.waiting_handleBroken]
    · rfl

theorem routeTrafficBody_congr (tr : TrafficPacket) :
    routeTrafficBody env clk route₁ self tr = routeTrafficBody env clk route₂ self tr := by
  have hfound := self.lookup_caches tr.path tr.watermark
  simp only [routeTrafficBody]
  cases (self.lookup tr.path tr.watermark).peerId with
  | some id => rfl
  | none =>
    simp only
    split
    · rfl
    · exact handleBrokenInternal_congr (fun r' t hlt => h r' t (hlt.trans_eq hfound.pending)) _

end

end Congr

theorem routeTrafficFuel_eq (n : Nat) : ∀ (m : Nat) (self : Router) (tr : TrafficPacket), self.pending < n →
    self.pending < m → routeTrafficFuel env clk n self tr = routeTrafficFuel env clk m self tr := by
  induction n with
  | zero =>
    omega
  | succ n ih =>
    intro m self tr hn hm
    cases m with
    | zero => omega
    | succ m =>
      refine routeTrafficBody_congr (fun r t hlt => ih m r t ?_ ?_) tr <;> omega

/-- The fuel never runs out. -/
theorem routeTraffic_eq (tr : TrafficPacket) :
    routeTraffic env clk self tr = routeTrafficBody env clk (routeTraffic env clk) self tr := by
  show routeTrafficBody env clk (routeTrafficFuel env clk self.pending) self tr = _
  refine routeTrafficBody_congr (fun r t hlt => ?_) tr
  exact routeTrafficFuel_eq env clk _ _ r t hlt (Nat.lt_succ_self r.pending)

theorem routeTraffic_of_next {self : Router} {tr : TrafficPacket} {id : PeerId}
    (h : (self.lookup tr.path tr.watermark).peerId = some id) :
    routeTraffic env clk self tr =
      { actions := [.sendTraffic id { tr with watermark := (self.lookup tr.path tr.watermark).watermark }]
        router := (self.lookup tr.path tr.watermark).router } := by
  rw [routeTraffic_eq]
  simp only [routeTrafficBody, h]

theorem routeTraffic_of_here {self : Router} {tr : TrafficPacket} (h : (self.lookup tr.path tr.watermark).peerId = none)
    (hdest : tr.dest = self.crypto.publicKey) :
    (routeTraffic env clk self tr).actions = [.pathNotifyCallback tr.source, .deliverTraffic tr] := by
  rw [routeTraffic_eq]
  simp only [routeTrafficBody, h]
  rw [if_pos (hdest.trans (congrArg Crypto.publicKey (self.lookup_caches tr.path tr.watermark).crypto).symm)]

end Yggdrasil.Router
