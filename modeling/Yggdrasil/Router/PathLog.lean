import Yggdrasil.Router.Emits
import Yggdrasil.Router.PathActs

/-!
# The acts of a message

What a message about paths does to the pathfinder, act by act. The functions `…Acts` follow those of `Traffic` and list,
for the same arguments, the acts they make.
-/

namespace Yggdrasil
open List
open Pathfinder (Act Trigger Setting Doing perform answerInfo Slotted)

namespace Router

def setting (self : Router) : Setting :=
  { crypto := self.crypto, throttle := self.pathThrottle, timeout := self.pathTimeout,
    transform := self.bloomTransform }

variable (env : Env) (clk : Clock)

section Cycle
variable (routeActs : Router → TrafficPacket → List Act) (self : Router)

def notifyActs (notify : PathNotify) : List Act :=
  let found := self.lookup notify.path notify.watermark
  let self := found.router
  match found.peerId with
  | some _ => []
  | none =>
    if notify.dest ≠ self.crypto.publicKey then []
    else if !env.verify notify.source (bytesForSig notify.info.seq notify.info.path) notify.info.sig then []
    else
      let xformedSource := Blooms.xKey notify.source self.bloomTransform
      let accept := self.pathfinder.acceptNotify notify.source xformedSource notify.info.seq notify.info.path clk.now
      let self := { self with pathfinder := accept.2.2 }
      let coords := self.cachedCoords self.crypto.publicKey
      .accept notify.source notify.info.seq notify.info.path coords.1 ::
        match accept.2.1 with
        | some traffic => routeActs coords.2 { traffic with path := notify.info.path, fromPath := coords.1 }
        | none => []

def lookupActs (lookup : PathLookup) : List Act :=
  let dx := Blooms.xKey lookup.dest self.bloomTransform
  let sx := Blooms.xKey self.crypto.publicKey self.bloomTransform
  if dx = sx then
    let coords := self.cachedCoords self.crypto.publicKey
    let self := coords.2
    let notifyInfo := answerInfo clk self.crypto self.pathfinder coords.1
    .answer coords.1 :: notifyActs env clk routeActs
      { self with pathfinder := { self.pathfinder with info := notifyInfo } } (self.answerTo lookup notifyInfo)
  else []

def searchActs (why : Trigger) (dest : PublicKey) : List Act :=
  if self.pathfinder.shouldThrottleLookup dest self.pathThrottle clk.now then [.search why dest false]
  else
    let self := { self with pathfinder := self.pathfinder.markLookupSent dest clk.now }
    let coords := self.cachedCoords self.crypto.publicKey
    .search why dest true :: lookupActs env clk routeActs coords.2
      { source := self.crypto.publicKey, dest, fromPath := coords.1 }

def brokenActs (broken : PathBroken) : List Act :=
  let found := self.lookup broken.path broken.watermark
  let self := found.router
  match found.peerId with
  | some _ => []
  | none =>
    if broken.source ≠ self.crypto.publicKey then []
    else
      let self := { self with pathfinder := self.pathfinder.handleBroken broken.dest }
      .markBroken broken.dest ::
        if !self.pathfinder.shouldThrottleLookup broken.dest self.pathThrottle clk.now then
          searchActs env clk routeActs self .broken broken.dest
        else []

def routeBodyActs (tr : TrafficPacket) : List Act :=
  let found := self.lookup tr.path tr.watermark
  let self := found.router
  match found.peerId with
  | some _ => []
  | none =>
    if tr.dest = self.crypto.publicKey then [.arrive tr.source tr.fromPath]
    else
      brokenActs env clk routeActs self
        { path := tr.fromPath, watermark := u64Max, source := tr.source, dest := tr.dest }

end Cycle

def routeActsFuel : Nat → Router → TrafficPacket → List Act
  | 0, _, _ => []
  | fuel + 1, self, tr => routeBodyActs env clk (routeActsFuel fuel) self tr

def routeActs (self : Router) (tr : TrafficPacket) : List Act :=
  routeActsFuel env clk (self.pathfinder.waiting.length + 1) self tr

def sendTrafficActs (self : Router) (tr : TrafficPacket) : List Act :=
  let direct := if tr.payload.isEmpty then none else self.bestPeerForKey tr.dest
  match direct with
  | some _ => []
  | none =>
    match self.pathfinder.getPath tr.dest with
    | some path =>
      let coords := self.cachedCoords self.crypto.publicKey
      let self := coords.2
      let tr := { tr with path, fromPath := coords.1 }
      if self.pathfinder.needsTrafficCache tr.dest then
        .cacheTraffic tr :: routeActs env clk { self with pathfinder := self.pathfinder.cacheTraffic tr.dest tr } tr
      else routeActs env clk self tr
    | none =>
      let xform := Blooms.xKey tr.dest self.bloomTransform
      let pathfinder := perform self.setting clk self.pathfinder (.buffer tr)
      .buffer tr ::
        if !pathfinder.shouldThrottleRumor xform self.pathThrottle clk.now then
          searchActs env clk (routeActs env clk)
            { self with pathfinder := pathfinder.markRumorSent xform clk.now } .send
            tr.dest
        else []

def handlePathActs (self : Router) : PathMsg → List Act
  | .handleTraffic tr => routeActs env clk self tr
  | .sendTraffic tr => sendTrafficActs env clk self tr
  | .handleLookup peerKey lookup =>
    if !self.blooms.isOnTree peerKey then [] else lookupActs env clk (routeActs env clk) self lookup
  | .handleNotify notify => notifyActs env clk (routeActs env clk) self notify
  | .handleBroken broken => brokenActs env clk (routeActs env clk) self broken
  | .sendLookup dest =>
    .ensureRumor dest ::
      sendTrafficActs env clk { self with pathfinder := perform self.setting clk self.pathfinder (.ensureRumor dest) }
        (TrafficPacket.new self.crypto.publicKey dest [])
  | .forceLookup dest =>
    .forgetSent dest ::
      searchActs env clk (routeActs env clk)
        { self with pathfinder := perform self.setting clk self.pathfinder (.forgetSent dest) } .force dest

def retryActs : List PublicKey → Router → List Act
  | [], _ => []
  | dest :: dests, self =>
    let xform := Blooms.xKey dest self.bloomTransform
    if self.pathfinder.shouldThrottleRumorRetry xform self.pathThrottle clk.now then retryActs dests self
    else
      let self := { self with pathfinder := self.pathfinder.markRumorRetry xform clk.now }
      searchActs env clk (routeActs env clk) self .retry dest ++
        retryActs dests (doSendLookup env clk (routeTraffic env clk) self dest).router

def maintainActs (self : Router) : List Act :=
  let pathfinder := self.pathfinder.cleanupExpired self.pathTimeout clk.now
  .cleanup :: retryActs env clk pathfinder.rumorsNeedingRetry { self with pathfinder }

/-! ## The acts lead to the pathfinder -/

def PathMsg.Meets (ok : List PeerPort → Prop) : PathMsg → Prop
  | .handleTraffic tr => ok tr.fromPath
  | .handleNotify notify => ok notify.info.path
  | _ => True

def Sound (env : Env) (c : List PeerPort) (ok : List PeerPort → Prop) : Act → Prop
  | .answer coords => coords = c
  | .accept source seq path _ => ok path ∧ ∃ sig, env.verify source (bytesForSig seq path) sig = true
  | .arrive _ path => ok path
  | .ensureRumor _ | .buffer _ | .forgetSent _ | .search _ _ _ | .markBroken _ | .cacheTraffic _ | .cleanup => True

def Searched (dest : PublicKey) (l : List Act) : Prop := ∃ why, .search why dest true ∈ l

structure Tells (s : Setting) (clk : Clock) (P : Act → Prop) (p : Pathfinder) (l : List Act) (fwd : PathLookup → Prop)
    (o : Outcome) : Prop where
  run : Lts.Run (Doing s clk P) p l o.router.pathfinder
  searched : ∀ id lk, .sendPathLookup id lk ∈ o.actions → fwd lk ∨ Searched lk.dest l

section Tells
variable {s : Setting} {clk : Clock} {P : Act → Prop} {p p' : Pathfinder} {a : Act} {l l' : List Act}
  {fwd : PathLookup → Prop} {o o' : Outcome}

theorem Searched.mono {dest : PublicKey} (h : Searched dest l) (hsub : l ⊆ l') : Searched dest l' :=
  h.imp fun _ hmem => hsub hmem

theorem Tells.nil (hp : o.router.pathfinder = p) (hno : ∀ id lk, .sendPathLookup id lk ∉ o.actions) :
    Tells s clk P p [] fwd o := ⟨hp ▸ Lts.Run.nil _, fun id lk hmem => absurd hmem (hno id lk)⟩

theorem Tells.cons (hstep : Doing s clk P p a p') (h : Tells s clk P p' l fwd o) : Tells s clk P p (a :: l) fwd o :=
  ⟨Lts.Run.cons hstep h.run, fun id lk hmem =>
    (h.searched id lk hmem).imp_right fun hs => hs.mono (subset_cons_self _ _)⟩

theorem Tells.append (h : Tells s clk P p l fwd o) (h' : Tells s clk P o.router.pathfinder l' fwd o') :
    Tells s clk P p (l ++ l') fwd { o' with actions := o.actions ++ o'.actions } := by
  refine ⟨h.run.append h'.run, fun id lk hmem => ?_⟩
  rcases mem_append.mp hmem with hmem | hmem
  · exact (h.searched id lk hmem).imp_right fun hs => hs.mono (subset_append_left _ _)
  · exact (h'.searched id lk hmem).imp_right fun hs => hs.mono (subset_append_right _ _)

end Tells

section Cycle
variable {env clk} (self : Router) {s : Setting} {c : List PeerPort} {ok : List PeerPort → Prop} {P : Act → Prop}
  {route : Router → TrafficPacket → Outcome} {acts : Router → TrafficPacket → List Act}

def Logs (s : Setting) (clk : Clock) (c : List PeerPort) (ok : List PeerPort → Prop) (P : Act → Prop)
    (route : Router → TrafficPacket → Outcome) (acts : Router → TrafficPacket → List Act) : Prop :=
  ∀ r t, r.setting = s → r.ownCoords = c → ok t.fromPath →
    Tells s clk P r.pathfinder (acts r t) (fun _ => False) (route r t)

theorem Caches.setting {r r' : Router} (h : Caches r r') : r'.setting = r.setting := by
  rw [Router.setting, Router.setting, h.frame]

theorem Keeps.setting {r r' : Router} (h : Keeps r r') : r'.setting = r.setting := by
  rw [Router.setting, Router.setting, h.frame]

variable (hP : ∀ a, a.routing = true → Sound env c ok a → P a) (hc : ok c) (hroute : Logs s clk c ok P route acts)
  (hs : self.setting = s) (hown : self.ownCoords = c)
include hP hc hroute hs hown

theorem handleNotifyInternal_tells (notify : PathNotify) (hok : ok notify.info.path) :
    Tells s clk P self.pathfinder (notifyActs env clk acts self notify) (fun _ => False)
      (handleNotifyInternal env clk route self notify) := by
  have hfound := self.lookup_caches notify.path notify.watermark
  simp only [notifyActs, handleNotifyInternal]
  rw [← hfound.pathfinder]
  rw [← hfound.setting] at hs
  rw [← hfound.keeps.ownCoords] at hown
  generalize (self.lookup notify.path notify.watermark).router = r at hs hown ⊢
  subst hs
  cases (self.lookup notify.path notify.watermark).peerId with
  | some id => exact Tells.nil rfl (by simp)
  | none =>
    simp only
    split
    · exact Tells.nil rfl (by simp)
    split
    · exact Tells.nil rfl (by simp)
    next hverify =>
      rw [Bool.not_eq_true', Bool.not_eq_false] at hverify
      refine Tells.cons ⟨⟨trivial, rfl⟩, hP _ rfl ⟨hok, _, hverify⟩⟩ ?_
      show Tells _ _ _ (r.pathfinder.acceptNotify notify.source (Blooms.xKey notify.source r.bloomTransform)
        notify.info.seq notify.info.path clk.now).2.2 _ _ _
      generalize r.pathfinder.acceptNotify notify.source (Blooms.xKey notify.source r.bloomTransform)
        notify.info.seq notify.info.path clk.now = accept
      -- the callback comes after whatever the released packet does
      have hcallback : ∀ {o : Outcome} {l : List Act}, Tells r.setting clk P accept.2.2 l (fun _ => False) o →
          Tells r.setting clk P accept.2.2 l (fun _ => False)
            { o with actions := o.actions ++ if accept.1 then [.pathNotifyCallback notify.source] else [] } := by
        refine fun h => ⟨h.run, fun id lk hmem => h.searched id lk ?_⟩
        rcases mem_append.mp hmem with hmem | hmem
        · exact hmem
        · split at hmem <;> simp at hmem
      have hcoords := cachedCoords_caches { r with pathfinder := accept.2.2 } r.crypto.publicKey
      cases accept.2.1 with
      | none =>
        exact hcallback (o := { actions := [], router := { r with pathfinder := accept.2.2 } })
          (Tells.nil rfl (by simp))
      | some traffic =>
        have htells := hroute (cachedCoords { r with pathfinder := accept.2.2 } r.crypto.publicKey).2
          { traffic with
            path := notify.info.path
            fromPath := (cachedCoords { r with pathfinder := accept.2.2 } r.crypto.publicKey).1 } hcoords.setting
          (hcoords.keeps.ownCoords.trans hown) (by
            show ok (cachedCoords _ _).1
            rw [cachedCoords_fst]
            exact show ok r.ownCoords from hown ▸ hc)
        rw [hcoords.pathfinder] at htells
        exact hcallback htells

theorem handleLookupInternal_tells (fromKey : PublicKey) (lookup : PathLookup) :
    Tells s clk P self.pathfinder (lookupActs env clk acts self lookup) (· = lookup)
      (handleLookupInternal env clk route self fromKey lookup) := by
  have hcoords := self.cachedCoords_caches self.crypto.publicKey
  have hfst : (self.cachedCoords self.crypto.publicKey).1 = c := (cachedCoords_fst self _).trans hown
  have hmulticast : ∀ id lk, .sendPathLookup id lk ∈ self.multicastActions env fromKey lookup → lk = lookup := by
    intro id lk hmem
    obtain ⟨key, -, hkey⟩ := mem_filterMap.mp hmem
    obtain ⟨id, -, heq⟩ := Option.map_eq_some_iff.mp hkey
    exact (RouterAction.sendPathLookup.inj heq).2.symm
  simp only [lookupActs, handleLookupInternal]
  split
  · have hsetting := hcoords.setting.trans hs
    have hown' := hcoords.keeps.ownCoords.trans hown
    rw [← hcoords.pathfinder, hfst]
    generalize (self.cachedCoords self.crypto.publicKey).2 = r at hsetting hown' ⊢
    subst hsetting
    have htells := Tells.cons (a := .answer c) ⟨⟨trivial, rfl⟩, hP _ rfl rfl⟩
      (handleNotifyInternal_tells
        { r with pathfinder := { r.pathfinder with info := answerInfo clk r.crypto r.pathfinder c } } hP hc
          hroute rfl hown'
        (r.answerTo lookup (answerInfo clk r.crypto r.pathfinder c)) (by
          show ok (answerInfo clk r.crypto r.pathfinder c).path
          rwa [(Pathfinder.answerInfo_content clk r.crypto r.pathfinder c).2]))
    refine ⟨htells.run, fun id lk hmem => ?_⟩
    rcases mem_append.mp hmem with hmem | hmem
    · exact .inl (hmulticast id lk hmem)
    · exact .inr ((htells.searched id lk hmem).resolve_left not_false)
  · exact ⟨Lts.Run.nil _, fun id lk hmem => .inl (hmulticast id lk hmem)⟩

theorem doSendLookup_tells {p : Pathfinder} (why : Trigger) (dest : PublicKey)
    (hmark : self.pathfinder = why.mark p (s.xKey dest) clk.now) (hpassed : why.Passed s clk p dest)
    (hwhy : ∀ sent, P (.search why dest sent)) :
    Tells s clk P p (searchActs env clk acts self why dest) (fun _ => False)
      (doSendLookup env clk route self dest) := by
  subst hs
  have hthrottle : self.pathfinder.shouldThrottleLookup dest self.pathThrottle clk.now =
      p.shouldThrottleLookup dest self.pathThrottle clk.now := by
    rw [hmark]
    cases why <;> rfl
  simp only [searchActs, doSendLookup]
  split
  next hrecent =>
    rw [hthrottle] at hrecent
    exact Tells.cons ⟨⟨⟨hpassed, (congrArg not hrecent).symm⟩, rfl⟩, hwhy false⟩ (Tells.nil hmark (by simp))
  next hold =>
    rw [hthrottle, Bool.not_eq_true] at hold
    have hcoords := cachedCoords_caches { self with pathfinder := self.pathfinder.markLookupSent dest clk.now }
      self.crypto.publicKey
    have htells := handleLookupInternal_tells _ hP hc hroute hcoords.setting (hcoords.keeps.ownCoords.trans hown)
      self.crypto.publicKey
    rw [hcoords.pathfinder] at htells
    refine ⟨Lts.Run.cons ⟨⟨⟨hpassed, (congrArg not hold).symm⟩, ?_⟩, hwhy true⟩ (htells _).run, fun id lk hmem => ?_⟩
    · show self.pathfinder.markLookupSent dest clk.now = Pathfinder.markLookupSent (why.mark p _ clk.now) dest clk.now
      rw [← hmark]
    rcases (htells _).searched id lk hmem with rfl | hs
    · exact .inr ⟨why, mem_cons_self⟩
    · exact .inr (hs.mono (subset_cons_self _ _))

theorem handleBrokenInternal_tells (broken : PathBroken) :
    Tells s clk P self.pathfinder (brokenActs env clk acts self broken) (fun _ => False)
      (handleBrokenInternal env clk route self broken) := by
  have hfound := self.lookup_caches broken.path broken.watermark
  simp only [brokenActs, handleBrokenInternal]
  rw [← hfound.pathfinder]
  rw [← hfound.setting] at hs
  rw [← hfound.keeps.ownCoords] at hown
  generalize (self.lookup broken.path broken.watermark).router = r at hs hown ⊢
  cases (self.lookup broken.path broken.watermark).peerId with
  | some id => exact Tells.nil rfl (by simp)
  | none =>
    simp only
    split
    · exact Tells.nil rfl (by simp)
    refine Tells.cons ⟨⟨trivial, rfl⟩, hP _ rfl trivial⟩ ?_
    split
    · exact doSendLookup_tells { r with pathfinder := r.pathfinder.handleBroken broken.dest } hP hc hroute hs hown
        .broken broken.dest rfl trivial fun _ => hP _ rfl trivial
    · exact Tells.nil rfl (by simp)

omit self hs hown

theorem routeTrafficBody_tells : Logs s clk c ok P (routeTrafficBody env clk route) (routeBodyActs env clk acts) := by
  intro self tr hs hown hok
  have hfound := self.lookup_caches tr.path tr.watermark
  simp only [routeBodyActs, routeTrafficBody, doBroken]
  rw [← hfound.pathfinder]
  rw [← hfound.setting] at hs
  rw [← hfound.keeps.ownCoords] at hown
  generalize (self.lookup tr.path tr.watermark).router = r at hs hown ⊢
  cases (self.lookup tr.path tr.watermark).peerId with
  | some id => exact Tells.nil rfl (by simp)
  | none =>
    simp only
    split
    · exact Tells.cons ⟨⟨trivial, rfl⟩, hP _ rfl hok⟩ (Tells.nil rfl (by simp))
    · exact handleBrokenInternal_tells r hP hc hroute hs hown _

omit hroute

theorem routeTraffic_tells : Logs s clk c ok P (routeTraffic env clk) (routeActs env clk) := by
  have hfuel : ∀ n, Logs s clk c ok P (routeTrafficFuel env clk n) (routeActsFuel env clk n) := by
    intro n
    induction n with
    | zero => exact fun r t _ _ _ => Tells.nil rfl (by simp [routeTrafficFuel])
    | succ n ih => exact routeTrafficBody_tells hP hc ih
  exact fun r t => hfuel (r.pathfinder.waiting.length + 1) r t

end Cycle

section Messages
variable {env clk} {self : Router} {s : Setting} {ok : List PeerPort → Prop}

theorem routeTraffic_routing (env : Env) (clk : Clock) (s : Setting) (c : List PeerPort) :
    Logs s clk c (fun _ => True) (·.routing = true) (routeTraffic env clk) (routeActs env clk) :=
  routeTraffic_tells (fun _ h (_ : Sound env c _ _) => h) trivial

theorem buffer_isSome (s : Setting) (clk : Clock) (p : Pathfinder) (tr : TrafficPacket) :
    ((perform s clk p (.buffer tr)).rumors.lookup (s.xKey tr.dest)).isSome := by
  rw [Pathfinder.perform_rumors]
  simp [Pathfinder.rumorAfter]

theorem perform_buffer (clk : Clock) (self : Router) (tr : TrafficPacket) : (if tr.keepalive then
      (self.pathfinder.ensureRumor (Blooms.xKey tr.dest self.bloomTransform) clk.now).cacheRumorTrafficIfAbsent
        (Blooms.xKey tr.dest self.bloomTransform) tr
    else
      (self.pathfinder.ensureRumor (Blooms.xKey tr.dest self.bloomTransform) clk.now).cacheRumorTraffic
        (Blooms.xKey tr.dest self.bloomTransform) tr) = perform self.setting clk self.pathfinder (.buffer tr) := rfl

def Handled (env : Env) (c : List PeerPort) (ok : List PeerPort → Prop) (force : Prop) (a : Act) : Prop :=
  a.Handling force ∧ Sound env c ok a

theorem handled_of_routing (env : Env) (c : List PeerPort) (ok : List PeerPort → Prop) (force : Prop) (a : Act)
    (h : a.routing = true) (hs : Sound env c ok a) :
    Handled env c ok force a := ⟨Pathfinder.Act.handling_of_routing h force, hs⟩

theorem sendTraffic_tells (self : Router) (hc : ok self.ownCoords) (tr : TrafficPacket) (force : Prop) :
    Tells self.setting clk (Handled env self.ownCoords ok force) self.pathfinder (sendTrafficActs env clk self tr)
      (fun _ => False) (sendTraffic env clk self tr) := by
  have hP := handled_of_routing env self.ownCoords ok force
  simp only [sendTrafficActs, sendTraffic]
  cases if tr.payload.isEmpty then none else self.bestPeerForKey tr.dest with
  | some id =>
    exact Tells.nil ((self.cachedCoords_caches tr.dest).trans (cachedCoords_caches _ self.crypto.publicKey)).pathfinder
      (by simp)
  | none =>
    cases self.pathfinder.getPath tr.dest with
    | some path =>
      have hcoords := self.cachedCoords_caches self.crypto.publicKey
      have hown := hcoords.keeps.ownCoords
      have hfst : (self.cachedCoords self.crypto.publicKey).1 = self.ownCoords := cachedCoords_fst self _
      simp only
      rw [← hcoords.pathfinder, ← hcoords.setting, hfst]
      generalize (self.cachedCoords self.crypto.publicKey).2 = r at hown ⊢
      split
      · refine Tells.cons ⟨⟨trivial, rfl⟩, by simp [Handled, Act.Handling, Act.forced, Sound]⟩ ?_
        exact routeTraffic_tells hP hc { r with pathfinder := r.pathfinder.cacheTraffic tr.dest _ } _ rfl hown hc
      · exact routeTraffic_tells hP hc r _ rfl hown hc
    | none =>
      refine Tells.cons ⟨⟨trivial, rfl⟩, by simp [Handled, Act.Handling, Act.forced, Sound]⟩ ?_
      have hsome := buffer_isSome self.setting clk self.pathfinder tr
      have hbuffer := perform_buffer clk self tr
      simp only [hbuffer]
      generalize perform self.setting clk self.pathfinder (.buffer tr) = p at hsome ⊢
      split
      next hold =>
        rw [Bool.not_eq_true'] at hold
        exact doSendLookup_tells
          { self with pathfinder := p.markRumorSent (Blooms.xKey tr.dest self.bloomTransform) clk.now } hP hc
          (routeTraffic_tells hP hc) rfl rfl .send tr.dest rfl ⟨hsome, hold⟩ fun _ => by
            simp [Handled, Act.Handling, Act.forced, Sound]
      · exact Tells.nil rfl (by simp)

theorem handlePath_tells (env : Env) (clk : Clock) (self : Router) (ok : List PeerPort → Prop) (hc : ok self.ownCoords)
    (m : PathMsg) (hm : m.Meets ok) :
    Tells self.setting clk (Handled env self.ownCoords ok (∃ dest, m = .forceLookup dest)) self.pathfinder
      (handlePathActs env clk self m) (fun l => ∃ peerKey, m = .handleLookup peerKey l)
        (handlePath env clk self m) := by
  have hP := handled_of_routing env self.ownCoords ok (∃ dest, m = .forceLookup dest)
  have hroute : Logs self.setting clk self.ownCoords ok _ _ _ := routeTraffic_tells hP hc
  have hnone : ∀ {p : Pathfinder} {l : List Act} {o : Outcome} {P : Act → Prop} {fwd : PathLookup → Prop},
      Tells self.setting clk P p l (fun _ => False) o → Tells self.setting clk P p l fwd o :=
    fun h => ⟨h.run, fun id lk hmem => .inr ((h.searched id lk hmem).resolve_left not_false)⟩
  cases m with
  | handleTraffic tr => exact hnone (hroute self tr rfl rfl hm)
  | sendTraffic tr => exact hnone (sendTraffic_tells self hc tr _)
  | handleLookup peerKey lookup =>
    simp only [handlePathActs, handlePath, handleLookup]
    split
    · exact Tells.nil rfl (by simp)
    have htells := handleLookupInternal_tells self hP hc hroute rfl rfl peerKey lookup
    refine ⟨htells.run, fun id lk hmem => (htells.searched id lk hmem).imp_left ?_⟩
    rintro rfl
    exact ⟨peerKey, rfl⟩
  | handleNotify notify => exact hnone (handleNotifyInternal_tells self hP hc hroute rfl rfl notify hm)
  | handleBroken broken => exact hnone (handleBrokenInternal_tells self hP hc hroute rfl rfl broken)
  | sendLookup dest =>
    refine Tells.cons ⟨⟨trivial, rfl⟩, by simp [Handled, Act.Handling, Act.forced, Sound]⟩ (hnone ?_)
    exact sendTraffic_tells
      { self with pathfinder := perform self.setting clk self.pathfinder (.ensureRumor dest) } hc _ _
  | forceLookup dest =>
    refine Tells.cons ⟨⟨trivial, rfl⟩, by simp [Handled, Act.Handling, Sound]⟩ (hnone ?_)
    exact doSendLookup_tells
      { self with pathfinder := perform self.setting clk self.pathfinder (.forgetSent dest) } hP hc hroute
        rfl rfl .force
      dest rfl trivial fun _ => by simp [Handled, Act.Handling, Sound]

theorem handled_isSome {p p' : Pathfinder} {l : List Act} {c : List PeerPort} {force : Prop}
    (h : Lts.Run (Doing s clk (Handled env c ok force)) p l p') {x : PublicKey} (hx : (p.rumors.lookup x).isSome) :
    (p'.rumors.lookup x).isSome := by
  refine h.invariant (I := fun p => (p.rumors.lookup x).isSome = true) hx fun p a p' hp hstep => ?_
  obtain ⟨⟨-, rfl⟩, ⟨ha, -⟩, -⟩ := hstep
  exact Pathfinder.rumors_isSome_perform ha hp

theorem retryRumors_tells (env : Env) (clk : Clock) (dests : List PublicKey) : ∀ self : Router, self.setting = s →
    (∀ dest ∈ dests, (self.pathfinder.rumors.lookup (s.xKey dest)).isSome) →
    Tells s clk (Handled env self.ownCoords (fun _ => True) False) self.pathfinder (retryActs env clk dests self)
      (fun _ => False) (retryRumors env clk dests self) := by
  induction dests with
  | nil => exact fun self _ _ => Tells.nil rfl (by simp [retryRumors])
  | cons dest dests ih =>
    intro self hs hsome
    simp only [retryActs, retryRumors]
    split
    · exact ih self hs fun dest hdest => hsome dest (mem_cons_of_mem _ hdest)
    next hold =>
      subst hs
      rw [Bool.not_eq_true] at hold
      have hP := handled_of_routing env self.ownCoords (fun _ => True) False
      have hsearch := doSendLookup_tells (p := self.pathfinder)
        { self with pathfinder := self.pathfinder.markRumorRetry (Blooms.xKey dest self.bloomTransform) clk.now }
        hP trivial (routeTraffic_tells hP trivial) rfl rfl .retry dest rfl
        ⟨hsome dest mem_cons_self, hold⟩ fun _ => by simp [Handled, Act.Handling, Act.forced, Sound]
      have hkeeps := (doSendLookup_does env clk (routeTraffic_homing env clk (pending { self with
        pathfinder := self.pathfinder.markRumorRetry (Blooms.xKey dest self.bloomTransform) clk.now })) dest).keeps
      have hrest := ih _ hkeeps.setting fun d hd =>
        handled_isSome hsearch.run (hsome d (mem_cons_of_mem _ hd))
      rw [hkeeps.ownCoords] at hrest
      exact hsearch.append hrest

theorem rumorsNeedingRetry_isSome {p : Pathfinder} (h : Slotted s p) {dest : PublicKey}
    (hdest : dest ∈ p.rumorsNeedingRetry) : (p.rumors.lookup (s.xKey dest)).isSome := by
  obtain ⟨rumor, hrumor, hmap⟩ := mem_filterMap.mp (mem_filter.mp hdest).1
  obtain ⟨t, ht, rfl⟩ := Option.map_eq_some_iff.mp hmap
  obtain ⟨x, hx⟩ := HashMap.mem_values.mp hrumor
  rw [h x t (Pathfinder.slot_eq_some.mpr ⟨rumor, hx, ht⟩), hx]
  rfl

theorem maintainPaths_tells (env : Env) (clk : Clock) (self : Router) (h : Slotted self.setting self.pathfinder) :
    Tells self.setting clk (fun a => a.forced = false) self.pathfinder (maintainActs env clk self) (fun _ => False)
      (maintainPaths env clk self) := by
  have htells := retryRumors_tells env clk _
    { self with pathfinder := self.pathfinder.cleanupExpired self.pathTimeout clk.now } rfl fun dest hdest =>
      rumorsNeedingRetry_isSome (h.perform clk .cleanup) hdest
  refine Tells.cons ⟨⟨trivial, rfl⟩, rfl⟩ ⟨Pathfinder.Doing.mono htells.run fun a ha => ?_, htells.searched⟩
  exact Bool.eq_false_of_not_eq_true ha.1.2

end Messages

end Router

end Yggdrasil
