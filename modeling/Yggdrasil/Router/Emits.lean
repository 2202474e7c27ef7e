import Yggdrasil.Router.Effects

/-!
# What the router emits for a message about paths
-/

namespace Yggdrasil.Router
open List

/-- Messages to the router task about traffic and paths. The packets of `sendTraffic` come from the application. -/
inductive PathMsg where
  | handleTraffic (traffic : TrafficPacket)
  | sendTraffic (traffic : TrafficPacket)
  | handleLookup (peerKey : PublicKey) (lookup : PathLookup)
  | handleNotify (notify : PathNotify)
  | handleBroken (broken : PathBroken)
  | sendLookup (dest : PublicKey)
  | forceLookup (dest : PublicKey)

def handlePath (env : Env) (clk : Clock) (self : Router) : PathMsg → Outcome
  | .handleTraffic tr => handleTraffic env clk self tr
  | .sendTraffic tr => sendTraffic env clk self tr
  | .handleLookup peerKey lookup => handleLookup env clk self peerKey lookup
  | .handleNotify notify => handleNotify env clk self notify
  | .handleBroken broken => handleBroken env clk self broken
  | .sendLookup dest => sendLookup env clk self dest
  | .forceLookup dest => forceLookup env clk self dest

structure Routed (r r' : Router) : Prop where
  frame : r' = { r with cache := r'.cache, pathfinder := r'.pathfinder }
  coords : ∀ k, r'.coordsOf k = r.coordsOf k

section Routed
variable {r r' r'' : Router}

theorem Keeps.routed (h : Keeps r r') : Routed r r' := ⟨h.frame, h.coords⟩

theorem Routed.trans (h : Routed r r') (h' : Routed r' r'') : Routed r r'' where
  frame := by rw [h'.frame, h.frame]
  coords k := (h'.coords k).trans (h.coords k)

theorem routed_pathfinder (r : Router) (p : Pathfinder) : Routed r { r with pathfinder := p } := ⟨rfl, fun _ => rfl⟩

theorem Routed.crypto (h : Routed r r') : r'.crypto = r.crypto := by rw [h.frame]

theorem Routed.sent (h : Routed r r') : r'.sent = r.sent := by rw [h.frame]

theorem Routed.infos (h : Routed r r') : r'.infos = r.infos := by rw [h.frame]

theorem Routed.ownCoords (h : Routed r r') : r'.ownCoords = r.ownCoords := by
  rw [Router.ownCoords, Router.ownCoords, h.crypto, h.coords]

theorem Routed.coherent (h : Routed r r') (hr : r.Coherent) : r'.Coherent := by
  intro k rp hk
  have hcoords := h.coords k
  rw [hr.coordsOf, Router.coordsOf, hk, Option.getD_some] at hcoords
  rw [hcoords, Router.getRootAndPath, Router.getRootAndPath, h.infos]

end Routed

def PathMsg.packet (self : Router) : PathMsg → Option TrafficPacket
  | .sendTraffic tr => some tr
  | .sendLookup dest => some (TrafficPacket.new self.crypto.publicKey dest [])
  | _ => none

/-- The actions that handling the message can lead to, with the coordinates they carry. -/
inductive Emits (r : Router) : PathMsg → RouterAction → Prop
  | callback (m : PathMsg) (k : PublicKey) : Emits r m (.pathNotifyCallback k)
  | deliver (m : PathMsg) (tr : TrafficPacket) : Emits r m (.deliverTraffic tr)
  | lookup (m : PathMsg) (id : PeerId) (dest : PublicKey) :
      Emits r m (.sendPathLookup id { source := r.crypto.publicKey, dest, fromPath := r.ownCoords })
  | traffic (tr : TrafficPacket) (id : PeerId) (w : UInt64) :
      Emits r (.handleTraffic tr) (.sendTraffic id { tr with watermark := w })
  | report (tr : TrafficPacket) (id : PeerId) (w : UInt64) :
      Emits r (.handleTraffic tr)
        (.sendPathBroken id { path := tr.fromPath, watermark := w, source := tr.source, dest := tr.dest })
  | broken (b : PathBroken) (id : PeerId) (w : UInt64) :
      Emits r (.handleBroken b) (.sendPathBroken id { b with watermark := w })
  | forward (peerKey : PublicKey) (l : PathLookup) (id : PeerId) : Emits r (.handleLookup peerKey l)
    (.sendPathLookup id l)
  | answer (peerKey : PublicKey) {l : PathLookup} (id : PeerId) {n : PathNotify} (w : UInt64) : Answers r l n →
      Emits r (.handleLookup peerKey l) (.sendPathNotify id { n with watermark := w })
  | notify (n : PathNotify) (id : PeerId) (w : UInt64) :
      Emits r (.handleNotify n) (.sendPathNotify id { n with watermark := w })
  | released {n : PathNotify} (id : PeerId) {tr : TrafficPacket} : tr.path = n.info.path → tr.fromPath = r.ownCoords →
      Emits r (.handleNotify n) (.sendTraffic id tr)
  | sent {m : PathMsg} {tr tr' : TrafficPacket} (id : PeerId) : m.packet r = some tr → tr'.fromPath = r.ownCoords →
      tr'.path = (r.coordsOf tr.dest).path ∨ r.pathfinder.getPath tr.dest = some tr'.path →
      Emits r m (.sendTraffic id tr')

structure Acts (r : Router) (P : RouterAction → Prop) (o : Outcome) : Prop where
  routed : Routed r o.router
  actions : ∀ a ∈ o.actions, P a

section Acts
variable {r r' self : Router} {P Q : RouterAction → Prop} {o : Outcome} {m : PathMsg}

theorem Does.acts (h : Does r P o) (hPQ : ∀ a, P a → Q a) : Acts r Q o :=
  ⟨h.keeps.routed, fun a ha => hPQ a (h.actions a ha)⟩

theorem Acts.after (hr : Routed r r') (h : Acts r' P o) (hPQ : ∀ a, P a → Q a) : Acts r Q o :=
  ⟨hr.trans h.routed, fun a ha => hPQ a (h.actions a ha)⟩

theorem Acts.nothing (h : Routed r r') : Acts r P { actions := [], router := r' } :=
  ⟨h, fun _ ha => absurd ha not_mem_nil⟩

theorem Local.emits (hr : Routed r r') {a : RouterAction} (h : Local r' a) : Emits r m a := by
  cases h with
  | lookup id dest =>
    rw [hr.crypto, hr.ownCoords]
    exact Emits.lookup m id dest
  | answered | released _ => exact Emits.callback m _
  | delivered tr => exact Emits.deliver m tr

variable (env : Env) (clk : Clock)

theorem doSendLookup_acts (hr : Routed r self) (dest : PublicKey) :
    Acts r (Emits r m) (doSendLookup env clk (routeTraffic env clk) self dest) :=
  Acts.after hr ((doSendLookup_does env clk (routeTraffic_homing env clk _) dest).acts fun _ ha => ha) fun _ ha =>
    ha.emits hr

theorem routeTraffic_acts (self : Router) (tr : TrafficPacket) :
    Acts self (Emits self (.handleTraffic tr)) (routeTraffic env clk self tr) := by
  rw [routeTraffic_eq]
  refine (routeTrafficBody_does env clk (routeTraffic_homing env clk _) tr).acts ?_
  rintro a (⟨id, -, rfl⟩ | ⟨-, ⟨-, rfl⟩ | ⟨r', -, id, -, rfl⟩ | hlocal⟩)
  · exact Emits.traffic tr id _
  · exact Emits.callback _ _
  · exact Emits.report tr id _
  · exact hlocal.emits (Keeps.refl self).routed

theorem routeTraffic_own (self : Router) (tr : TrafficPacket) (hfrom : tr.fromPath = self.ownCoords) :
    Acts self (fun a => (∃ id w, a = .sendTraffic id { tr with watermark := w }) ∨ (∃ k, a = .pathNotifyCallback k) ∨
      Local self a) (routeTraffic env clk self tr) := by
  rw [routeTraffic_eq]
  refine (routeTrafficBody_does env clk (routeTraffic_homing env clk _) tr).acts ?_
  rintro a (⟨id, -, rfl⟩ | ⟨-, ⟨-, rfl⟩ | ⟨r', hr', hsends⟩ | hlocal⟩)
  · exact .inl ⟨id, _, rfl⟩
  · exact .inr (.inl ⟨_, rfl⟩)
  · exact absurd (hfrom.trans hr'.ownCoords.symm) hsends.path_ne
  · exact .inr (.inr hlocal)

theorem handleNotify_acts (self : Router) (notify : PathNotify) :
    Acts self (Emits self (.handleNotify notify)) (handleNotify env clk self notify) := by
  have hdoes : Does self _ (handleNotify env clk self notify) := handleNotifyInternal_does env clk notify
    (Emits self (.handleNotify notify)) <| by
      intro r c hkeeps _ _ _
      refine ⟨routeTraffic_keeps env clk r _, fun a ha => ?_⟩
      rcases (routeTraffic_own env clk r _ hkeeps.ownCoords.symm).actions a ha with ⟨id, w, rfl⟩ | ⟨k, rfl⟩ | hlocal
      · exact Emits.released id rfl rfl
      · exact Emits.callback _ k
      · exact hlocal.emits hkeeps.routed
  refine hdoes.acts ?_
  rintro a (⟨id, -, rfl⟩ | hreleased | ⟨rfl, -⟩)
  · exact Emits.notify notify id _
  · exact hreleased
  · exact Emits.callback _ _

theorem handleBroken_acts (self : Router) (broken : PathBroken) :
    Acts self (Emits self (.handleBroken broken)) (handleBroken env clk self broken) := by
  refine (handleBrokenInternal_does env clk (routeTraffic_homing env clk _) broken).acts ?_
  rintro a (⟨id, -, rfl⟩ | hlocal)
  · exact Emits.broken broken id _
  · exact hlocal.emits (Keeps.refl self).routed

theorem handleLookup_acts (self : Router) (peerKey : PublicKey) (lookup : PathLookup) :
    Acts self (Emits self (.handleLookup peerKey lookup)) (handleLookup env clk self peerKey lookup) := by
  rw [handleLookup]
  split
  · exact Acts.nothing (Keeps.refl self).routed
  refine (handleLookupInternal_does env clk (routeTraffic_homing env clk _) peerKey lookup).acts ?_
  rintro a (⟨id, rfl⟩ | hlocal | ⟨r, notify, -, hnotify, id, -, rfl⟩)
  · exact Emits.forward peerKey lookup id
  · exact hlocal.emits (Keeps.refl self).routed
  · exact Emits.answer peerKey id _ hnotify

theorem sendTraffic_acts (hr : Routed r self) (hpaths : self.pathfinder.paths = r.pathfinder.paths) (tr : TrafficPacket)
    (hpacket : m.packet r = some tr) : Acts r (Emits r m) (sendTraffic env clk self tr) := by
  simp only [sendTraffic]
  split
  next id _ =>
    have hdest := self.cachedCoords_caches tr.dest
    have hself := cachedCoords_caches (self.cachedCoords tr.dest).2 self.crypto.publicKey
    refine ⟨hr.trans (hdest.trans hself).keeps.routed, fun a ha => ?_⟩
    rw [mem_singleton.mp ha]
    refine Emits.sent id hpacket ?_ (.inl ?_)
    · show (cachedCoords _ _).1 = r.ownCoords
      rw [cachedCoords_fst, hdest.coords]
      exact hr.ownCoords
    show (self.cachedCoords tr.dest).1 = _
    rw [cachedCoords_fst, hr.coords]
  split
  next path hpath =>
    have hpath' : r.pathfinder.getPath tr.dest = some path := by
      rw [← hpath, Pathfinder.getPath, Pathfinder.getPath, hpaths]
    have hcoords := self.cachedCoords_caches self.crypto.publicKey
    have hown : (self.cachedCoords self.crypto.publicKey).1 = r.ownCoords := by
      rw [cachedCoords_fst]
      exact hr.ownCoords
    rw [hown]
    generalize (self.cachedCoords self.crypto.publicKey).2 = r' at hcoords ⊢
    have hr' := hr.trans hcoords.keeps.routed
    generalize (if r'.pathfinder.needsTrafficCache tr.dest then
      r'.pathfinder.cacheTraffic tr.dest { tr with path := path, fromPath := r.ownCoords } else r'.pathfinder) = p
    have hp := hr'.trans (routed_pathfinder r' p)
    refine (routeTraffic_own env clk { r' with pathfinder := p } _ hp.ownCoords.symm).after hp ?_
    rintro a (⟨id, w, rfl⟩ | ⟨k, rfl⟩ | hlocal)
    · exact Emits.sent id hpacket rfl (.inr hpath')
    · exact Emits.callback m k
    · exact hlocal.emits hp
  generalize (if tr.keepalive then _ else _ : Pathfinder) = p
  split
  · exact doSendLookup_acts env clk (hr.trans (routed_pathfinder self _)) tr.dest
  · exact Acts.nothing (hr.trans (routed_pathfinder self p))

theorem handlePath_acts (self : Router) (m : PathMsg) : Acts self (Emits self m) (handlePath env clk self m) := by
  cases m with
  | handleTraffic tr => exact routeTraffic_acts env clk self tr
  | sendTraffic tr => exact sendTraffic_acts env clk (Keeps.refl self).routed rfl tr rfl
  | handleLookup peerKey lookup => exact handleLookup_acts env clk self peerKey lookup
  | handleNotify notify => exact handleNotify_acts env clk self notify
  | handleBroken broken => exact handleBroken_acts env clk self broken
  | sendLookup dest =>
    refine sendTraffic_acts (m := .sendLookup dest) env clk (routed_pathfinder self _) ?_
      (TrafficPacket.new self.crypto.publicKey dest []) rfl
    show (self.pathfinder.ensureRumor _ _).paths = _
    rw [Pathfinder.ensureRumor]
    split <;> rfl
  | forceLookup dest => exact doSendLookup_acts env clk (routed_pathfinder self _) dest

theorem retryRumors_acts (dests : List PublicKey) : ∀ self : Router, Routed r self →
    Acts r (Emits r m) (retryRumors env clk dests self) := by
  induction dests with
  | nil => exact fun self hr => Acts.nothing hr
  | cons dest dests ih =>
    intro self hr
    simp only [retryRumors]
    split
    · exact ih self hr
    have hsent := doSendLookup_acts (m := m) env clk (hr.trans (routed_pathfinder self
      (self.pathfinder.markRumorRetry (Blooms.xKey dest self.bloomTransform) clk.now))) dest
    have hrest := ih _ hsent.routed
    refine ⟨hrest.routed, fun a ha => ?_⟩
    rcases mem_append.mp ha with ha | ha
    · exact hsent.actions a ha
    · exact hrest.actions a ha

theorem maintainPaths_acts (self : Router) : Acts self (Emits self m) (maintainPaths env clk self) :=
  retryRumors_acts env clk _ _ (routed_pathfinder self _)

end Acts

end Yggdrasil.Router
