import Yggdrasil.Router.Effects

/-!
# Keys that the router reports

`PathNotifyCallback` tells the upper layer of a key.
-/

namespace Yggdrasil.Router
open List Pathfinder

/-- Packets that wait for a path are the node's own. -/
def Home (self : Router) : Prop := ∀ t ∈ self.pathfinder.waiting, t.source = self.crypto.publicKey

structure Reports (r : Router) (P : PublicKey → Prop) (o : Outcome) : Prop where
  crypto : o.router.crypto = r.crypto
  peers : o.router.peers = r.peers
  home : Home o.router
  keys : ∀ k, .pathNotifyCallback k ∈ o.actions → k = r.crypto.publicKey ∨ P k

variable {r r' self : Router} {P : PublicKey → Prop} {o : Outcome}

theorem Keeps.home (h : Keeps r r') (hr : Home r) : Home r' := by
  intro t ht
  rw [h.crypto]
  exact hr t (h.waiting.subset ht)

theorem Local.key_eq {k : PublicKey} (hr : Home r) (h : Local r (.pathNotifyCallback k)) : k = r.crypto.publicKey := by
  cases h with
  | answered => rfl
  | released hmem => exact hr _ hmem

theorem Does.reports {Q : RouterAction → Prop} (hd : Does r Q o) (hr : Home r)
    (hQ : ∀ k, Q (.pathNotifyCallback k) → k = r.crypto.publicKey ∨ P k) : Reports r P o :=
  ⟨hd.keeps.crypto, hd.keeps.peers, hd.keeps.home hr, fun k hk => hQ k (hd.actions _ hk)⟩

theorem Reports.of_same (h : Reports r' P o) (hc : r'.crypto = r.crypto) (hp : r'.peers = r.peers) : Reports r P o :=
  ⟨h.crypto.trans hc, h.peers.trans hp, h.home, fun k hk =>
    (h.keys k hk).imp_left fun hkey => hkey.trans (congrArg Crypto.publicKey hc)⟩

theorem Sends.not_callback {m : Message} {k : PublicKey} : ¬ Sends r m (.pathNotifyCallback k) := by
  rintro ⟨id, -, heq⟩
  cases m <;> cases heq

variable (env : Env) (clk : Clock)

section
variable (hr : Home self)
include hr

theorem routeTraffic_reports (tr : TrafficPacket) :
    Reports self (fun k => (self.lookup tr.path tr.watermark).peerId = none ∧ tr.dest = self.crypto.publicKey ∧
      k = tr.source) (routeTraffic env clk self tr) := by
  rw [routeTraffic_eq]
  refine (routeTrafficBody_does env clk (routeTraffic_homing env clk _) tr).reports hr ?_
  rintro k (hsends | ⟨hnone, ⟨hdest, heq⟩ | ⟨r', -, hsends⟩ | hlocal⟩)
  · exact absurd hsends Sends.not_callback
  · exact .inr ⟨hnone, hdest, RouterAction.pathNotifyCallback.inj heq⟩
  · exact absurd hsends Sends.not_callback
  · exact .inl (hlocal.key_eq hr)

theorem routeTraffic_reports_own (tr : TrafficPacket) (hsource : tr.source = self.crypto.publicKey) :
    Reports self (fun _ => False) (routeTraffic env clk self tr) := by
  have h := routeTraffic_reports env clk hr tr
  exact ⟨h.crypto, h.peers, h.home, fun k hk => .inl ((h.keys k hk).elim id fun hk => hk.2.2.trans hsource)⟩

theorem handleNotify_reports (notify : PathNotify) :
    Reports self (fun k => acceptsNotify env clk self notify = true ∧ k = notify.source)
      (handleNotify env clk self notify) := by
  have hdoes : Does self _ (handleNotify env clk self notify) := handleNotifyInternal_does env clk notify
    (fun a => ∀ k, a = .pathNotifyCallback k → k = self.crypto.publicKey) <| by
      intro r c hkeeps hmem _ _
      refine ⟨routeTraffic_keeps env clk r _, ?_⟩
      rintro a ha k rfl
      have hown : c.source = r.crypto.publicKey := (hr c hmem).trans (congrArg Crypto.publicKey hkeeps.crypto).symm
      have hreports := routeTraffic_reports_own env clk (hkeeps.home hr)
        { c with path := notify.info.path, fromPath := self.ownCoords } hown
      exact ((hreports.keys k ha).resolve_right id).trans (congrArg Crypto.publicKey hkeeps.crypto)
  refine hdoes.reports hr ?_
  rintro k (hsends | hreleased | ⟨heq, haccepts⟩)
  · exact absurd hsends Sends.not_callback
  · exact .inl (hreleased k rfl)
  · exact .inr ⟨haccepts, RouterAction.pathNotifyCallback.inj heq⟩

theorem handleBroken_reports (broken : PathBroken) :
    Reports self (fun _ => False) (handleBroken env clk self broken) := by
  refine (handleBrokenInternal_does env clk (routeTraffic_homing env clk _) broken).reports hr ?_
  rintro k (hsends | hlocal)
  · exact absurd hsends Sends.not_callback
  · exact .inl (hlocal.key_eq hr)

theorem handleLookup_reports (peerKey : PublicKey) (lookup : PathLookup) :
    Reports self (fun _ => False) (handleLookup env clk self peerKey lookup) := by
  rw [handleLookup]
  split
  · exact ⟨rfl, rfl, hr, fun k hk => absurd hk not_mem_nil⟩
  refine (handleLookupInternal_does env clk (routeTraffic_homing env clk _) peerKey lookup).reports hr ?_
  rintro k (⟨id, heq⟩ | hlocal | ⟨r', notify, -, -, hsends⟩)
  · exact absurd heq (by simp)
  · exact .inl (hlocal.key_eq hr)
  · exact absurd hsends Sends.not_callback

theorem doSendLookup_reports (dest : PublicKey) :
    Reports self (fun _ => False) (doSendLookup env clk (routeTraffic env clk) self dest) :=
  (doSendLookup_does env clk (routeTraffic_homing env clk _) dest).reports hr fun _ hlocal => .inl (hlocal.key_eq hr)

end

theorem doSendLookup_reports_after {p : Pathfinder} (hp : ∀ t ∈ p.waiting, t.source = self.crypto.publicKey)
    (dest : PublicKey) :
    Reports self (fun _ => False) (doSendLookup env clk (routeTraffic env clk) { self with pathfinder := p } dest) :=
  (doSendLookup_reports env clk (show Home { self with pathfinder := p } from hp) dest).of_same rfl rfl

theorem sendTraffic_reports (hr : Home self) (tr : TrafficPacket) (hsource : tr.source = self.crypto.publicKey) :
    Reports self (fun _ => False) (sendTraffic env clk self tr) := by
  simp only [sendTraffic]
  split
  next id _ =>
    have hcaches := (self.cachedCoords_caches tr.dest).trans (cachedCoords_caches _ self.crypto.publicKey)
    refine ⟨hcaches.crypto, hcaches.peers, hcaches.keeps.home hr, fun k hk => ?_⟩
    exact absurd (mem_singleton.mp hk) (by simp)
  split
  next path _ =>
    have hcaches := self.cachedCoords_caches self.crypto.publicKey
    have hhome := hcaches.keeps.home hr
    generalize (self.cachedCoords self.crypto.publicKey).2 = r at hcaches hhome ⊢
    have hsource' : tr.source = r.crypto.publicKey := hsource.trans (congrArg Crypto.publicKey hcaches.crypto).symm
    refine Reports.of_same (routeTraffic_reports_own env clk ?_ _ hsource') hcaches.crypto hcaches.peers
    intro t ht
    split at ht
    · rcases mem_waiting_cacheTraffic ht with rfl | ht
      · exact hsource'
      · exact hhome t ht
    · exact hhome t ht
  generalize hp : (if tr.keepalive then _ else _ : Pathfinder) = p
  have hcached : ∀ t ∈ p.waiting, t.source = self.crypto.publicKey := by
    intro t ht
    rw [← hp] at ht
    split at ht
    · rcases mem_waiting_cacheRumorTrafficIfAbsent ht with rfl | ht
      · exact hsource
      · exact hr t (by rwa [waiting_ensureRumor] at ht)
    rcases mem_waiting_cacheRumorTraffic ht with rfl | ht
    · exact hsource
    · exact hr t (by rwa [waiting_ensureRumor] at ht)
  split
  · refine doSendLookup_reports_after env clk ?_ tr.dest
    rwa [waiting_markRumorSent]
  · exact ⟨rfl, rfl, hcached, fun k hk => absurd hk not_mem_nil⟩

theorem sendLookup_reports (hr : Home self) (dest : PublicKey) :
    Reports self (fun _ => False) (sendLookup env clk self dest) := by
  have hhome : Home { self with
      pathfinder := self.pathfinder.ensureRumor (Blooms.xKey dest self.bloomTransform) clk.now } := by
    intro t ht
    rw [waiting_ensureRumor] at ht
    exact hr t ht
  exact (sendTraffic_reports env clk hhome (TrafficPacket.new self.crypto.publicKey dest []) rfl).of_same rfl rfl

theorem forceLookup_reports (hr : Home self) (dest : PublicKey) :
    Reports self (fun _ => False) (forceLookup env clk self dest) := by
  refine doSendLookup_reports_after env clk ?_ dest
  intro t ht
  split at ht
  · rw [waiting_modify_rumors] at ht
    · exact hr t ht
    · exact fun _ => rfl
  rw [waiting_ensureRumor] at ht
  exact hr t ht

theorem retryRumors_reports (dests : List PublicKey) :
    ∀ {self : Router}, Home self → Reports self (fun _ => False) (retryRumors env clk dests self) := by
  induction dests with
  | nil => exact fun hr => ⟨rfl, rfl, hr, fun k hk => absurd hk not_mem_nil⟩
  | cons dest dests ih =>
    intro self hr
    simp only [retryRumors]
    split
    · exact ih hr
    have hsent := doSendLookup_reports_after env clk
      (p := self.pathfinder.markRumorRetry (Blooms.xKey dest self.bloomTransform) clk.now)
      (by rwa [waiting_markRumorRetry]) dest
    have hrest := ih hsent.home
    refine ⟨hrest.crypto.trans hsent.crypto, hrest.peers.trans hsent.peers, hrest.home, fun k hk => ?_⟩
    rcases mem_append.mp hk with hk | hk
    · exact hsent.keys k hk
    · exact (hrest.keys k hk).imp_left fun hkey => hkey.trans (congrArg Crypto.publicKey hsent.crypto)

theorem maintainPaths_reports (hr : Home self) : Reports self (fun _ => False) (maintainPaths env clk self) := by
  refine Reports.of_same (retryRumors_reports env clk _ ?_) rfl rfl
  exact fun t ht => hr t (mem_waiting_cleanupExpired clk.now ht)

end Yggdrasil.Router
