import Yggdrasil.Router.PathCache

/-!
# What a node does with a lookup

The lookups that a node sends on and the notifies that it sends, each as a list.
-/

namespace Yggdrasil
open List

namespace RouterAction

def lookup? : RouterAction → Option (PeerId × PathLookup)
  | sendPathLookup id lookup => some (id, lookup)
  | _ => none

def notify? : RouterAction → Option (PeerId × PathNotify)
  | sendPathNotify id notify => some (id, notify)
  | _ => none

def Quiet (a : RouterAction) : Prop := a.lookup? = none ∧ a.notify? = none

end RouterAction

namespace Router

def Outcome.lookups (o : Outcome) : List (PeerId × PathLookup) := o.actions.filterMap RouterAction.lookup?

def Outcome.notifies (o : Outcome) : List (PeerId × PathNotify) := o.actions.filterMap RouterAction.notify?

/-! ## Next hops -/

section Routed
variable {r r' : Router}

theorem Routed.dist (h : Routed r r') (path : List PeerPort) (key : PublicKey) :
    r'.dist path key = r.dist path key := by
  simp only [Router.dist, h.coords, h.infos, h.crypto]

theorem Routed.lookup_peerId (h : Routed r r') (path : List PeerPort) (watermark : UInt64) :
    (r'.lookup path watermark).peerId = (r.lookup path watermark).peerId := by
  have hpeers : r'.peers = r.peers := by rw [h.frame]
  have hcost : ∀ id, r'.getCost id = r.getCost id := fun id => by rw [getCost, getCost, h.frame]
  have hconsider : r'.consider path = r.consider path := by
    funext best p
    simp only [consider, h.dist, hcost]
  simp only [Router.lookup_peerId, bestFor, candidates, h.dist, h.crypto, hpeers, hconsider]

end Routed

/-! ## Answers -/

section Cycle
variable (env : Env) (clk : Clock) {self : Router}

theorem handleNotifyInternal_quiet (hfiled : self.pathfinder.Filed) {notify : PathNotify}
    (hsource : notify.source = self.crypto.publicKey) (hown : notify.info.path = self.ownCoords)
    (hnone : (self.lookup notify.path notify.watermark).peerId = none) :
    ∀ a ∈ (handleNotifyInternal env clk (routeTraffic env clk) self notify).actions, a.Quiet := by
  have hdoes : Does self _ (handleNotifyInternal env clk (routeTraffic env clk) self notify) :=
    handleNotifyInternal_does env clk notify RouterAction.Quiet <| by
      -- the packet it releases is for the node
      intro r c hkeeps _ hdest _
      refine ⟨routeTraffic_keeps env clk r _, fun a ha => ?_⟩
      have hhome : (r.lookup notify.info.path c.watermark).peerId = none := by
        rw [hown, ← hkeeps.ownCoords]
        exact lookup_coordsOf_self r c.watermark
      have hkey : c.dest = r.crypto.publicKey :=
        (hdest hfiled).trans (hsource.trans (congrArg Crypto.publicKey hkeeps.crypto).symm)
      have hactions : (routeTraffic env clk r { c with path := notify.info.path, fromPath := self.ownCoords }).actions =
          [.pathNotifyCallback c.source, .deliverTraffic _] := routeTraffic_of_here env clk hhome hkey
      rw [hactions] at ha
      rcases mem_cons.mp ha with rfl | ha
      · exact ⟨rfl, rfl⟩
      rw [mem_singleton.mp ha]
      exact ⟨rfl, rfl⟩
  intro a ha
  rcases hdoes.actions a ha with ⟨id, hid, -⟩ | hquiet | ⟨rfl, -⟩
  · exact absurd (hnone.symm.trans hid) (by simp)
  · exact hquiet
  · exact ⟨rfl, rfl⟩

theorem handleNotifyInternal_made (hfiled : self.pathfinder.Filed) {notify : PathNotify}
    (hsource : notify.source = self.crypto.publicKey) (hown : notify.info.path = self.ownCoords) :
    (handleNotifyInternal env clk (routeTraffic env clk) self notify).lookups = [] ∧
      (handleNotifyInternal env clk (routeTraffic env clk) self notify).notifies =
        ((self.lookup notify.path notify.watermark).peerId.map fun id =>
          (id, { notify with watermark := self.dist notify.path self.crypto.publicKey })).toList := by
  cases hid : (self.lookup notify.path notify.watermark).peerId with
  | none =>
    have hquiet := handleNotifyInternal_quiet env clk hfiled hsource hown hid
    constructor
    · exact filterMap_eq_nil_iff.mpr fun a ha => (hquiet a ha).1
    · exact filterMap_eq_nil_iff.mpr fun a ha => (hquiet a ha).2
  | some id =>
    have hactions : (handleNotifyInternal env clk (routeTraffic env clk) self notify).actions =
        [.sendPathNotify id { notify with watermark := self.dist notify.path self.crypto.publicKey }] := by
      simp only [handleNotifyInternal, hid, (lookup_watermark hid).1]
    rw [Outcome.lookups, Outcome.notifies, hactions]
    exact ⟨rfl, rfl⟩

def Matches (self : Router) (dest : PublicKey) : Prop :=
  Blooms.xKey dest self.bloomTransform = Blooms.xKey self.crypto.publicKey self.bloomTransform

instance (self : Router) (dest : PublicKey) : Decidable (self.Matches dest) := inferInstanceAs (Decidable (_ = _))

/-- The connections over which a lookup for `dest` that came from `fromKey` goes on. -/
def multicast (self : Router) (fromKey dest : PublicKey) : List PeerId :=
  (self.blooms.getMulticastTargets env fromKey dest self.bloomTransform).filterMap self.bestPeerForKey

theorem Routed.multicast {r r' : Router} (h : Routed r r') (fromKey dest : PublicKey) :
    r'.multicast env fromKey dest = r.multicast env fromKey dest := by
  have hbest : r'.bestPeerForKey = r.bestPeerForKey := by
    funext key
    rw [bestPeerForKey, bestPeerForKey, h.frame]
  rw [Router.multicast, Router.multicast, hbest, h.frame]

theorem filterMap_multicastActions (self : Router) (fromKey : PublicKey) (lookup : PathLookup) :
    (self.multicastActions env fromKey lookup).filterMap RouterAction.lookup? =
        (self.multicast env fromKey lookup.dest).map (·, lookup) ∧
      (self.multicastActions env fromKey lookup).filterMap RouterAction.notify? = [] := by
  constructor
  · rw [multicastActions, multicast, filterMap_filterMap, map_filterMap]
    refine filterMap_congr fun key _ => ?_
    cases self.bestPeerForKey key <;> rfl
  rw [filterMap_eq_nil_iff]
  intro a ha
  obtain ⟨key, -, hkey⟩ := mem_filterMap.mp ha
  obtain ⟨id, -, rfl⟩ := Option.map_eq_some_iff.mp hkey
  rfl

/-- The notifies that answer a lookup with `info`: one, if there is a next hop for the coordinates of the lookup. -/
def answers (self : Router) (lookup : PathLookup) (info : OwnPathInfo) : List (PeerId × PathNotify) :=
  ((self.lookup lookup.fromPath u64Max).peerId.map fun id =>
    (id, { self.answerTo lookup info with watermark := self.dist lookup.fromPath self.crypto.publicKey })).toList

theorem handleLookupInternal_spec (hfiled : self.pathfinder.Filed) (fromKey : PublicKey) (lookup : PathLookup) :
    (handleLookupInternal env clk (routeTraffic env clk) self fromKey lookup).lookups =
        (self.multicast env fromKey lookup.dest).map (·, lookup) ∧
      ∃ info : OwnPathInfo, info.path = self.ownCoords ∧
        (handleLookupInternal env clk (routeTraffic env clk) self fromKey lookup).notifies =
          if self.Matches lookup.dest then self.answers lookup info else [] := by
  obtain ⟨r, info, hr, hpath, heq⟩ := handleLookupInternal_eq env clk fromKey lookup
  obtain ⟨hlookups, hnotifies⟩ := self.filterMap_multicastActions env fromKey lookup
  rw [heq]
  split
  next hmatches =>
    have hrouted : Routed self { r with pathfinder := { r.pathfinder with info } } :=
      hr.keeps.routed.trans (routed_pathfinder r _)
    have hfiled' : (Router.pathfinder { r with pathfinder := { r.pathfinder with info } }).Filed :=
      (hr.pathfinder ▸ hfiled : r.pathfinder.Filed)
    generalize ({ r with pathfinder := { r.pathfinder with info } } : Router) = r' at hrouted hfiled' ⊢
    have hsource : (self.answerTo lookup info).source = r'.crypto.publicKey :=
      (congrArg Crypto.publicKey hrouted.crypto).symm
    obtain ⟨hquiet, hmade⟩ := handleNotifyInternal_made env clk hfiled' hsource (hpath.trans hrouted.ownCoords.symm)
    refine ⟨?_, info, hpath, ?_⟩
    · rw [Outcome.lookups, filterMap_append, hlookups]
      exact (congrArg _ hquiet).trans (append_nil _)
    rw [Outcome.notifies, filterMap_append, hnotifies, nil_append,
      if_pos (show self.Matches lookup.dest from hmatches)]
    refine hmade.trans ?_
    rw [hrouted.lookup_peerId, hrouted.dist, hrouted.crypto]
    rfl
  next hmatches =>
    refine ⟨hlookups, { seq := 0, path := self.ownCoords, sig := 0 }, rfl, ?_⟩
    rw [if_neg (show ¬ self.Matches lookup.dest from hmatches)]
    exact hnotifies

def ownLookup (self : Router) (dest : PublicKey) : PathLookup :=
  { source := self.crypto.publicKey, dest, fromPath := self.ownCoords }

theorem doSendLookup_spec (hfiled : self.pathfinder.Filed) {dest : PublicKey}
    (hthrottle : self.pathfinder.shouldThrottleLookup dest self.pathThrottle clk.now = false) :
    (doSendLookup env clk (routeTraffic env clk) self dest).lookups =
        (self.multicast env self.crypto.publicKey dest).map (·, self.ownLookup dest) ∧
      (doSendLookup env clk (routeTraffic env clk) self dest).notifies = [] := by
  have hmarked := hfiled.exec (.markLookupSent dest clk.now) (by simp)
  have hrouted := routed_pathfinder self (self.pathfinder.markLookupSent dest clk.now)
  have hcoords := cachedCoords_caches { self with pathfinder := self.pathfinder.markLookupSent dest clk.now }
    self.crypto.publicKey
  have hown : (cachedCoords { self with pathfinder := self.pathfinder.markLookupSent dest clk.now }
      self.crypto.publicKey).1 = self.ownCoords := by
    rw [cachedCoords_fst]
    exact hrouted.ownCoords
  simp only [doSendLookup, hthrottle, Bool.false_eq_true, if_false, hown]
  generalize (cachedCoords { self with pathfinder := self.pathfinder.markLookupSent dest clk.now }
    self.crypto.publicKey).2 = r at hcoords ⊢
  have hfiled' : r.pathfinder.Filed := hcoords.pathfinder ▸ hmarked
  have hr := hrouted.trans hcoords.keeps.routed
  obtain ⟨hlookups, info, -, hnotifies⟩ := handleLookupInternal_spec env clk hfiled' self.crypto.publicKey
    (self.ownLookup dest)
  refine ⟨hlookups.trans ?_, hnotifies.trans ?_⟩
  · rw [hr.multicast]
    rfl
  have hnone : (r.lookup (self.ownLookup dest).fromPath u64Max).peerId = none := by
    show (r.lookup self.ownCoords u64Max).peerId = none
    rw [← hr.ownCoords]
    exact lookup_coordsOf_self r u64Max
  rw [answers, hnone]
  exact ite_self _

end Cycle

end Router

end Yggdrasil
