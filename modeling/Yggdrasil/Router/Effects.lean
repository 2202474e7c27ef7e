import Yggdrasil.Router.Traffic

/-!
# What a call does

For each function of `Traffic`, the router it leaves and the actions it returns.
-/

namespace Yggdrasil.Router
open List Pathfinder

structure Keeps (r r' : Router) : Prop where
  frame : r' = { r with cache := r'.cache, pathfinder := r'.pathfinder }
  coords : ∀ k, r'.coordsOf k = r.coordsOf k
  waiting : r'.pathfinder.waiting.Subperm r.pathfinder.waiting

section Keeps
variable {r r' r'' : Router}

theorem Keeps.refl (r : Router) : Keeps r r := ⟨rfl, fun _ => rfl, List.Subperm.refl _⟩

theorem Keeps.trans (h : Keeps r r') (h' : Keeps r' r'') : Keeps r r'' where
  frame := by rw [h'.frame, h.frame]
  coords k := (h'.coords k).trans (h.coords k)
  waiting := h'.waiting.trans h.waiting

theorem Keeps.crypto (h : Keeps r r') : r'.crypto = r.crypto := by rw [h.frame]

theorem Keeps.peers (h : Keeps r r') : r'.peers = r.peers := by rw [h.frame]

theorem Keeps.pending (h : Keeps r r') : r'.pending ≤ r.pending := h.waiting.length_le

theorem Caches.keeps (h : Caches r r') : Keeps r r' where
  frame := by rw [h.frame]
  coords := h.coords
  waiting := by rw [h.frame]

theorem keeps_pathfinder {p : Pathfinder} (h : p.waiting.Subperm r.pathfinder.waiting) :
    Keeps r { r with pathfinder := p } := ⟨rfl, fun _ => rfl, h⟩

end Keeps

def ownCoords (self : Router) : List PeerPort := (self.coordsOf self.crypto.publicKey).path

variable {r r' self : Router} {a : RouterAction} {P : RouterAction → Prop}

theorem Keeps.ownCoords (h : Keeps r r') : r'.ownCoords = r.ownCoords := by
  rw [Router.ownCoords, Router.ownCoords, h.crypto, h.coords]

inductive Local (self : Router) : RouterAction → Prop
  | lookup (id : PeerId) (dest : PublicKey) :
      Local self (.sendPathLookup id { source := self.crypto.publicKey, dest, fromPath := self.ownCoords })
  | answered : Local self (.pathNotifyCallback self.crypto.publicKey)
  | released {c : TrafficPacket} : c ∈ self.pathfinder.waiting → Local self (.pathNotifyCallback c.source)
  | delivered (traffic : TrafficPacket) : Local self (.deliverTraffic traffic)

theorem Keeps.local (h : Keeps r r') (ha : Local r' a) : Local r a := by
  cases ha with
  | lookup id dest =>
    rw [h.crypto, h.ownCoords]
    exact Local.lookup id dest
  | answered => exact h.crypto ▸ Local.answered
  | released hmem => exact Local.released (h.waiting.subset hmem)
  | delivered traffic => exact Local.delivered traffic

/-- A call that keeps the router and acts as `P`. -/
structure Does (r : Router) (P : RouterAction → Prop) (o : Outcome) : Prop where
  keeps : Keeps r o.router
  actions : ∀ a ∈ o.actions, P a

theorem Does.nothing (h : Keeps self r) :
    Does self P { actions := [], router := r } := ⟨h, fun _ ha => absurd ha not_mem_nil⟩

theorem Does.single (h : Keeps self r) (ha : P a) :
    Does self P { actions := [a], router := r } := ⟨h, fun _ hb => mem_singleton.mp hb ▸ ha⟩

theorem Does.after {Q : RouterAction → Prop} {o : Outcome} (h : Keeps r r') (hd : Does r' P o)
    (hPQ : ∀ a, P a → Q a) : Does r Q o := ⟨h.trans hd.keeps, fun a ha => hPQ a (hd.actions a ha)⟩

def AtHome (self : Router) (tr : TrafficPacket) (a : RouterAction) : Prop :=
  a = .pathNotifyCallback tr.source ∨ Local self a

def Homing (route : Router → TrafficPacket → Outcome) (n : Nat) : Prop :=
  ∀ r t, r.pending < n → t.path = r.ownCoords → t.fromPath = r.ownCoords → Does r (AtHome r t) (route r t)

theorem Homing.mono {route : Router → TrafficPacket → Outcome} {m n : Nat} (h : Homing route n) (hle : m ≤ n) :
    Homing route m :=
  fun r t hlt => h r t (hlt.trans_le hle)

/-- The messages that are routed along coordinates, with a watermark. -/
inductive Message where
  | traffic (traffic : TrafficPacket)
  | notify (notify : PathNotify)
  | broken (broken : PathBroken)
deriving DecidableEq

namespace Message

def path : Message → List PeerPort
  | traffic t => t.path
  | notify n => n.path
  | broken b => b.path

def watermark : Message → UInt64
  | traffic t => t.watermark
  | notify n => n.watermark
  | broken b => b.watermark

def withWatermark (w : UInt64) : Message → Message
  | traffic t => traffic { t with watermark := w }
  | notify n => notify { n with watermark := w }
  | broken b => broken { b with watermark := w }

def send (id : PeerId) : Message → RouterAction
  | traffic t => .sendTraffic id t
  | notify n => .sendPathNotify id n
  | broken b => .sendPathBroken id b

end Message

def Sends (self : Router) (m : Message) (a : RouterAction) : Prop :=
  ∃ id, (self.lookup m.path m.watermark).peerId = some id ∧
    a = (m.withWatermark (self.lookup m.path m.watermark).watermark).send id

theorem Sends.path_ne {m : Message} (h : Sends self m a) : m.path ≠ self.ownCoords := by
  intro hpath
  obtain ⟨id, hid, -⟩ := h
  rw [hpath, ownCoords, lookup_coordsOf_self] at hid
  exact absurd hid (by simp)

section Cycle
variable (env : Env) (clk : Clock) {route : Router → TrafficPacket → Outcome} {self : Router}

theorem released_does {r : Router} {pf : Pathfinder} {c : TrafficPacket} {Q : RouterAction → Prop}
    (path : List PeerPort)
    (hr : Keeps self r) (hperm : (c :: pf.waiting).Perm r.pathfinder.waiting)
    (hroute : ∀ r, Keeps self r → c ∈ self.pathfinder.waiting → r.pending < self.pending →
      Does r Q (route r { c with path := path, fromPath := self.ownCoords })) :
    let found := cachedCoords { r with pathfinder := pf } r.crypto.publicKey
    Does self Q (route found.2 { c with path := path, fromPath := found.1 }) := by
  intro found
  have hrest : Keeps r { r with pathfinder := pf } :=
    keeps_pathfinder ((sublist_cons_self c _).subperm.trans hperm.subperm)
  have hcoords := cachedCoords_caches { r with pathfinder := pf } r.crypto.publicKey
  have hkeeps := (hr.trans hrest).trans hcoords.keeps
  have hown : found.1 = self.ownCoords := by
    rw [cachedCoords_fst]
    exact (hr.trans hrest).ownCoords
  have hlt : found.2.pending < self.pending := by
    have hlen := hperm.length_eq
    rw [length_cons] at hlen
    have hle : r.pathfinder.waiting.length ≤ self.pending := hr.pending
    rw [hcoords.pending]
    show pf.waiting.length < self.pending
    omega
  have hmem : c ∈ self.pathfinder.waiting := hr.waiting.subset (hperm.subset mem_cons_self)
  have hdoes := hroute _ hkeeps hmem hlt
  rw [← hown] at hdoes
  exact hdoes.after hkeeps fun _ ha => ha

theorem handleNotifyInternal_does (notify : PathNotify) (Q : RouterAction → Prop)
    (hroute : ∀ r c, Keeps self r → c ∈ self.pathfinder.waiting → (self.pathfinder.Filed → c.dest = notify.source) →
      r.pending < self.pending → Does r Q (route r { c with path := notify.info.path, fromPath := self.ownCoords })) :
    Does self (fun a => Sends self (.notify notify) a ∨ Q a ∨ a = .pathNotifyCallback notify.source ∧
      acceptsNotify env clk self notify = true) (handleNotifyInternal env clk route self notify) := by
  have hfound := (self.lookup_caches notify.path notify.watermark).keeps
  have hpathfinder := (self.lookup_caches notify.path notify.watermark).pathfinder
  simp only [handleNotifyInternal]
  cases hid : (self.lookup notify.path notify.watermark).peerId with
  | some id => exact Does.single hfound (.inl ⟨id, hid, rfl⟩)
  | none =>
    simp only
    generalize hr : (self.lookup notify.path notify.watermark).router = r at hfound hpathfinder ⊢
    split
    · exact Does.nothing hfound
    split
    · exact Does.nothing hfound
    next hdest hverify =>
      have hperm := r.pathfinder.waiting_acceptNotify notify.source (Blooms.xKey notify.source r.bloomTransform)
        notify.info.seq notify.info.path clk.now
      generalize haccept : r.pathfinder.acceptNotify notify.source (Blooms.xKey notify.source r.bloomTransform)
        notify.info.seq notify.info.path clk.now = accept at hperm ⊢
      have hrest : Keeps r { r with pathfinder := accept.2.2 } :=
        keeps_pathfinder ((sublist_append_right _ _).subperm.trans hperm.subperm)
      have haccepts : accept.1 = true → acceptsNotify env clk self notify = true := by
        intro haccepted
        simp only [acceptsNotify, hid, hr, haccept, haccepted]
        simp_all
      -- whatever the released packet does, the callback comes after it
      have hcallback : ∀ o, Does self Q o → Does self (fun a => Sends self (.notify notify) a ∨ Q a ∨
          a = .pathNotifyCallback notify.source ∧ acceptsNotify env clk self notify = true)
          { o with actions := o.actions ++ if accept.1 then [.pathNotifyCallback notify.source] else [] } := by
        intro o ho
        refine ⟨ho.keeps, fun a ha => ?_⟩
        rcases mem_append.mp ha with ha | ha
        · exact .inr (.inl (ho.actions a ha))
        split at ha
        next haccepted => exact .inr (.inr ⟨mem_singleton.mp ha, haccepts haccepted⟩)
        · exact absurd ha not_mem_nil
      apply hcallback
      cases htraffic : accept.2.1 with
      | none => exact Does.nothing (hfound.trans hrest)
      | some c =>
        rw [htraffic, Option.toList_some, singleton_append] at hperm
        refine released_does notify.info.path hfound hperm fun r' hr' hmem => hroute r' c hr' hmem fun hfiled => ?_
        exact hfiled.acceptNotify_dest clk.now (by rw [← hpathfinder, haccept]; exact htraffic)

theorem handleNotifyInternal_own (notify : PathNotify) (ih : Homing route self.pending)
    (hpath : notify.info.path = self.ownCoords) (hsource : notify.source = self.crypto.publicKey) :
    Does self (fun a => Sends self (.notify notify) a ∨ Local self a)
      (handleNotifyInternal env clk route self notify) := by
  have hdoes : Does self (fun a => Sends self (.notify notify) a ∨ Local self a ∨
    a = .pathNotifyCallback notify.source ∧
      acceptsNotify env clk self notify = true) (handleNotifyInternal env clk route self notify) := by
    refine handleNotifyInternal_does env clk notify (Local self) fun r c hkeeps hmem _ hlt => ?_
    refine (ih r _ hlt (hpath.trans hkeeps.ownCoords.symm) hkeeps.ownCoords.symm).after (Keeps.refl r) fun a ha => ?_
    rcases ha with rfl | hlocal
    · show Local self (.pathNotifyCallback c.source)
      exact Local.released hmem
    · exact hkeeps.local hlocal
  refine hdoes.after (Keeps.refl self) fun a ha => ?_
  rcases ha with hsends | hlocal | ⟨rfl, -⟩
  · exact .inl hsends
  · exact .inr hlocal
  · exact .inr (hsource ▸ Local.answered)

structure Answers (r : Router) (lookup : PathLookup) (notify : PathNotify) : Prop where
  path : notify.path = lookup.fromPath
  watermark : notify.watermark = u64Max
  source : notify.source = r.crypto.publicKey
  dest : notify.dest = lookup.source
  own : notify.info.path = r.ownCoords

def multicastActions (self : Router) (fromKey : PublicKey) (lookup : PathLookup) : List RouterAction :=
  (self.blooms.getMulticastTargets env fromKey lookup.dest self.bloomTransform).filterMap fun key =>
    (self.bestPeerForKey key).map fun peerId => RouterAction.sendPathLookup peerId lookup

def answerTo (self : Router) (lookup : PathLookup) (info : OwnPathInfo) : PathNotify :=
  { path := lookup.fromPath, watermark := u64Max, source := self.crypto.publicKey, dest := lookup.source
    info := { seq := info.seq, path := info.path, sig := info.sig } }

theorem answerTo_answers (self : Router) (lookup : PathLookup) {info : OwnPathInfo} (h : info.path = self.ownCoords) :
    Answers self lookup (self.answerTo lookup info) := ⟨rfl, rfl, rfl, rfl, h⟩

theorem handleLookupInternal_eq (fromKey : PublicKey) (lookup : PathLookup) :
    ∃ r info, Caches self r ∧ info.path = self.ownCoords ∧ handleLookupInternal env clk route self fromKey lookup =
        if Blooms.xKey lookup.dest self.bloomTransform = Blooms.xKey self.crypto.publicKey self.bloomTransform then
          let answer := handleNotifyInternal env clk route { r with pathfinder := { r.pathfinder with info } }
            (self.answerTo lookup info)
          { answer with actions := self.multicastActions env fromKey lookup ++ answer.actions }
        else { actions := self.multicastActions env fromKey lookup, router := self } := by
  have hcoords := self.cachedCoords_caches self.crypto.publicKey
  have hown : (self.cachedCoords self.crypto.publicKey).1 = self.ownCoords := cachedCoords_fst self _
  refine ⟨(self.cachedCoords self.crypto.publicKey).2, ?info, hcoords, ?path, ?eq⟩
  case eq =>
    simp only [handleLookupInternal, hcoords.crypto]
    rfl
  case path =>
    split
    · exact hown
    next heq =>
      rw [Bool.not_eq_true', Bool.not_eq_false, OwnPathInfo.contentEqual, Bool.and_eq_true, beq_iff_eq,
        beq_iff_eq] at heq
      exact heq.2.trans hown

section
variable (ih : Homing route self.pending)
include ih

theorem handleLookupInternal_does (fromKey : PublicKey) (lookup : PathLookup) :
    Does self (fun a => (∃ id, a = .sendPathLookup id lookup) ∨ Local self a ∨
      ∃ r notify, Keeps self r ∧ Answers self lookup notify ∧ Sends r (.notify notify) a)
      (handleLookupInternal env clk route self fromKey lookup) := by
  have hmulticast : ∀ a ∈ self.multicastActions env fromKey lookup, ∃ id, a = .sendPathLookup id lookup := by
    intro a ha
    obtain ⟨key, -, hkey⟩ := mem_filterMap.mp ha
    obtain ⟨id, -, rfl⟩ := Option.map_eq_some_iff.mp hkey
    exact ⟨id, rfl⟩
  obtain ⟨r, info, hr, hpath, heq⟩ := handleLookupInternal_eq env clk fromKey lookup
  rw [heq]
  split
  · have hkeeps : Keeps self { r with pathfinder := { r.pathfinder with info := info } } :=
      hr.keeps.trans (keeps_pathfinder (List.Subperm.refl _))
    have hanswer := handleNotifyInternal_own env clk (self.answerTo lookup info) (ih.mono hkeeps.pending)
      (hpath.trans hkeeps.ownCoords.symm) (congrArg Crypto.publicKey hr.crypto).symm
    refine ⟨hkeeps.trans hanswer.keeps, fun a ha => ?_⟩
    rcases mem_append.mp ha with ha | ha
    · exact .inl (hmulticast a ha)
    rcases hanswer.actions a ha with hsends | hlocal
    · exact .inr (.inr ⟨_, _, hkeeps, self.answerTo_answers lookup hpath, hsends⟩)
    · exact .inr (.inl (hkeeps.local hlocal))
  · exact ⟨Keeps.refl self, fun a ha => .inl (hmulticast a ha)⟩

theorem doSendLookup_does (dest : PublicKey) : Does self (Local self) (doSendLookup env clk route self dest) := by
  simp only [doSendLookup]
  split
  · exact Does.nothing (Keeps.refl self)
  have hmark : Keeps self { self with pathfinder := self.pathfinder.markLookupSent dest clk.now } :=
    keeps_pathfinder (by rw [waiting_markLookupSent])
  have hcoords := cachedCoords_caches { self with pathfinder := self.pathfinder.markLookupSent dest clk.now }
    self.crypto.publicKey
  have hkeeps := hmark.trans hcoords.keeps
  refine (handleLookupInternal_does env clk (ih.mono hkeeps.pending) _ _).after hkeeps ?_
  rintro a (⟨id, rfl⟩ | hlocal | ⟨r, notify, hr, hnotify, hsends⟩)
  · rw [cachedCoords_fst]
    exact hmark.local (Local.lookup id dest)
  · exact hkeeps.local hlocal
  refine absurd ?_ hsends.path_ne
  show notify.path = r.ownCoords
  rw [hnotify.path, cachedCoords_fst]
  exact (hcoords.keeps.trans hr).ownCoords.symm

theorem handleBrokenInternal_does (broken : PathBroken) :
    Does self (fun a => Sends self (.broken broken) a ∨ Local self a)
      (handleBrokenInternal env clk route self broken) := by
  have hfound := (self.lookup_caches broken.path broken.watermark).keeps
  simp only [handleBrokenInternal]
  cases hid : (self.lookup broken.path broken.watermark).peerId with
  | some id => exact Does.single hfound (.inl ⟨id, hid, rfl⟩)
  | none =>
    simp only
    generalize (self.lookup broken.path broken.watermark).router = r at hfound ⊢
    have hkeeps : Keeps self { r with pathfinder := r.pathfinder.handleBroken broken.dest } :=
      hfound.trans (keeps_pathfinder (by rw [waiting_handleBroken]))
    split
    · exact Does.nothing hfound
    split
    · refine (doSendLookup_does env clk (ih.mono hkeeps.pending) _).after hkeeps fun a ha => ?_
      exact .inr (hkeeps.local ha)
    · exact Does.nothing hkeeps

theorem routeTrafficBody_does (tr : TrafficPacket) :
    Does self (fun a => Sends self (.traffic tr) a ∨ (self.lookup tr.path tr.watermark).peerId = none ∧
        (tr.dest = self.crypto.publicKey ∧ a = .pathNotifyCallback tr.source ∨ (∃ r, Keeps self r ∧ Sends r (.broken
            { path := tr.fromPath, watermark := u64Max, source := tr.source, dest := tr.dest }) a) ∨ Local self a))
      (routeTrafficBody env clk route self tr) := by
  have hfound := (self.lookup_caches tr.path tr.watermark).keeps
  simp only [routeTrafficBody]
  cases hid : (self.lookup tr.path tr.watermark).peerId with
  | some id => exact Does.single hfound (.inl ⟨id, hid, rfl⟩)
  | none =>
    simp only
    generalize (self.lookup tr.path tr.watermark).router = r at hfound ⊢
    split
    next hdest =>
      refine ⟨hfound.trans (keeps_pathfinder ?_), fun a ha => ?_⟩
      · rw [waiting_refreshIfCoordsMatch, waiting_learnPathFromTraffic]
      rcases mem_cons.mp ha with rfl | ha
      · exact .inr ⟨trivial, .inl ⟨hdest.trans (congrArg Crypto.publicKey hfound.crypto), rfl⟩⟩
      rw [mem_singleton.mp ha]
      exact .inr ⟨trivial, .inr (.inr (Local.delivered tr))⟩
    refine (handleBrokenInternal_does env clk (ih.mono hfound.pending) _).after hfound ?_
    rintro a (hsends | hlocal)
    · exact .inr ⟨trivial, .inr (.inl ⟨r, hfound, hsends⟩)⟩
    · exact .inr ⟨trivial, .inr (.inr (hfound.local hlocal))⟩

end

end Cycle

theorem routeTraffic_homing (env : Env) (clk : Clock) (n : Nat) : Homing (routeTraffic env clk) n := by
  induction n with
  | zero => exact fun r t hlt => absurd hlt (Nat.not_lt_zero _)
  | succ n ih =>
    intro r t hlt hpath hfrom
    have hle : r.pending ≤ n := Nat.lt_succ_iff.mp hlt
    rw [routeTraffic_eq]
    refine (routeTrafficBody_does env clk (ih.mono hle) t).after (Keeps.refl r) ?_
    rintro a (hsends | ⟨-, ⟨-, rfl⟩ | ⟨r', hr', hsends⟩ | hlocal⟩)
    · exact absurd hpath hsends.path_ne
    · exact .inl rfl
    · exact absurd (hfrom.trans hr'.ownCoords.symm) hsends.path_ne
    · exact .inr hlocal

theorem routeTraffic_keeps (env : Env) (clk : Clock) (self : Router) (tr : TrafficPacket) :
    Keeps self (routeTraffic env clk self tr).router := by
  rw [routeTraffic_eq]
  exact (routeTrafficBody_does env clk (routeTraffic_homing env clk _) tr).keeps

end Yggdrasil.Router
