import Yggdrasil.Router.Control
import Yggdrasil.Router.Filters

/-!
# What the control functions leave of the tables

One lemma for each function of `Control` that loops or branches: the fields it changes and the actions it returns.
-/

namespace Yggdrasil
open List Option HashMap
open HashMap (SameKeys)

/-! ## Ancestries -/

/-- `k` is `key` or an ancestor of it, and all infos on the way are known. -/
inductive Ancestor (infos : HashMap PublicKey RouterInfo) (key : PublicKey) : PublicKey → Prop
  | self : (infos.lookup key).isSome → Ancestor infos key key
  | parent {k : PublicKey} {info : RouterInfo} : Ancestor infos key k → infos.lookup k = some info →
      (infos.lookup info.parent).isSome → Ancestor infos key info.parent

theorem Ancestor.isSome {infos : HashMap PublicKey RouterInfo} {key k : PublicKey} (h : Ancestor infos key k) :
    (infos.lookup k).isSome := by
  cases h with
  | self h | parent _ _ h => exact h

structure Walked (infos : HashMap PublicKey RouterInfo) (key here : PublicKey) (anc : List PublicKey) : Prop where
  nodup : anc.Nodup
  ancestors : ∀ k ∈ anc, Ancestor infos key k
  next : anc = [] ∧ here = key ∨ ∃ k ∈ anc, ∃ info, infos.lookup k = some info ∧ here = info.parent
  start : anc ≠ [] → key ∈ anc
  closed : ∀ k ∈ anc, ∀ info, infos.lookup k = some info → info.parent ∈ anc ∨ info.parent = here

theorem Walked.step {infos : HashMap PublicKey RouterInfo} {key here : PublicKey} {anc : List PublicKey}
    {info : RouterInfo} (h : Walked infos key here anc) (hnew : here ∉ anc) (hinfo : infos.lookup here = some info) :
    Walked infos key info.parent (here :: anc) where
  nodup := nodup_cons.mpr ⟨hnew, h.nodup⟩
  ancestors k hk := by
    rcases mem_cons.mp hk with rfl | hk
    · rcases h.next with ⟨-, rfl⟩ | ⟨k', hk', info', hinfo', rfl⟩
      · exact Ancestor.self (by rw [hinfo]; rfl)
      · exact Ancestor.parent (h.ancestors k' hk') hinfo' (by rw [hinfo]; rfl)
    · exact h.ancestors k hk
  next := .inr ⟨here, mem_cons_self, info, hinfo, rfl⟩
  start _ := by
    rcases h.next with ⟨-, rfl⟩ | ⟨k', hk', -⟩
    · exact mem_cons_self
    · exact mem_cons_of_mem _ (h.start (ne_nil_of_mem hk'))
  closed k hk info' hinfo' := by
    rcases mem_cons.mp hk with rfl | hk
    · rw [hinfo, some.injEq] at hinfo'
      exact .inr (hinfo' ▸ rfl)
    rcases h.closed k hk info' hinfo' with hmem | rfl
    · exact .inl (mem_cons_of_mem _ hmem)
    · exact .inl mem_cons_self

theorem Walked.complete {infos : HashMap PublicKey RouterInfo} {key here : PublicKey} {anc : List PublicKey}
    (h : Walked infos key here anc) (hstop : here ∈ anc ∨ infos.lookup here = none) (k : PublicKey) :
    k ∈ anc ↔ Ancestor infos key k := by
  refine ⟨h.ancestors k, fun hk => ?_⟩
  induction hk with
  | self hkey =>
    rcases h.next with ⟨rfl, rfl⟩ | ⟨k', hk', -⟩
    · rcases hstop with hmem | hnone
      · exact hmem
      · simp [hnone] at hkey
    · exact h.start (ne_nil_of_mem hk')
  | @parent k info _ hinfo hsome ih =>
    rcases h.closed k ih info hinfo with hmem | rfl
    · exact hmem
    rcases hstop with hmem | hnone
    · exact hmem
    · simp [hnone] at hsome

theorem mem_ancestryWalk {infos : HashMap PublicKey RouterInfo} {key : PublicKey} (fuel : Nat) :
    ∀ (here : PublicKey) (anc : List PublicKey), Walked infos key here anc → infos.keys.length < fuel + anc.length →
      ∀ k, k ∈ ancestryWalk infos fuel here anc ↔ Ancestor infos key k := by
  induction fuel with
  | zero =>
    intro here anc h hlt
    -- the walk has met each known key at most once
    have hsub : anc ⊆ infos.keys := fun k hk =>
      mem_keys_iff.mpr (isSome_iff_exists.mp (h.ancestors k hk).isSome)
    have := (subperm_of_subset h.nodup hsub).length_le
    omega
  | succ fuel ih =>
    intro here anc h hlt k
    rw [ancestryWalk]
    split
    next hmem => exact h.complete (.inl (contains_iff_mem.mp hmem)) k
    next hnew =>
      rw [contains_iff_mem] at hnew
      cases hinfo : infos.lookup here with
      | none => exact h.complete (.inr hinfo) k
      | some info =>
        refine ih info.parent (here :: anc) (h.step hnew hinfo) ?_ k
        rw [length_cons]
        omega

theorem Router.mem_getAncestry (self : Router) (key k : PublicKey) :
    k ∈ self.getAncestry key ↔ Ancestor self.infos key k := by
  refine mem_ancestryWalk _ key [] ⟨nodup_nil, by simp, .inl ⟨rfl, rfl⟩, by simp, by simp⟩ ?_ k
  omega

namespace FullRouter

/-! ## Tree state -/

def stored (self : FullRouter) (ann : RouterAnnounce) (now : Instant) : FullRouter :=
  { self with
    sent := self.sent.mapValues fun _ sent => sent.erase ann.key
    cache := ∅
    infos := self.infos.insert ann.key ann.info
    infoTimes := self.infoTimes.insert ann.key now }

variable (self : FullRouter)

theorem update_cases (ann : RouterAnnounce) (now : Instant) :
    self.update ann now = (true, self.stored ann now) ∨ self.update ann now = (false, self) := by
  simp only [update, Router.update]
  split
  · exact .inl rfl
  · exact .inr rfl

theorem expire_pathfinder (k : PublicKey) : (self.expire k).pathfinder = self.pathfinder := by
  rw [expire]
  split <;> rfl

theorem expireInfos_induct {P : FullRouter → Prop} {self : FullRouter} (h : P self)
    (hstep : ∀ r k, P r → P (r.expire k)) (now : Instant) : P (self.expireInfos now) := by
  rw [expireInfos]
  generalize (List.map Prod.fst _) = expired
  induction expired generalizing self with
  | nil => exact h
  | cons k expired ih => exact ih (hstep self k h)

/-! ## Peers -/

structure Added (r : FullRouter) (entry : PeerEntry) (o : Outcome) : Prop where
  frame : o.router = { r.admitKey entry with
    peers := o.router.peers, lags := o.router.lags, requests := o.router.requests, responded := o.router.responded }
  peers : ∃ peers, (r.admitKey entry).peers.lookup entry.key = some peers ∧
    o.router.peers = (r.admitKey entry).peers.insert entry.key (peers.insert entry.id entry)
  actions : ∀ a ∈ o.actions,
    a ∈ r.resend entry ∨ (∃ req, a = .sendSigReq entry.id req) ∨ ∃ bloom, a = .sendBloom entry.id bloom

theorem Added.untouched {r : FullRouter} {entry : PeerEntry} {o : Outcome} (h : Added r entry o) :
    o.router.crypto = r.crypto ∧ o.router.infos = r.infos ∧ o.router.cache = r.cache ∧
      o.router.pathfinder = r.pathfinder := by
  rw [h.frame, admitKey]
  split <;> exact ⟨rfl, rfl, rfl, rfl⟩

theorem addPeer_added {self : FullRouter} {entry : PeerEntry} {rand : UInt64} {o : Outcome}
    (h : self.addPeer entry rand = some o) : Added self entry o := by
  simp only [addPeer] at h
  cases hpeers : (self.admitKey entry).peers.lookup entry.key with
  | none => simp [hpeers] at h
  | some peers =>
    simp only [hpeers] at h
    generalize hr : ensureRequest { self.admitKey entry with
      peers := (self.admitKey entry).peers.insert entry.key (peers.insert entry.id entry)
      lags := (self.admitKey entry).lags.insert entry.id UNKNOWN_LATENCY } entry.key rand = r at h
    have hframe : r = { self.admitKey entry with
        peers := (self.admitKey entry).peers.insert entry.key (peers.insert entry.id entry)
        lags := r.lags, requests := r.requests } := by
      rw [← hr, ensureRequest]
      split <;> rfl
    split at h
    · exact absurd h (by simp)
    next req _ =>
      rw [some.injEq] at h
      subst h
      refine ⟨by rw [hframe], ⟨peers, hpeers, by rw [hframe]⟩, fun a ha => ?_⟩
      simp only [List.mem_append, List.mem_singleton, List.mem_map] at ha
      rcases ha with (ha | rfl) | ⟨bloom, -, rfl⟩
      · exact .inl ha
      · exact .inr (.inl ⟨req, rfl⟩)
      · exact .inr (.inr ⟨bloom, rfl⟩)

/-! ## Signature protocol -/

theorem handleResponse_cases (peerId : PeerId) (key : PublicKey) (res : SigRes) (rtt : Duration) :
    ∃ lags rtts responded, self.handleResponse peerId key res rtt = { self with lags, rtts, responded } ∨
      self.reqMatch key res = true ∧ self.handleResponse peerId key res rtt = { self with
          lags, rtts, responded
          resSeqCtr := self.resSeqCtr + 1
          resSeqs := self.resSeqs.insert key (self.resSeqCtr + 1)
          responses := self.responses.insert key res } := by
  obtain ⟨rtts, hrtt⟩ : ∃ rtts, self.recordRtt peerId rtt = { self with rtts } := by
    rw [recordRtt]
    split
    · exact ⟨self.rtts, rfl⟩
    · exact ⟨_, rfl⟩
  have hlag : ∀ (r : FullRouter) (b : Bool), ∃ lags responded,
      r.recordLag peerId rtt b = { r with lags, responded } := by
    intro r b
    rw [recordLag]
    split
    · exact ⟨_, _, rfl⟩
    · exact ⟨r.lags, r.responded, rfl⟩
  simp only [handleResponse, hrtt, storeResponse]
  split
  next hstore =>
    obtain ⟨lags, responded, h⟩ := hlag _ (self.reqMatch key res)
    exact ⟨lags, rtts, responded, .inr ⟨(Bool.and_eq_true _ _ ▸ hstore).2, h⟩⟩
  obtain ⟨lags, responded, h⟩ := hlag _ (self.reqMatch key res)
  exact ⟨lags, rtts, responded, .inl h⟩

structure Requests (r : FullRouter) (peerKeys : List (PublicKey × List PeerId)) (o : Outcome) : Prop where
  frame : o.router = { r with requests := o.router.requests, responded := o.router.responded }
  requests : ∀ k, (o.router.requests.lookup k).isSome = true ↔
    (r.requests.lookup k).isSome = true ∨ k ∈ peerKeys.map Prod.fst
  actions : ∀ a ∈ o.actions, ∃ id req, a = .sendSigReq id req

theorem requestEach_requests (rand : Nat → UInt64) (peerKeys : List (PublicKey × List PeerId)) :
    ∀ self : FullRouter, Requests self peerKeys (requestEach rand peerKeys self) := by
  induction peerKeys with
  | nil => exact fun self => ⟨rfl, by simp [requestEach], by simp [requestEach]⟩
  | cons e peerKeys ih =>
    intro self
    obtain ⟨pk, ids⟩ := e
    simp only [requestEach]
    generalize self.newReq (rand peerKeys.length) = req
    have h := ih { self with requests := self.requests.insert pk req, responded := self.responded \ ids.toFinset }
    refine ⟨by rw [h.frame], fun k => ?_, fun a ha => ?_⟩
    · rw [h.requests, lookup_insert, map_cons, mem_cons]
      split
      next hk => simp [hk]
      next hk => simp [hk]
    rcases mem_append.mp ha with ha | ha
    · obtain ⟨id, -, rfl⟩ := mem_map.mp ha
      exact ⟨id, req, rfl⟩
    · exact h.actions a ha

structure Restarted (r : FullRouter) (o : Outcome) : Prop where
  frame : o.router = { r with
    refresh := false, doRoot1 := false, doRoot2 := false, responses := ∅, resSeqs := ∅, resSeqCtr := 0
    requests := o.router.requests, responded := o.router.responded }
  requests : SameKeys r.peers o.router.requests
  actions : ∀ a ∈ o.actions, ∃ id req, a = .sendSigReq id req

theorem restart_restarted (rand : Nat → UInt64) : Restarted self (self.restart rand) := by
  rw [restart, sendReqs]
  have h := requestEach_requests rand (self.peers.toList.map fun peer => (peer.1, peer.2.keys))
    { self with refresh := false, doRoot1 := false, doRoot2 := false }.clearReqs
  refine ⟨h.frame, fun k => ?_, h.actions⟩
  rw [Bool.eq_iff_iff, h.requests]
  simp only [clearReqs, HashMap.lookup_empty, Option.isSome_none, Bool.false_eq_true, false_or, List.map_map,
    List.mem_map, Function.comp_apply, Prod.exists, Option.isSome_iff_exists]
  constructor
  · rintro ⟨peers, h⟩
    exact ⟨k, peers, HashMap.mem_toList.mpr h, rfl⟩
  rintro ⟨k', peers, hmem, rfl⟩
  exact ⟨peers, HashMap.mem_toList.mp hmem⟩

inductive OwnAnnounce (self : FullRouter) : RouterAnnounce → Prop
  | root (rand : UInt64) : OwnAnnounce self (self.rootAnnounce rand)
  | child {peerKey : PublicKey} {res : SigRes} : self.responses.lookup peerKey = some res →
      OwnAnnounce self (self.childAnnounce peerKey res)

/-- The three outcomes of `fix`. -/
inductive Fixed (self : FullRouter) : Outcome → Prop
  | flag (doRoot1 : Bool) : Fixed self { actions := [], router := { self with doRoot1 } }
  | restarted {o : Outcome} : Restarted self o → Fixed self o
  | announced {o : Outcome} {ann : RouterAnnounce} (now : Instant) : OwnAnnounce self ann →
      Restarted (self.stored ann now) o → Fixed self o

theorem Fixed.pathfinder {self : FullRouter} {o : Outcome} (h : Fixed self o) :
    o.router.pathfinder = self.pathfinder := by
  cases h with
  | flag doRoot1 => rfl
  | restarted ho => rw [ho.frame]
  | announced now _ ho => rw [ho.frame]; rfl

theorem fix_fixed (rand : Nat → UInt64) (now : Instant) : Fixed self (self.fix rand now) := by
  simp only [fix]
  split
  · split
    next r hused =>
      obtain ⟨res, hres, hr⟩ := bind_eq_some_iff.mp hused
      split at hr
      next hadopt =>
        rw [some.injEq] at hr
        subst hr
        rcases self.update_cases (self.childAnnounce self.selectParent.parent res) now with hupdate | hupdate
        · rw [useResponse, hupdate]
          exact Fixed.announced now (OwnAnnounce.child hres) (restart_restarted _ _)
        rw [useResponse, hupdate] at hadopt
        exact absurd hadopt.2 (by simp)
      · exact absurd hr (by simp)
    split
    · rcases self.update_cases (self.rootAnnounce (rand 0)) now with hupdate | hupdate
      · rw [becomeRoot, hupdate]
        exact Fixed.announced now (OwnAnnounce.root (rand 0)) (restart_restarted _ _)
      rw [becomeRoot, hupdate]
      exact Fixed.restarted (restart_restarted _ _)
    split
    · exact Fixed.flag true
    · exact Fixed.flag self.doRoot1
  · exact Fixed.flag self.doRoot1

/-! ## Announcements -/

theorem markUnsent_snd (anc : List PublicKey) :
    ∀ sent : Finset PublicKey, (markUnsent sent anc).2 = sent ∪ anc.toFinset := by
  induction anc with
  | nil => intro sent; simp [markUnsent]
  | cons k anc ih =>
    intro sent
    rw [markUnsent, toFinset_cons]
    split
    next hk => rw [ih, Finset.union_insert, Finset.insert_eq_of_mem (Finset.mem_union_left _ hk)]
    · rw [ih, Finset.insert_union, Finset.union_insert]

theorem mem_markUnsent_fst (anc : List PublicKey) (k : PublicKey) :
    ∀ sent : Finset PublicKey, k ∈ (markUnsent sent anc).1 ↔ k ∈ anc ∧ k ∉ sent := by
  induction anc with
  | nil => intro sent; simp [markUnsent]
  | cons k' anc ih =>
    intro sent
    rw [markUnsent]
    split
    next hk' =>
      grind
    next hk' =>
      grind

theorem mem_announces {r : Router} {keys : List PublicKey} {ann : Announce} :
    ann ∈ r.announces keys ↔ ∃ k ∈ keys, ∃ info, r.infos.lookup k = some info ∧ (info.getAnnounce k).toWire = ann := by
  simp only [Router.announces, mem_filterMap, map_eq_some_iff]

/-- The keys whose infos a peer is told in a pass: the ancestry of the node and that of the peer. -/
def toAnnounce (self : FullRouter) (selfAnc : List PublicKey) (p : PublicKey) : Finset PublicKey :=
  (selfAnc ++ self.getAncestry p).toFinset

structure Announces (r : FullRouter) (selfAnc peerKeys : List PublicKey) (o : Outcome) : Prop where
  frame : o.router = { r with sent := o.router.sent }
  sent : ∀ p, o.router.sent.lookup p =
    (r.sent.lookup p).map fun s => if p ∈ peerKeys then s ∪ r.toAnnounce selfAnc p else s
  told : ∀ p ∈ peerKeys, ∀ s, r.sent.lookup p = some s → ∀ k ∈ r.toAnnounce selfAnc p, k ∉ s →
    ∀ info, r.infos.lookup k = some info → ∀ id ∈ r.connections p,
      .sendAnnounce id (info.getAnnounce k).toWire ∈ o.actions
  actions : ∀ a ∈ o.actions, ∃ p, ∃ id ∈ r.connections p, ∃ k info, r.infos.lookup k = some info ∧
    a = .sendAnnounce id (info.getAnnounce k).toWire

theorem mem_unsent (selfAnc : List PublicKey) (peerKey : PublicKey) (sent : Finset PublicKey)
    (k : PublicKey) : k ∈ (markUnsent sent selfAnc).1 ++
      (markUnsent (markUnsent sent selfAnc).2 (self.getAncestry peerKey)).1 ↔
        k ∈ self.toAnnounce selfAnc peerKey ∧ k ∉ sent := by
  rw [mem_append, mem_markUnsent_fst, mem_markUnsent_fst, markUnsent_snd, toAnnounce, List.mem_toFinset,
    mem_append, Finset.mem_union, List.mem_toFinset]
  tauto

theorem unsent_snd (selfAnc : List PublicKey) (peerKey : PublicKey) (sent : Finset PublicKey) :
    (markUnsent (markUnsent sent selfAnc).2 (self.getAncestry peerKey)).2 = sent ∪ self.toAnnounce selfAnc peerKey := by
  rw [markUnsent_snd, markUnsent_snd, toAnnounce, toFinset_append, Finset.union_assoc]

theorem announceEach_announces (selfAnc peerKeys : List PublicKey) : ∀ self : FullRouter,
    (∀ p ∈ peerKeys, (self.sent.lookup p).isSome) →
    ∃ o, announceEach selfAnc peerKeys self = some o ∧ Announces self selfAnc peerKeys o := by
  induction peerKeys with
  | nil =>
    intro self _
    exact ⟨_, rfl, rfl, by simp, by simp, by simp⟩
  | cons peerKey peerKeys ih =>
    intro self hsome
    obtain ⟨sent, hsent⟩ := isSome_iff_exists.mp (hsome peerKey mem_cons_self)
    obtain ⟨rest, hrest, h⟩ := ih
      { self with sent := self.sent.modify peerKey fun _ => sent ∪ self.toAnnounce selfAnc peerKey } <| by
        intro p hp
        rw [lookup_modify, isSome_map]
        exact hsome p (mem_cons_of_mem _ hp)
    simp only [announceEach, hsent, unsent_snd, hrest]
    refine ⟨_, rfl, by rw [h.frame], fun p => ?_, ?_, ?_⟩
    · rw [h.sent, HashMap.lookup_modify, Option.map_map]
      refine map_congr fun s hs => ?_
      have hto : ∀ sent, toAnnounce { self with sent } selfAnc p = self.toAnnounce selfAnc p := fun _ => rfl
      rw [hto]
      by_cases hp : p = peerKey
      · subst hp
        rw [hsent, some.injEq] at hs
        subst hs
        simp
      · simp [hp]
    · intro p hp s hs k hk hnew info hinfo id hid
      by_cases hpk : p = peerKey
      · subst hpk
        rw [hsent, some.injEq] at hs
        subst hs
        refine mem_append_left _ (mem_flatMap.mpr ⟨id, hid, mem_map.mpr ⟨_, ?_, rfl⟩⟩)
        exact mem_announces.mpr ⟨k, (self.mem_unsent selfAnc p sent k).mpr ⟨hk, hnew⟩, info, hinfo, rfl⟩
      refine mem_append_right _ (h.told p ?_ s ?_ k hk hnew info hinfo id hid)
      · exact (mem_cons.mp hp).resolve_left hpk
      rw [lookup_modify, hs]
      simp [hpk]
    intro a ha
    rcases mem_append.mp ha with ha | ha
    · obtain ⟨id, hid, ha⟩ := mem_flatMap.mp ha
      obtain ⟨ann, hann, rfl⟩ := mem_map.mp ha
      obtain ⟨k, -, info, hinfo, rfl⟩ := mem_announces.mp hann
      exact ⟨peerKey, id, hid, k, info, hinfo, rfl⟩
    · exact h.actions a ha

theorem sendAnnounces_announces : ∃ o, self.sendAnnounces = some o ∧
      Announces self (self.getAncestry self.crypto.publicKey) self.sent.keys o := by
  refine announceEach_announces _ _ self fun p hp => ?_
  exact isSome_iff_exists.mpr (mem_keys_iff.mp hp)

end FullRouter

/-! ## Filters -/

namespace Blooms
variable (env : Env)

theorem doMaintenance_keeps (self : Blooms) (selfKey selfParent : PublicKey) (infos : HashMap PublicKey PublicKey)
    (transform : Option (PublicKey → PublicKey)) :
    ∃ o, self.doMaintenance env selfKey selfParent infos transform = some o ∧ SameKeys self.blooms o.blooms.blooms := by
  have hfixed : SameKeys self.blooms (self.fixOnTree selfKey selfParent infos).blooms.blooms := SameKeys.mapValues _ _
  obtain ⟨o, ho, hadv⟩ := self.doMaintenance_advertised env selfKey selfParent infos transform
  refine ⟨_, ho, hfixed.trans fun k => ?_⟩
  rw [hadv.lookup, isSome_map]

end Blooms

theorem FullRouter.bloomsMaintenance_keeps (env : Env) (self : FullRouter) :
    ∃ o, self.bloomsMaintenance env = some o ∧ o.router = { self with blooms := o.router.blooms } ∧
      SameKeys self.blooms.blooms o.router.blooms.blooms ∧ ∀ a ∈ o.actions, ∃ id bloom, a = .sendBloom id bloom := by
  obtain ⟨found, hfound, hkeys⟩ := self.blooms.doMaintenance_keeps env self.crypto.publicKey self.selfInfoParent
    (self.infos.mapValues fun _ info => info.parent) self.bloomTransform
  simp only [bloomsMaintenance, hfound]
  refine ⟨_, rfl, rfl, hkeys, fun a ha => ?_⟩
  obtain ⟨⟨p, bloom⟩, -, ha⟩ := mem_flatMap.mp ha
  obtain ⟨id, -, rfl⟩ := mem_map.mp ha
  exact ⟨id, bloom, rfl⟩

/-! ## A maintenance pass -/

namespace FullRouter

/-- A maintenance pass, step by step. -/
inductive Pass (env : Env) (clk : Clock) (self : FullRouter) : Outcome → Prop
  | mk {r : FullRouter} {fixed announced bloomed : Outcome} :
      r = { self with
        refresh := r.refresh, lastRefresh := r.lastRefresh, doRoot2 := r.doRoot2, cache := ∅, ancs := r.ancs } →
      Fixed r fixed →
      Announces fixed.router (fixed.router.getAncestry fixed.router.crypto.publicKey) fixed.router.sent.keys announced →
      bloomed.router = { announced.router with blooms := bloomed.router.blooms } →
      SameKeys announced.router.blooms.blooms bloomed.router.blooms.blooms →
      (∀ a ∈ bloomed.actions, ∃ id bloom, a = .sendBloom id bloom) → Pass env clk self
        { actions := fixed.actions ++ announced.actions ++ bloomed.actions ++
            (Router.maintainPaths env clk bloomed.router.toRouter).actions
          router := { bloomed.router with toRouter := (Router.maintainPaths env clk bloomed.router.toRouter).router } }

theorem doMaintenance_pass (env : Env) (self : FullRouter) (clk : Clock) (rand : Nat → UInt64) :
    ∃ o, self.doMaintenance env clk rand = some o ∧ Pass env clk self o := by
  have htimer : self.refreshTimer clk.now = { self with
      refresh := (self.refreshTimer clk.now).refresh, lastRefresh := (self.refreshTimer clk.now).lastRefresh } := by
    rw [refreshTimer]
    split <;> rfl
  simp only [doMaintenance]
  generalize self.refreshTimer clk.now = r at htimer ⊢
  have hfix := fix_fixed (updateAncestries { r with doRoot2 := r.doRoot2 || r.doRoot1, cache := ∅ }) rand clk.now
  generalize (updateAncestries { r with doRoot2 := r.doRoot2 || r.doRoot1, cache := ∅ }).fix rand clk.now = fixed
    at hfix ⊢
  obtain ⟨announced, hannounced, hsent⟩ := fixed.router.sendAnnounces_announces
  obtain ⟨bloomed, hbloomed, hframe, hkeys, hblooms⟩ := announced.router.bloomsMaintenance_keeps env
  simp only [hannounced, hbloomed]
  refine ⟨_, rfl, Pass.mk ?_ hfix hsent hframe hkeys hblooms⟩
  rw [htimer]
  rfl

theorem pass_of_doMaintenance {env : Env} {self : FullRouter} {clk : Clock} {rand : Nat → UInt64} {o : Outcome}
    (h : self.doMaintenance env clk rand = some o) : Pass env clk self o := by
  obtain ⟨o', ho', hpass⟩ := self.doMaintenance_pass env clk rand
  rw [h, some.injEq] at ho'
  exact ho' ▸ hpass

end FullRouter

end Yggdrasil
