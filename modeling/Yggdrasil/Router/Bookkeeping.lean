import Yggdrasil.Router.Actor
import Yggdrasil.Router.Tables

/-!
# Peer bookkeeping

Four tables of the router are indexed by the keys of its peers: connections, announcements sent, signature requests and
bloom filters. `add_peer`, `send_announces` and the filter maintenance index them without a check.
-/

namespace Yggdrasil.FullRouter
open Option HashMap
open HashMap (SameKeys)
open Router (Routed handlePath_acts maintainPaths_acts)

structure Bookkept (r : FullRouter) : Prop where
  sent : SameKeys r.peers r.sent
  requests : SameKeys r.peers r.requests
  blooms : SameKeys r.peers r.blooms.blooms
  responses : ∀ k res, r.responses.lookup k = some res →
    ∃ req, r.requests.lookup k = some req ∧ req.seq = res.seq ∧ req.nonce = res.nonce
  connected : ∀ k peers, r.peers.lookup k = some peers → peers.keys ≠ []

theorem bookkept_new (crypto : Crypto) (config : FullConfig) (now : Instant) : (new crypto config now).Bookkept where
  sent _ := rfl
  requests _ := rfl
  blooms _ := rfl
  responses k res h := absurd h (by simp [new])
  connected k peers h := absurd h (by simp [new, Router.new])

variable {self r : FullRouter}

theorem addInfo_lookup_isSome (blooms : Blooms) (key k : PublicKey) :
    ((blooms.addInfo key).blooms.lookup k).isSome = ((blooms.blooms.insert key BloomInfo.new).lookup k).isSome := by
  rw [Blooms.addInfo]
  split
  next info hinfo => exact SameKeys.overwrite (by rw [hinfo]; rfl) _ k
  · rfl

/-- The books while a peer is being added. -/
structure Admitted (r : FullRouter) (key : PublicKey) : Prop where
  sent : SameKeys r.peers r.sent
  requests : ∀ k, k ≠ key → (r.peers.lookup k).isSome = (r.requests.lookup k).isSome
  blooms : SameKeys r.peers r.blooms.blooms
  responses : ∀ k res, r.responses.lookup k = some res →
    ∃ req, r.requests.lookup k = some req ∧ req.seq = res.seq ∧ req.nonce = res.nonce
  connected : ∀ k peers, k ≠ key → r.peers.lookup k = some peers → peers.keys ≠ []
  known : (r.peers.lookup key).isSome

theorem keys_insert_ne_nil {K V : Type*} [DecidableEq K] (m : HashMap K V) (k : K) (v : V) :
    (m.insert k v).keys ≠ [] := by
  have hk : k ∈ (m.insert k v).keys := mem_keys_iff.mpr ⟨v, by rw [lookup_insert, if_pos rfl]⟩
  exact List.ne_nil_of_mem hk

theorem Announces.sameKeys {o : Outcome} {selfAnc peerKeys : List PublicKey} (h : Announces self selfAnc peerKeys o) :
    SameKeys self.sent o.router.sent := by
  intro p
  rw [h.sent, isSome_map]

section
variable (h : self.Bookkept)
include h

theorem Bookkept.of_same (hpeers : r.peers = self.peers) (hsent : SameKeys self.sent r.sent)
    (hblooms : SameKeys self.blooms.blooms r.blooms.blooms) (hrequests : r.requests = self.requests)
    (hresponses : r.responses = self.responses) : r.Bookkept where
  sent := hpeers ▸ h.sent.trans hsent
  requests := by
    rw [hpeers, hrequests]
    exact h.requests
  blooms := hpeers ▸ h.blooms.trans hblooms
  responses := by
    rw [hresponses, hrequests]
    exact h.responses
  connected := by
    rw [hpeers]
    exact h.connected

theorem Bookkept.routed {r : Router} (hr : Routed self.toRouter r) : Bookkept { self with toRouter := r } := by
  rw [hr.frame]
  exact h.of_same rfl (SameKeys.refl _) (SameKeys.refl _) rfl rfl

theorem Bookkept.stored (ann : RouterAnnounce) (now : Instant) : (self.stored ann now).Bookkept :=
  h.of_same rfl (SameKeys.mapValues _ _) (SameKeys.refl _) rfl rfl

/-! ## Peers -/

theorem Bookkept.admitKey (entry : PeerEntry) : (self.admitKey entry).Admitted entry.key := by
  rw [FullRouter.admitKey]
  cases hpeers : self.peers.lookup entry.key with
  | some peers => exact ⟨h.sent, fun k _ => h.requests k, h.blooms, h.responses, fun k p _ => h.connected k p, by
      rw [hpeers]; rfl⟩
  | none =>
    refine ⟨h.sent.insert _ _ _, fun k hk => ?_, fun k => ?_, h.responses, fun k p hk hp => ?_, ?_⟩
    · rw [lookup_insert, if_neg hk]
      exact h.requests k
    · rw [addInfo_lookup_isSome]
      exact h.blooms.insert _ _ _ k
    · rw [lookup_insert, if_neg hk] at hp
      exact h.connected k p hp
    rw [lookup_insert, if_pos rfl]
    rfl

theorem Bookkept.addPeer (entry : PeerEntry) (rand : UInt64) :
    ∃ o, self.addPeer entry rand = some o ∧ o.router.Bookkept := by
  have hadmit := h.admitKey entry
  simp only [FullRouter.addPeer]
  generalize self.admitKey entry = r at hadmit ⊢
  obtain ⟨peers, hpeers⟩ := isSome_iff_exists.mp hadmit.known
  simp only [hpeers, ensureRequest]
  have hkeys := SameKeys.overwrite hadmit.known (peers.insert entry.id entry)
  have hconnected : ∀ k p, (r.peers.insert entry.key (peers.insert entry.id entry)).lookup k = some p →
      p.keys ≠ [] := by
    intro k p hp
    rw [lookup_insert] at hp
    split at hp
    · rw [some.injEq] at hp
      exact hp ▸ keys_insert_ne_nil _ _ _
    next hk => exact hadmit.connected k p hk hp
  cases hreq : r.requests.lookup entry.key with
  | some req =>
    simp only [hreq]
    refine ⟨_, rfl, hkeys.symm.trans hadmit.sent, fun k => ?_, hkeys.symm.trans hadmit.blooms, hadmit.responses,
      hconnected⟩
    rw [← hkeys k]
    by_cases hk : k = entry.key
    · rw [hk, hpeers, hreq]
      rfl
    · exact hadmit.requests k hk
  | none =>
    simp only [lookup_insert, if_true]
    refine ⟨_, rfl, hkeys.symm.trans hadmit.sent, fun k => ?_, hkeys.symm.trans hadmit.blooms, fun k res hres => ?_,
      hconnected⟩
    · rw [← hkeys k, lookup_insert]
      split
      next hk => rw [hk, hpeers]; rfl
      next hk => exact hadmit.requests k hk
    obtain ⟨req, hk, hmatch⟩ := hadmit.responses k res hres
    refine ⟨req, ?_, hmatch⟩
    rw [lookup_insert, if_neg, hk]
    rintro rfl
    rw [hreq] at hk
    exact absurd hk (by simp)

theorem Bookkept.removePeer (peerId : PeerId) (key : PublicKey) (port : PeerPort) :
    (self.removePeer peerId key port).router.Bookkept := by
  simp only [FullRouter.removePeer]
  cases hpeers : self.peers.lookup key with
  | none => exact h.of_same rfl (SameKeys.refl _) (SameKeys.refl _) rfl rfl
  | some peers =>
    simp only
    split
    · refine ⟨h.sent.remove _, h.requests.remove _, h.blooms.remove _, fun k res hres => ?_,
        forall_remove h.connected key⟩
      rw [lookup_remove, ite_none_left_eq_some] at hres
      obtain ⟨req, hreq, hmatch⟩ := h.responses k res hres.2
      exact ⟨req, by rw [lookup_remove, if_neg hres.1, hreq], hmatch⟩
    next hleft =>
      have hkeys := SameKeys.modify self.peers key fun _ => peers.remove peerId
      refine ⟨hkeys.symm.trans h.sent, hkeys.symm.trans h.requests, hkeys.symm.trans h.blooms, h.responses,
        fun k p hp => ?_⟩
      rw [lookup_modify, map_eq_some_iff] at hp
      obtain ⟨p', hp', rfl⟩ := hp
      split
      · simpa using hleft
      · exact h.connected k p' hp'

/-! ## Signature protocol and announcements -/

theorem Bookkept.handleResponse (peerId : PeerId) (key : PublicKey) (res : SigRes)
    (rtt : Duration) : (self.handleResponse peerId key res rtt).Bookkept := by
  obtain ⟨lags, rtts, responded, heq | ⟨hmatch, heq⟩⟩ := self.handleResponse_cases peerId key res rtt
  · rw [heq]
    exact h.of_same rfl (SameKeys.refl _) (SameKeys.refl _) rfl rfl
  rw [heq]
  refine ⟨h.sent, h.requests, h.blooms, forall_insert h.responses ?_, h.connected⟩
  simp only [reqMatch, any_eq_true, Bool.and_eq_true, beq_iff_eq] at hmatch
  exact hmatch

theorem Bookkept.handleAnnounce (peerId : PeerId) (peerKey : PublicKey) (ann : RouterAnnounce)
    (now : Instant) : (self.handleAnnounce peerId peerKey ann now).router.Bookkept := by
  have hmark : ∀ r : FullRouter, r.Bookkept → (r.markSent peerKey ann.key).Bookkept := fun r hr =>
    hr.of_same rfl (SameKeys.modify _ _ _) (SameKeys.refl _) rfl rfl
  simp only [FullRouter.handleAnnounce]
  rcases self.update_cases ann now with hupdate | hupdate
  · simp only [hupdate, if_true]
    refine hmark _ ?_
    split
    · exact (h.stored ann now).of_same rfl (SameKeys.refl _) (SameKeys.refl _) rfl rfl
    · exact h.stored ann now
  simp only [hupdate, Bool.false_eq_true, if_false]
  split
  · exact h
  · exact hmark self h

/-! ## Maintenance -/

theorem Bookkept.restarted {o : Outcome} (ho : Restarted self o) : o.router.Bookkept := by
  rw [ho.frame]
  exact ⟨h.sent, ho.requests, h.blooms, fun k res hres => absurd hres (by simp), h.connected⟩

theorem Bookkept.fixed {o : Outcome} (ho : Fixed self o) : o.router.Bookkept := by
  cases ho with
  | flag doRoot1 => exact h.of_same rfl (SameKeys.refl _) (SameKeys.refl _) rfl rfl
  | restarted ho => exact h.restarted ho
  | announced now' _ ho => exact (h.stored _ now').restarted ho

theorem Bookkept.pass {env : Env} {clk : Clock} {o : Outcome} (ho : Pass env clk self o) : o.router.Bookkept := by
  cases ho with
  | @mk r fixed announced bloomed hframe hfix hsent hbloom hblooms _ =>
    have hstart : r.Bookkept := by
      rw [hframe]
      exact h.of_same rfl (SameKeys.refl _) (SameKeys.refl _) rfl rfl
    have hannounced : announced.router.Bookkept := by
      have hkeys := hsent.sameKeys
      rw [hsent.frame]
      exact (hstart.fixed hfix).of_same rfl hkeys (SameKeys.refl _) rfl rfl
    have hbloomed : bloomed.router.Bookkept := by
      rw [hbloom]
      exact hannounced.of_same rfl (SameKeys.refl _) hblooms rfl rfl
    exact hbloomed.routed (maintainPaths_acts (m := .forceLookup 0) env clk _).routed

theorem Bookkept.doMaintenance (env : Env) (clk : Clock) (rand : Nat → UInt64) :
    ∃ o, self.doMaintenance env clk rand = some o ∧ o.router.Bookkept := by
  obtain ⟨o, ho, hpass⟩ := self.doMaintenance_pass env clk rand
  exact ⟨o, ho, h.pass hpass⟩

theorem Bookkept.expire (k : PublicKey) : (self.expire k).Bookkept := by
  rw [FullRouter.expire]
  split
  · exact h.of_same rfl (SameKeys.refl _) (SameKeys.refl _) rfl rfl
  · exact h.of_same rfl (SameKeys.mapValues _ _) (SameKeys.refl _) rfl rfl

theorem Bookkept.forceRefresh (now : Instant) : (self.forceRefresh now).Bookkept :=
  h.of_same rfl (SameKeys.refl _) (SameKeys.refl _) rfl rfl

/-! ## Every message -/

theorem Bookkept.exec (env : Env) (call : Call) : ∃ o, self.exec env call = some o ∧ o.router.Bookkept := by
  obtain ⟨clk, rand, msg⟩ := call
  cases msg with
  | addPeer entry => exact h.addPeer entry _
  | removePeer peerId key port => exact ⟨_, rfl, h.removePeer peerId key port⟩
  | handleRequest peerId peerKey req => exact ⟨_, rfl, h⟩
  | handleResponse peerId key res rtt => exact ⟨_, rfl, h.handleResponse peerId key res rtt⟩
  | handleAnnounce peerId peerKey ann => exact ⟨_, rfl, h.handleAnnounce peerId peerKey ann _⟩
  | handleBloom peerKey filter =>
    exact ⟨_, rfl, h.of_same rfl (SameKeys.refl _) (SameKeys.modify _ _ _) rfl rfl⟩
  | path msg => exact ⟨_, rfl, h.routed (handlePath_acts env clk self.toRouter msg).routed⟩
  | forceRefresh => exact (h.forceRefresh clk.now).doMaintenance env clk rand
  | maintenance wallJump =>
    refine Bookkept.doMaintenance (expireInfos_induct ?_ (fun r k hr => hr.expire k) clk.now) env clk rand
    split
    · exact h.forceRefresh clk.now
    · exact h

theorem Bookkept.execAll (env : Env) (calls : List Call) : ∃ r, self.execAll env calls = some r ∧ r.Bookkept := by
  refine Lts.exists_foldlM (fun r call hr => ?_) calls _ h
  obtain ⟨o, ho, hbook⟩ := hr.exec env call
  exact ⟨o.router, by rw [ho, map_some], hbook⟩

end

/-- **Peer bookkeeping holds in every run.** No message makes the router fail, its four tables have the same keys, each
response belongs to the open request, and each peer has a connection. -/
theorem router_bookkept (env : Env) (crypto : Crypto) (config : FullConfig) (now : Instant) (calls : List Call) :
    ∃ r, (new crypto config now).execAll env calls = some r ∧ r.Bookkept :=
  (bookkept_new crypto config now).execAll env calls

end Yggdrasil.FullRouter
