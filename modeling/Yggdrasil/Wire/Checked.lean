import Yggdrasil.Router.Coherence
import Yggdrasil.Wire.Frames

/-!
# What the router stores has been checked

Messages reach the router through the checks of the reader, `Vetted`. From them the router builds what it sends: stored
announcements and its own, signature responses, and paths made of the ports in the tree.
-/

namespace Yggdrasil
open HashMap Pathfinder Option

def Pathfinder.AllPorted (p : Pathfinder) : Prop := ∀ k info, p.paths.lookup k = some info → Ported info.path

abbrev Crypto.Signs (crypto : Crypto) (env : Env) : Prop :=
  ∀ message, env.verify crypto.publicKey message (crypto.sign message) = true

namespace FullRouter
open Router (PathMsg Emits handlePath_acts maintainPaths_acts)

/-- All that the router stores has been checked. -/
structure Checked (env : Env) (r : FullRouter) : Prop where
  infos : ∀ k info, r.infos.lookup k = some info → (info.getAnnounce k).check env = true
  responses : ∀ k res, r.responses.lookup k = some res → checkSigRes env res r.crypto.publicKey k = true
  peers : ∀ k peers id entry, r.peers.lookup k = some peers → peers.lookup id = some entry →
    entry.id = id ∧ entry.key = k ∧ entry.port ≠ 0
  paths : r.pathfinder.AllPorted
  coherent : r.Coherent

/-- What an honest peer accepts from a node with the key `ourKey`. A signature response answers a request of the peer it
is sent to. -/
def Credible (env : Env) (ourKey : PublicKey) (msg : Msg) : RouterAction → Prop
  | .sendSigRes id res => ∃ peerKey req, msg = .handleRequest id peerKey req ∧ checkSigRes env res peerKey ourKey = true
  | .sendAnnounce _ ann => (RouterAnnounce.fromWire ann).check env = true
  | .sendTraffic _ tr => Ported tr.path ∧ Ported tr.fromPath
  | .sendPathLookup _ lookup => Ported lookup.fromPath
  | .sendPathNotify _ notify => Ported notify.path ∧ Ported notify.info.path
  | .sendPathBroken _ broken => Ported broken.path
  | _ => True

variable {env : Env} {self r : FullRouter} {msg : Msg}

theorem checked_new (env : Env) (crypto : Crypto) (config : FullConfig) (now : Instant) :
    Checked env (new crypto config now) where
  infos k info h := absurd h (by simp [new, Router.new])
  responses k res h := absurd h (by simp [new])
  peers k peers id entry h := absurd h (by simp [new, Router.new])
  paths k info h := absurd h (by simp [new, Router.new, Pathfinder.new])
  coherent := coherent_of_empty rfl

/-! ## Ports of the tree -/

variable {ann : RouterAnnounce} {o : Outcome}

theorem port_ne_zero (h : ann.check env = true) (hne : ann.key ≠ ann.parent) : ann.port ≠ 0 := by
  intro h0
  rw [RouterAnnounce.check, if_pos ⟨h0, hne⟩] at h
  cases h

theorem rootWalk_ported {infos : HashMap PublicKey RouterInfo}
    (hinfos : ∀ k info, infos.lookup k = some info → (info.getAnnounce k).check env = true) (fuel : Nat) :
    ∀ (next : PublicKey) (visited : List PublicKey) (ports : List PeerPort) {rp : RouterPath}, Ported ports →
      rootWalk infos fuel next visited ports = some rp → Ported rp.path := by
  induction fuel with
  | zero => exact fun _ _ _ _ _ h => absurd h (by simp [rootWalk])
  | succ fuel ih =>
    intro next visited ports rp hports h
    rw [rootWalk] at h
    split at h
    · cases h
    split at h
    next info hinfo =>
      split at h
      · cases h
        exact hports
      next hne =>
        refine ih _ _ _ (fun port hport => ?_) h
        rcases List.mem_cons.mp hport with rfl | hport
        · exact port_ne_zero (hinfos next info hinfo) hne
        · exact hports port hport
    · cases h

theorem ported_nil : Ported [] := fun _ h => absurd h List.not_mem_nil

theorem Checked.coordsOf (h : Checked env self) (k : PublicKey) : Ported (self.coordsOf k).path := by
  rw [h.coherent.coordsOf, Router.getRootAndPath]
  cases hwalk : rootWalk self.infos (self.infos.keys.length + 1) k [] [] with
  | none => exact ported_nil
  | some rp => exact rootWalk_ported h.infos _ _ _ _ ported_nil hwalk

theorem Checked.getPath (h : Checked env self) {dest : PublicKey} {path : List PeerPort}
    (hpath : self.pathfinder.getPath dest = some path) : Ported path := by
  rw [Pathfinder.getPath, map_eq_some_iff] at hpath
  obtain ⟨info, hinfo, rfl⟩ := hpath
  exact h.paths dest info (eq_some_of_filter_eq_some hinfo)

/-! ## Messages about paths -/

theorem ported_rules {c : List PeerPort} (hc : Ported c) : Router.PathRules env c Ported Pathfinder.AllPorted where
  own := hc
  sign _ _ _ h := h
  markLookupSent p dest now h := forall_modify h fun info hinfo => h dest info hinfo
  handleBroken p dest h := forall_modify h fun info hinfo => h dest info hinfo
  acceptNotify p source xformedSource seq path sig now h hpath _ := by
    rw [acceptNotify]
    split
    · split
      · exact h
      split
      · exact h
      · exact forall_modify h fun _ _ => hpath
    split
    · exact h
    · exact forall_insert h hpath
  learn p source path now h hpath := by
    rw [learnPathFromTraffic]
    split
    · exact h
    · exact forall_insert h hpath
  refresh p source path now h := by
    rw [refreshIfCoordsMatch]
    split
    · refine forall_modify h fun info hinfo => ?_
      split <;> exact h source info hinfo
    · exact h
  rumors _ _ h := h
  cacheTraffic p tr h := forall_modify h fun info hinfo => h tr.dest info hinfo
  cleanupExpired p timeout now h := forall_retain h _

theorem emits_credible (h : Checked env self) {m : PathMsg} {a : RouterAction}
    (hm : Vetted env self.crypto.publicKey (.path m)) (ha : Emits self.toRouter m a) :
    Credible env self.crypto.publicKey msg a := by
  have hown : Ported self.ownCoords := h.coordsOf self.crypto.publicKey
  cases ha with
  | callback k | deliver tr => trivial
  | lookup id dest => exact hown
  | traffic tr id w | broken b id w | forward peerKey l id | notify n id w => exact hm
  | report tr id w => exact hm.2
  | answer peerKey id w hanswer => exact ⟨hanswer.path ▸ hm, hanswer.own ▸ hown⟩
  | released id hpath hfrom => exact ⟨hpath ▸ hm.2, hfrom ▸ hown⟩
  | sent id hpacket hfrom hpath =>
    refine ⟨?_, hfrom ▸ hown⟩
    rcases hpath with hpath | hpath
    · exact hpath ▸ h.coordsOf _
    · exact h.getPath hpath

/-! ## Tables -/

theorem Checked.of_same (h : Checked env self) (hcrypto : r.crypto = self.crypto) (hinfos : r.infos = self.infos)
    (hresponses : r.responses = self.responses) (hpeers : r.peers = self.peers)
    (hpath : r.pathfinder = self.pathfinder) (hcoherent : r.Coherent) : Checked env r where
  infos := hinfos ▸ h.infos
  responses := by
    rw [hresponses, hcrypto]
    exact h.responses
  peers := hpeers ▸ h.peers
  paths := hpath ▸ h.paths
  coherent := hcoherent

theorem Checked.routed (h : Checked env self) {r : Router} (hr : Router.Routed self.toRouter r)
    (hpaths : r.pathfinder.AllPorted) : Checked env { self with toRouter := r } where
  infos := hr.infos ▸ h.infos
  responses := hr.crypto ▸ h.responses
  peers := by
    rw [hr.frame]
    exact h.peers
  paths := hpaths
  coherent := hr.coherent h.coherent

theorem Checked.stored (h : Checked env self) (hann : ann.check env = true) (now : Instant) :
    Checked env (self.stored ann now) where
  infos := forall_insert h.infos hann
  responses := h.responses
  peers := h.peers
  paths := h.paths
  coherent := coherent_of_empty rfl

theorem OwnAnnounce.check (h : OwnAnnounce self ann) (hself : Checked env self) (hsign : self.crypto.Signs env) :
    ann.check env = true := by
  cases h with
  | root rand =>
    rw [RouterAnnounce.check, if_neg fun hport => hport.2 rfl, Bool.and_eq_true]
    exact ⟨hsign _, hsign _⟩
  | child hres =>
    have hcheck := hself.responses _ _ hres
    rw [checkSigRes] at hcheck
    split at hcheck
    · cases hcheck
    next hport =>
      rw [RouterAnnounce.check, if_neg (by exact hport), Bool.and_eq_true]
      exact ⟨hsign _, hcheck⟩

theorem Checked.restarted (h : Checked env self) (ho : Restarted self o) : Checked env o.router := by
  rw [ho.frame]
  exact ⟨h.infos, fun k res hres => absurd hres (by simp), h.peers, h.paths, coherent_of_same h.coherent rfl rfl⟩

theorem Checked.fixed (h : Checked env self) (ho : Fixed self o) (hsign : self.crypto.Signs env) :
    Checked env o.router ∧ o.router.crypto = self.crypto := by
  cases ho with
  | flag doRoot1 => exact ⟨h.of_same rfl rfl rfl rfl rfl (coherent_of_same h.coherent rfl rfl), rfl⟩
  | restarted ho => exact ⟨h.restarted ho, by rw [ho.frame]⟩
  | announced now hann ho => exact ⟨(h.stored (hann.check h hsign) now).restarted ho, by rw [ho.frame]; rfl⟩

/-! ## Every call -/

structure Upright (env : Env) (r : FullRouter) (msg : Msg) (o : Outcome) : Prop where
  checked : Checked env o.router
  crypto : o.router.crypto = r.crypto
  actions : ∀ a ∈ o.actions, Credible env r.crypto.publicKey msg a

section
variable (h : Checked env self)
include h

theorem Checked.announce {a : RouterAction} {id : PeerId} {k : PublicKey} {info : RouterInfo}
    (hinfo : self.infos.lookup k = some info) (ha : a = .sendAnnounce id (info.getAnnounce k).toWire) :
    Credible env self.crypto.publicKey msg a := by
  rw [ha]
  exact h.infos k info hinfo

theorem Checked.pass {clk : Clock} (ho : Pass env clk self o) (hsign : self.crypto.Signs env) :
    Upright env self msg o := by
  cases ho with
  | @mk r fixed announced bloomed hframe hfix hsent hbloom _ hblooms =>
    have hcrypto : r.crypto = self.crypto := by rw [hframe]
    have hstart : Checked env r := by
      rw [hframe]
      exact h.of_same rfl rfl rfl rfl rfl (coherent_of_empty rfl)
    obtain ⟨hfixed, hcrypto'⟩ := hstart.fixed hfix (hcrypto ▸ hsign)
    have hbloomed : Checked env bloomed.router := by
      rw [hbloom, hsent.frame]
      exact hfixed.of_same rfl rfl rfl rfl rfl (coherent_of_same hfixed.coherent rfl rfl)
    have hkey : bloomed.router.crypto = self.crypto := by
      rw [hbloom, hsent.frame]
      exact hcrypto'.trans hcrypto
    have hacts := maintainPaths_acts (m := .forceLookup 0) env clk bloomed.router.toRouter
    have hpaths := Router.maintainPaths_keeps env clk (ported_rules (hbloomed.coordsOf _)) hbloomed.paths
    refine ⟨hbloomed.routed hacts.routed hpaths, hacts.routed.crypto.trans hkey, fun a ha => ?_⟩
    simp only [List.mem_append] at ha
    rcases ha with ((ha | ha) | ha) | ha
    · obtain ⟨id, req, rfl⟩ := hfix.actions a ha
      trivial
    · obtain ⟨p, id, -, k, info, hinfo, ha⟩ := hsent.actions a ha
      rw [← hcrypto, ← hcrypto']
      exact hfixed.announce hinfo ha
    · obtain ⟨id, bloom, rfl⟩ := hblooms a ha
      trivial
    rw [← hkey]
    exact emits_credible (m := .forceLookup 0) hbloomed trivial (hacts.actions a ha)

theorem Checked.expire (k : PublicKey) : Checked env (self.expire k) := by
  rw [FullRouter.expire]
  split
  · exact h.of_same rfl rfl rfl rfl rfl (coherent_of_same h.coherent rfl rfl)
  · exact ⟨forall_remove h.infos k, h.responses, h.peers, h.paths, coherent_of_empty rfl⟩

theorem Checked.forceRefresh (now : Instant) : Checked env (self.forceRefresh now) :=
  h.of_same rfl rfl rfl rfl rfl (coherent_of_same h.coherent rfl rfl)

theorem Checked.addPeer {entry : PeerEntry} {rand : UInt64} (hport : entry.port ≠ 0)
    (ho : self.addPeer entry rand = some o) : Upright env self msg o := by
  have hadded := addPeer_added ho
  have hchecked : Checked env (self.admitKey entry) := by
    rw [admitKey]
    split
    · exact h
    refine ⟨h.infos, h.responses, fun k peers id e hpeers he => ?_, h.paths, coherent_of_same h.coherent rfl rfl⟩
    simp only [lookup_insert] at hpeers
    split at hpeers
    · rw [Option.some.injEq] at hpeers
      rw [← hpeers] at he
      exact absurd he (by simp)
    · exact h.peers k peers id e hpeers he
  obtain ⟨peers, hpeers, hadd⟩ := hadded.peers
  refine ⟨?_, hadded.untouched.1, fun a ha => ?_⟩
  · rw [hadded.frame]
    refine ⟨hchecked.infos, hchecked.responses, fun k ps id e hps he => ?_, hchecked.paths,
      coherent_of_same hchecked.coherent rfl rfl⟩
    simp only [hadd, lookup_insert] at hps
    split at hps
    next hk =>
      rw [Option.some.injEq] at hps
      rw [← hps, lookup_insert] at he
      split at he
      next hid =>
        rw [Option.some.injEq] at he
        subst hk hid he
        exact ⟨rfl, rfl, hport⟩
      · exact hk ▸ hchecked.peers entry.key peers id e hpeers he
    · exact hchecked.peers k ps id e hps he
  rcases hadded.actions a ha with ha | ⟨req, rfl⟩ | ⟨bloom, rfl⟩
  · rw [resend] at ha
    split at ha
    · obtain ⟨ann, hann, rfl⟩ := List.mem_map.mp ha
      obtain ⟨k, -, info, hinfo, rfl⟩ := mem_announces.mp hann
      exact h.announce hinfo rfl
    · exact absurd ha List.not_mem_nil
  · trivial
  · trivial

theorem Checked.removePeer (peerId : PeerId) (key : PublicKey) (port : PeerPort) :
    Upright env self msg (self.removePeer peerId key port) := by
  have hcoherent : ∀ k rp, (self.cache.remove key).lookup k = some rp → rp = self.getRootAndPath k :=
    forall_remove h.coherent key
  simp only [FullRouter.removePeer]
  split
  · exact ⟨h.of_same rfl rfl rfl rfl rfl (coherent_of_same h.coherent rfl rfl), rfl, by simp⟩
  next peers hpeers =>
    split
    · refine ⟨⟨h.infos, forall_remove h.responses key, fun k ps id e hps he => ?_, h.paths, hcoherent⟩, rfl, by simp⟩
      rw [lookup_remove, ite_none_left_eq_some] at hps
      exact h.peers k ps id e hps.2 he
    refine ⟨⟨h.infos, h.responses, fun k ps id e hps he => ?_, h.paths, coherent_of_same h.coherent rfl rfl⟩, rfl,
      fun a ha => ?_⟩
    · simp only [lookup_modify, map_eq_some_iff] at hps
      obtain ⟨ps', hps', rfl⟩ := hps
      split at he
      next hk =>
        rw [lookup_remove, ite_none_left_eq_some] at he
        exact hk ▸ h.peers key peers id e hpeers he.2
      · exact h.peers k ps' id e hps' he
    obtain ⟨bloom, -, ha⟩ := List.mem_flatMap.mp ha
    obtain ⟨entry, -, rfl⟩ := List.mem_map.mp ha
    trivial

theorem Checked.handleRequest (peerId : PeerId) (peerKey : PublicKey) (req : SigReq) (hsign : self.crypto.Signs env) :
    ∀ a ∈ self.handleRequest peerId peerKey req,
      Credible env self.crypto.publicKey (.handleRequest peerId peerKey req) a := by
  intro a ha
  rw [FullRouter.handleRequest] at ha
  split at ha
  next entry hentry =>
    obtain ⟨peers, hpeers, hlookup⟩ := bind_eq_some_iff.mp hentry
    obtain ⟨hid, hkey, hport⟩ := h.peers peerKey peers peerId entry hpeers hlookup
    rw [List.mem_singleton.mp ha, handleRequestWithData, hid, hkey]
    refine ⟨peerKey, req, rfl, ?_⟩
    rw [checkSigRes, if_neg fun hzero => hport hzero.1]
    exact hsign _
  · exact absurd ha List.not_mem_nil

theorem Checked.handleAnnounce (peerId : PeerId) (peerKey : PublicKey) (hann : ann.check env = true) (now : Instant) :
    Upright env self msg (self.handleAnnounce peerId peerKey ann now) := by
  have hmark : ∀ r : FullRouter, Checked env r → Checked env (r.markSent peerKey ann.key) := fun r hr =>
    hr.of_same rfl rfl rfl rfl rfl (coherent_of_same hr.coherent rfl rfl)
  have hstored := h.stored hann now
  simp only [FullRouter.handleAnnounce]
  rcases self.update_cases ann now with hupdate | hupdate
  · simp only [hupdate, if_true]
    split
    · exact ⟨hmark _ (hstored.of_same rfl rfl rfl rfl rfl (coherent_of_same hstored.coherent rfl rfl)), rfl, by simp⟩
    · exact ⟨hmark _ hstored, rfl, by simp⟩
  simp only [hupdate, Bool.false_eq_true, if_false]
  split
  · exact ⟨h, rfl, by simp⟩
  next info hinfo =>
    refine ⟨hmark self h, rfl, fun a ha => ?_⟩
    split at ha
    · exact h.announce hinfo (List.mem_singleton.mp ha)
    · exact absurd ha List.not_mem_nil

theorem exec_checked {call : Call} (hsign : self.crypto.Signs env)
    (hmsg : Vetted env self.crypto.publicKey call.msg) (ho : self.exec env call = some o) :
    Upright env self call.msg o := by
  obtain ⟨clk, rand, msg⟩ := call
  cases msg with
  | addPeer entry => exact h.addPeer hmsg ho
  | removePeer peerId key port =>
    cases ho
    exact h.removePeer peerId key port
  | handleRequest peerId peerKey req =>
    cases ho
    exact ⟨h, rfl, h.handleRequest peerId peerKey req hsign⟩
  | handleResponse peerId key res rtt =>
    cases ho
    obtain ⟨lags, rtts, responded, heq | ⟨-, heq⟩⟩ := self.handleResponse_cases peerId key res rtt
    · refine ⟨?_, by rw [heq], by simp⟩
      rw [heq]
      exact h.of_same rfl rfl rfl rfl rfl (coherent_of_same h.coherent rfl rfl)
    refine ⟨?_, by rw [heq], by simp⟩
    rw [heq]
    exact ⟨h.infos, forall_insert h.responses hmsg, h.peers, h.paths, coherent_of_same h.coherent rfl rfl⟩
  | handleAnnounce peerId peerKey ann =>
    cases ho
    exact h.handleAnnounce peerId peerKey hmsg clk.now
  | handleBloom peerKey filter =>
    cases ho
    exact ⟨h.of_same rfl rfl rfl rfl rfl (coherent_of_same h.coherent rfl rfl), rfl, by simp⟩
  | path m =>
    cases ho
    have hacts := handlePath_acts env clk self.toRouter m
    have hmeets : m.Meets Ported := by
      cases m with
      | handleTraffic tr | handleNotify notify => exact hmsg.2
      | _ => trivial
    have hpaths := Router.handlePath_keeps env clk (ported_rules (h.coordsOf _)) m h.paths hmeets
    exact ⟨h.routed hacts.routed hpaths, hacts.routed.crypto, fun a ha => emits_credible h hmsg (hacts.actions a ha)⟩
  | forceRefresh =>
    have hpass : Upright env _ .forceRefresh o := (h.forceRefresh clk.now).pass (pass_of_doMaintenance ho) hsign
    exact ⟨hpass.checked, hpass.crypto, hpass.actions⟩
  | maintenance wallJump =>
    have hstart : Checked env (if wallJump then self.forceRefresh clk.now else self) ∧
        (if wallJump then self.forceRefresh clk.now else self).crypto = self.crypto := by
      split
      · exact ⟨h.forceRefresh clk.now, rfl⟩
      · exact ⟨h, rfl⟩
    obtain ⟨hexpired, hcrypto⟩ := expireInfos_induct (P := fun r => Checked env r ∧ r.crypto = self.crypto) hstart
      (fun r k hr => ⟨hr.1.expire k, by rw [FullRouter.expire]; split <;> exact hr.2⟩) clk.now
    have hpass : Upright env _ (.maintenance wallJump) o :=
      hexpired.pass (pass_of_doMaintenance ho) (hcrypto ▸ hsign)
    exact ⟨hpass.checked, hpass.crypto.trans hcrypto, hcrypto ▸ hpass.actions⟩

end

end FullRouter

end Yggdrasil
