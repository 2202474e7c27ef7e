import Yggdrasil.Router.Bookkeeping
import Yggdrasil.Router.Paths

/-!
# The coordinate cache

The coordinates of a node are read through a cache that is filled lazily.
-/

namespace Yggdrasil.FullRouter
open List
open HashMap (SameKeys)
open Router (Routed Acts Emits PathMsg handlePath_acts maintainPaths_acts)

def ownPath (self : FullRouter) : List PeerPort := (self.getRootAndPath self.crypto.publicKey).path

def Current (path : List PeerPort) : RouterAction → Prop
  | .sendTraffic _ tr => tr.fromPath = path
  | .sendPathLookup _ lookup => lookup.fromPath = path
  | .sendPathNotify _ notify => notify.info.path = path
  | _ => True

inductive Forwarded : Msg → RouterAction → Prop
  | traffic (tr : TrafficPacket) (id : PeerId) (w : UInt64) :
      Forwarded (.path (.handleTraffic tr)) (.sendTraffic id { tr with watermark := w })
  | lookup (peerKey : PublicKey) (l : PathLookup) (id : PeerId) :
      Forwarded (.path (.handleLookup peerKey l)) (.sendPathLookup id l)
  | notify (n : PathNotify) (id : PeerId) (w : UInt64) :
      Forwarded (.path (.handleNotify n)) (.sendPathNotify id { n with watermark := w })

/-- A call whose coordinates are current. -/
structure Fresh (r : FullRouter) (msg : Msg) (o : Outcome) : Prop where
  coherent : o.router.Coherent
  actions : ∀ a ∈ o.actions, Forwarded msg a ∨ Current o.router.ownPath a
  signed : o.router.pathfinder.info = r.pathfinder.info ∨ o.router.pathfinder.info.path = o.router.ownPath

variable {self r : FullRouter} {msg : Msg}

theorem coherent_of_empty {r : Router} (h : r.cache = ∅) : r.Coherent := by
  intro k rp hk
  rw [h] at hk
  exact absurd hk (by simp)

theorem coherent_of_same {r r' : Router} (h : r.Coherent) (hcache : r'.cache = r.cache) (hinfos : r'.infos = r.infos) :
    r'.Coherent := by
  intro k rp hk
  rw [hcache] at hk
  rw [Router.getRootAndPath, hinfos]
  exact h k rp hk

variable {o : Outcome} {env : Env}

theorem Fresh.of_control (hcoherent : o.router.Coherent) (hpath : o.router.pathfinder = self.pathfinder)
    (hactions : ∀ a ∈ o.actions, (∃ id req, a = .sendSigReq id req) ∨ (∃ id res, a = .sendSigRes id res) ∨
      (∃ id ann, a = .sendAnnounce id ann) ∨ ∃ id bloom, a = .sendBloom id bloom) : Fresh self msg o where
  coherent := hcoherent
  actions a ha := by
    rcases hactions a ha with ⟨id, req, rfl⟩ | ⟨id, res, rfl⟩ | ⟨id, ann, rfl⟩ | ⟨id, bloom, rfl⟩ <;> exact .inr trivial
  signed := .inl (by rw [hpath])

/-! ## Messages about paths -/

theorem ownCoords_eq {r : Router} (h : r.Coherent) : r.ownCoords = (r.getRootAndPath r.crypto.publicKey).path := by
  rw [Router.ownCoords, h.coordsOf]

theorem signed_rules (c : List PeerPort) (info : OwnPathInfo) :
    Router.PathRules env c (fun _ => True) fun p => p.info = info ∨ p.info.path = c where
  own := trivial
  sign _ _ _ _ := .inr rfl
  markLookupSent _ _ _ h := h
  handleBroken _ _ h := h
  acceptNotify p source xformedSource seq path sig now h _ _ := by
    rw [Pathfinder.acceptNotify]
    split
    · split
      · exact h
      split <;> exact h
    split <;> exact h
  learn p source path now h _ := by
    rw [Pathfinder.learnPathFromTraffic]
    split <;> exact h
  refresh p source path now h := by
    rw [Pathfinder.refreshIfCoordsMatch]
    split <;> exact h
  rumors _ _ h := h
  cacheTraffic _ _ h := h
  cleanupExpired _ _ _ h := h

theorem emits_current {r : Router} {m : PathMsg} {a : RouterAction} (h : Emits r m a) :
    Forwarded (.path m) a ∨ Current r.ownCoords a := by
  cases h with
  | callback k | deliver tr | report tr id w | broken b id w => exact .inr trivial
  | lookup id dest => exact .inr rfl
  | traffic tr id w => exact .inl (Forwarded.traffic tr id w)
  | forward peerKey l id => exact .inl (Forwarded.lookup peerKey l id)
  | answer peerKey id w hanswer => exact .inr hanswer.own
  | notify n id w => exact .inl (Forwarded.notify n id w)
  | released id _ hfrom | sent id _ hfrom _ => exact .inr hfrom

theorem path_fresh (env : Env) (clk : Clock) (h : self.Coherent) (m : PathMsg) :
    Fresh self (.path m) (self.lift (Router.handlePath env clk self.toRouter m)) := by
  have hacts := handlePath_acts env clk self.toRouter m
  have hcoherent := hacts.routed.coherent h
  have hown : (Router.handlePath env clk self.toRouter m).router.ownCoords =
      (self.lift (Router.handlePath env clk self.toRouter m)).router.ownPath := ownCoords_eq hcoherent
  have hsame : self.ownCoords = (Router.handlePath env clk self.toRouter m).router.ownCoords :=
    hacts.routed.ownCoords.symm
  refine ⟨hcoherent, fun a ha => ?_, ?_⟩
  · rw [← hown, ← hsame]
    exact emits_current (hacts.actions a ha)
  rw [← hown, ← hsame]
  refine Router.handlePath_keeps env clk (signed_rules self.ownCoords self.pathfinder.info) m (.inl rfl) ?_
  cases m <;> trivial

/-! ## Maintenance -/

theorem Fixed.actions (h : Fixed self o) : ∀ a ∈ o.actions, ∃ id req, a = .sendSigReq id req := by
  cases h with
  | flag doRoot1 => simp
  | restarted ho | announced now _ ho => exact ho.actions

theorem Fixed.coherent (h : Fixed self o) (hself : self.Coherent) : o.router.Coherent := by
  cases h with
  | flag doRoot1 => exact coherent_of_same hself rfl rfl
  | restarted ho =>
    rw [ho.frame]
    exact coherent_of_same hself rfl rfl
  | announced now _ ho =>
    rw [ho.frame]
    exact coherent_of_empty rfl

theorem Pass.fresh {clk : Clock} (h : Pass env clk self o) : Fresh self msg o := by
  cases h with
  | @mk r fixed announced bloomed hframe hfix hsent hbloom _ hblooms =>
    have hcoherent : bloomed.router.Coherent := by
      rw [hbloom, hsent.frame]
      exact coherent_of_same (hfix.coherent (coherent_of_empty (by rw [hframe]))) rfl rfl
    have hpathfinder : bloomed.router.pathfinder = self.pathfinder := by
      rw [hbloom, hsent.frame]
      exact hfix.pathfinder.trans (by rw [hframe])
    have hacts := maintainPaths_acts (m := .forceLookup 0) env clk bloomed.router.toRouter
    have hcoherent' := hacts.routed.coherent hcoherent
    have hown : bloomed.router.ownCoords = ownPath { bloomed.router with
        toRouter := (Router.maintainPaths env clk bloomed.router.toRouter).router } :=
      hacts.routed.ownCoords.symm.trans (ownCoords_eq hcoherent')
    refine ⟨hcoherent', fun a ha => ?_, ?_⟩
    · simp only [mem_append] at ha
      rcases ha with ((ha | ha) | ha) | ha
      · obtain ⟨id, req, rfl⟩ := hfix.actions a ha
        exact .inr trivial
      · obtain ⟨p, id, -, k, info, -, rfl⟩ := hsent.actions a ha
        exact .inr trivial
      · obtain ⟨id, bloom, rfl⟩ := hblooms a ha
        exact .inr trivial
      refine .inr ?_
      have hcurrent := emits_current (hacts.actions a ha)
      rw [hown] at hcurrent
      refine hcurrent.resolve_left fun hforwarded => ?_
      cases hforwarded
    have hsigned := Router.maintainPaths_keeps env clk (signed_rules bloomed.router.ownCoords self.pathfinder.info)
      (.inl (by rw [hpathfinder]))
    rwa [hown] at hsigned

theorem doMaintenance_fresh {clk : Clock} {rand : Nat → UInt64} (h : self.doMaintenance env clk rand = some o) :
    Fresh self msg o := (pass_of_doMaintenance h).fresh

/-! ## Every call -/

theorem Fresh.of_pathfinder (h : Fresh r msg o) (hpath : r.pathfinder = self.pathfinder) :
    Fresh self msg o := ⟨h.coherent, h.actions, by rw [← hpath]; exact h.signed⟩

section
variable (hself : self.Coherent)
include hself

theorem addPeer_fresh {entry : PeerEntry} {rand : UInt64}
    (h : self.addPeer entry rand = some o) : Fresh self msg o := by
  have hadded := addPeer_added h
  obtain ⟨-, hinfos, hcache, hpathfinder⟩ := hadded.untouched
  refine Fresh.of_control (coherent_of_same hself hcache hinfos) hpathfinder fun a ha => ?_
  rcases hadded.actions a ha with ha | ⟨req, rfl⟩ | ⟨bloom, rfl⟩
  · rw [resend] at ha
    split at ha
    · obtain ⟨ann, -, rfl⟩ := mem_map.mp ha
      exact .inr (.inr (.inl ⟨_, ann, rfl⟩))
    · exact absurd ha not_mem_nil
  · exact .inl ⟨_, req, rfl⟩
  · exact .inr (.inr (.inr ⟨_, bloom, rfl⟩))

theorem removePeer_fresh (peerId : PeerId) (key : PublicKey) (port : PeerPort) :
    Fresh self msg (self.removePeer peerId key port) := by
  simp only [removePeer]
  split
  · exact Fresh.of_control (coherent_of_same hself rfl rfl) rfl (by simp)
  split
  · exact Fresh.of_control (HashMap.forall_remove hself _) rfl (by simp)
  refine Fresh.of_control (coherent_of_same hself rfl rfl) rfl fun a ha => ?_
  obtain ⟨bloom, -, ha⟩ := mem_flatMap.mp ha
  obtain ⟨entry, -, rfl⟩ := mem_map.mp ha
  exact .inr (.inr (.inr ⟨_, bloom, rfl⟩))

theorem handleRequest_fresh (peerId : PeerId) (peerKey : PublicKey) (req : SigReq) :
    Fresh self msg { actions := self.handleRequest peerId peerKey req, router := self } := by
  refine Fresh.of_control hself rfl fun a ha => ?_
  rw [handleRequest] at ha
  split at ha
  · rw [mem_singleton.mp ha]
    exact .inr (.inl ⟨_, _, rfl⟩)
  · exact absurd ha not_mem_nil

theorem handleResponse_fresh (peerId : PeerId) (key : PublicKey) (res : SigRes)
    (rtt : Duration) : Fresh self msg { actions := [], router := self.handleResponse peerId key res rtt } := by
  obtain ⟨lags, rtts, responded, heq | ⟨-, heq⟩⟩ := self.handleResponse_cases peerId key res rtt <;>
  · rw [heq]
    exact Fresh.of_control (coherent_of_same hself rfl rfl) rfl (by simp)

theorem handleAnnounce_fresh (peerId : PeerId) (peerKey : PublicKey) (ann : RouterAnnounce)
    (now : Instant) : Fresh self msg (self.handleAnnounce peerId peerKey ann now) := by
  simp only [handleAnnounce]
  rcases self.update_cases ann now with hupdate | hupdate
  · simp only [hupdate, if_true]
    split <;> exact Fresh.of_control (coherent_of_empty rfl) rfl (by simp)
  simp only [hupdate, Bool.false_eq_true, if_false]
  split
  · exact Fresh.of_control hself rfl (by simp)
  refine Fresh.of_control (coherent_of_same hself rfl rfl) rfl fun a ha => ?_
  split at ha
  · rw [mem_singleton.mp ha]
    exact .inr (.inr (.inl ⟨_, _, rfl⟩))
  · exact absurd ha not_mem_nil

theorem exec_fresh {call : Call} (h : self.exec env call = some o) : Fresh self call.msg o := by
  obtain ⟨clk, rand, msg⟩ := call
  cases msg with
  | addPeer entry => exact addPeer_fresh hself h
  | removePeer peerId key port =>
    cases h
    exact removePeer_fresh hself peerId key port
  | handleRequest peerId peerKey req =>
    cases h
    exact handleRequest_fresh hself peerId peerKey req
  | handleResponse peerId key res rtt =>
    cases h
    exact handleResponse_fresh hself peerId key res rtt
  | handleAnnounce peerId peerKey ann =>
    cases h
    exact handleAnnounce_fresh hself peerId peerKey ann clk.now
  | handleBloom peerKey filter =>
    cases h
    exact Fresh.of_control (coherent_of_same hself rfl rfl) rfl (by simp)
  | path m =>
    cases h
    exact path_fresh env clk hself m
  | forceRefresh => exact (doMaintenance_fresh h).of_pathfinder rfl
  | maintenance wallJump =>
    refine (doMaintenance_fresh h).of_pathfinder ?_
    refine expireInfos_induct (P := fun r => r.pathfinder = self.pathfinder) ?_ (fun r k hr => ?_) clk.now
    · split <;> rfl
    · rw [expire_pathfinder, hr]

end

structure InStep (w : Watched) : Prop where
  book : w.router.Bookkept
  coherent : w.router.Coherent
  fresh : ∀ rec ∈ w.log, Fresh rec.before rec.call.msg rec.outcome

theorem InStep.exec {w : Watched} (h : InStep w) (env : Env) (call : Call) :
    ∃ w', w.exec env call = some w' ∧ InStep w' := by
  obtain ⟨o, hexec, hbook⟩ := h.book.exec env call
  have hfresh := exec_fresh h.coherent hexec
  refine ⟨_, by rw [Watched.exec, hexec, Option.map_some], hbook, hfresh.coherent, fun rec hrec => ?_⟩
  rcases mem_append.mp hrec with hrec | hrec
  · exact h.fresh rec hrec
  rw [mem_singleton.mp hrec]
  exact hfresh

/-- **Coordinates come from the current tree.** Every cached entry is what `get_root_and_path` computes, and the
coordinates in what the node sends or signs are those of the tree after the call. -/
theorem coordinates_current (env : Env) (crypto : Crypto) (config : FullConfig) (now : Instant) (calls : List Call) :
    ∃ w, (Watched.new crypto config now).execAll env calls = some w ∧
      (∀ k rp, w.router.cache.lookup k = some rp → rp = w.router.getRootAndPath k) ∧ ∀ rec ∈ w.log,
        (∀ a ∈ rec.outcome.actions, Forwarded rec.call.msg a ∨ Current rec.outcome.router.ownPath a) ∧
        (rec.outcome.router.pathfinder.info = rec.before.pathfinder.info ∨
          rec.outcome.router.pathfinder.info.path = rec.outcome.router.ownPath) := by
  have hnew : InStep (Watched.new crypto config now) :=
    ⟨bookkept_new crypto config now, coherent_of_empty rfl, by simp [Watched.new]⟩
  obtain ⟨w, hw, h⟩ := Lts.exists_foldlM (fun w call (hw : InStep w) => hw.exec env call) calls _ hnew
  exact ⟨w, hw, h.coherent, fun rec hrec => ⟨(h.fresh rec hrec).actions, (h.fresh rec hrec).signed⟩⟩

end Yggdrasil.FullRouter
