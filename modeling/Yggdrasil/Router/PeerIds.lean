import Yggdrasil.Router.Adoption
import Yggdrasil.Router.NextHop

/-!
# The tables of the connections

Latencies, round-trip times and the set of answered requests are indexed by connection ids. `remove_peer` clears them
for its connection; `handle_response` writes them without asking whether the connection is still there, and a response
may come after the writer has reported the end of the connection.
-/

namespace Yggdrasil.FullRouter
open Finset HashMap
variable {self r r' r'' : FullRouter} {env : Env} {id peerId : PeerId} {key : PublicKey} {res : SigRes} {rtt : Duration}
  {calls : List Call}

def Step (env : Env) (r : FullRouter) (call : Call) (r' : FullRouter) : Prop :=
  (r.exec env call).map Outcome.router = some r'

def Registered (self : FullRouter) (id : PeerId) : Prop :=
  ∃ k conns, self.peers.lookup k = some conns ∧ (conns.lookup id).isSome

theorem registered_iff : self.Registered id ↔ ∃ k, (self.peers.lookup₂ k id).isSome := by
  simp only [Registered, lookup₂, Option.isSome_iff_exists, Option.bind_eq_some_iff]
  constructor
  · rintro ⟨k, conns, hconns, p, hp⟩
    exact ⟨k, p, conns, hconns, hp⟩
  rintro ⟨k, p, conns, hconns, hp⟩
  exact ⟨k, conns, hconns, p, hp⟩

def Mentioned (self : FullRouter) (id : PeerId) : Prop :=
  (self.lags.lookup id).isSome ∨ (self.rtts.lookup id).isSome ∨ id ∈ self.responded

def Clean (self : FullRouter) : Prop := ∀ id, self.Mentioned id → self.Registered id

/-! ## Messages that leave the connections -/

structure KeepsIds (r r' : FullRouter) : Prop where
  peers : r'.peers = r.peers
  lags : r'.lags = r.lags
  rtts : r'.rtts = r.rtts
  responded : r'.responded ⊆ r.responded

theorem KeepsIds.refl (r : FullRouter) : KeepsIds r r := ⟨rfl, rfl, rfl, Finset.Subset.refl _⟩

theorem KeepsIds.trans (h : KeepsIds r r') (h' : KeepsIds r' r'') : KeepsIds r r'' where
  peers := h'.peers.trans h.peers
  lags := h'.lags.trans h.lags
  rtts := h'.rtts.trans h.rtts
  responded := h'.responded.trans h.responded

theorem KeepsIds.mentioned (h : KeepsIds r r') (hid : r'.Mentioned id) : r.Mentioned id := by
  unfold Mentioned at hid ⊢
  rw [h.lags, h.rtts] at hid
  exact hid.imp_right fun hid => hid.imp_right fun hmem => h.responded hmem

theorem KeepsIds.registered (h : KeepsIds r r') : r'.Registered id ↔ r.Registered id := by
  unfold Registered
  rw [h.peers]

theorem KeepsIds.clean (h : KeepsIds r r') (hr : r.Clean) : r'.Clean :=
  fun id hid => h.registered.mpr (hr id (h.mentioned hid))

theorem requestEach_responded (rand : Nat → UInt64) (peerKeys : List (PublicKey × List PeerId)) :
    ∀ self : FullRouter, (requestEach rand peerKeys self).router.responded ⊆ self.responded := by
  induction peerKeys with
  | nil => exact fun self => Finset.Subset.refl _
  | cons e peerKeys ih =>
    intro self
    exact (ih _).trans sdiff_subset

theorem restart_keepsIds (self : FullRouter) (rand : Nat → UInt64) : KeepsIds self (self.restart rand).router := by
  have hframe := (self.restart_restarted rand).frame
  refine ⟨by rw [hframe], by rw [hframe], by rw [hframe], ?_⟩
  exact requestEach_responded _ _ _

theorem fix_keepsIds (self : FullRouter) (rand : Nat → UInt64) (now : Instant) :
    KeepsIds self (self.fix rand now).router := by
  have hself : ∀ r : FullRouter, r.peers = self.peers → r.lags = self.lags → r.rtts = self.rtts →
      r.responded = self.responded → KeepsIds self r :=
    fun r hpeers hlags hrtts hresponded => ⟨hpeers, hlags, hrtts, hresponded.subset⟩
  by_cases hadopts : ∃ res, self.Adopts res now
  · obtain ⟨res, hadopts⟩ := hadopts
    have hstored := hself (self.stored (self.childAnnounce self.selectParent.parent res) now) rfl rfl rfl rfl
    rw [fix_of_adopts hadopts]
    exact hstored.trans (restart_keepsIds _ _)
  rw [not_exists] at hadopts
  by_cases hroot : self.BecomesRoot now
  · rw [fix_of_becomesRoot hroot]
    refine KeepsIds.trans ?_ (restart_keepsIds _ _)
    unfold becomeRoot
    rcases self.update_cases (self.rootAnnounce (rand 0)) now with hupdate | hupdate
    · rw [hupdate]
      exact hself _ rfl rfl rfl rfl
    rw [hupdate]
    exact KeepsIds.refl self
  obtain ⟨doRoot1, hfix⟩ := fix_of_keeps hadopts hroot rand
  rw [hfix]
  exact hself _ rfl rfl rfl rfl

theorem SameTables.keepsIds (h : SameTables r r') : KeepsIds r r' := ⟨h.peers, h.lags, h.rtts, h.responded.subset⟩

variable {o : Outcome} {call : Call} {entry : PeerEntry} {n : UInt64}

theorem doMaintenance_keepsIds {clk : Clock} {rand : Nat → UInt64} (ho : self.doMaintenance env clk rand = some o) :
    KeepsIds self o.router := by
  have hready : KeepsIds self (self.ready clk.now) := by
    rw [ready_frame]
    exact ⟨rfl, rfl, rfl, Finset.Subset.refl _⟩
  exact (hready.trans (fix_keepsIds _ rand clk.now)).trans (afterFix_tables ho).keepsIds

theorem expireInfos_keepsIds (self : FullRouter) (now : Instant) : KeepsIds self (self.expireInfos now) := by
  refine expireInfos_induct (P := KeepsIds self) (KeepsIds.refl self) (fun r k h => h.trans ?_) now
  unfold expire
  split <;> exact ⟨rfl, rfl, rfl, Finset.Subset.refl _⟩

theorem handleAnnounce_keepsIds (self : FullRouter) (peerId : PeerId) (peerKey : PublicKey) (ann : RouterAnnounce)
    (now : Instant) : KeepsIds self (self.handleAnnounce peerId peerKey ann now).router := by
  unfold handleAnnounce
  rcases self.update_cases ann now with hupdate | hupdate
  · simp only [hupdate, if_true]
    split <;> exact ⟨rfl, rfl, rfl, Finset.Subset.refl _⟩
  simp only [hupdate, Bool.false_eq_true, if_false]
  split
  · exact KeepsIds.refl self
  · exact ⟨rfl, rfl, rfl, Finset.Subset.refl _⟩

inductive Connects (r : FullRouter) (call : Call) (r' : FullRouter) : Prop
  | addPeer (entry : PeerEntry) {o : Outcome} : call.msg = .addPeer entry → r.addPeer entry (call.rand 0) = some o →
      r' = o.router → Connects r call r'
  | removePeer (peerId : PeerId) (key : PublicKey) (port : PeerPort) : call.msg = .removePeer peerId key port →
      r' = (r.removePeer peerId key port).router → Connects r call r'
  | handleResponse (peerId : PeerId) (key : PublicKey) (res : SigRes) (rtt : Duration) :
      call.msg = .handleResponse peerId key res rtt → r' = r.handleResponse peerId key res rtt → Connects r call r'
  | other : KeepsIds r r' → Connects r call r'

theorem Step.connects (h : Step env r call r') : Connects r call r' := by
  obtain ⟨o, ho, rfl⟩ := Option.map_eq_some_iff.mp h
  obtain ⟨clk, rand, msg⟩ := call
  cases msg with
  | addPeer entry => exact Connects.addPeer entry rfl ho rfl
  | removePeer peerId key port =>
    cases ho
    exact Connects.removePeer peerId key port rfl rfl
  | handleRequest peerId peerKey req =>
    cases ho
    exact Connects.other (KeepsIds.refl r)
  | handleResponse peerId key res rtt =>
    cases ho
    exact Connects.handleResponse peerId key res rtt rfl rfl
  | handleAnnounce peerId peerKey ann =>
    cases ho
    exact Connects.other (handleAnnounce_keepsIds r peerId peerKey ann clk.now)
  | handleBloom peerKey filter =>
    cases ho
    exact Connects.other ⟨rfl, rfl, rfl, Finset.Subset.refl _⟩
  | path msg =>
    cases ho
    have hframe := (Router.handlePath_acts env clk r.toRouter msg).routed.frame
    refine Connects.other ?_
    show KeepsIds r { r with toRouter := _ }
    rw [hframe]
    exact ⟨rfl, rfl, rfl, Finset.Subset.refl _⟩
  | forceRefresh =>
    have hforced : KeepsIds r (r.forceRefresh clk.now) := ⟨rfl, rfl, rfl, Finset.Subset.refl _⟩
    exact Connects.other (hforced.trans (doMaintenance_keepsIds ho))
  | maintenance wallJump =>
    refine Connects.other (KeepsIds.trans ?_ (doMaintenance_keepsIds ho))
    refine KeepsIds.trans ?_ (expireInfos_keepsIds _ clk.now)
    split
    · exact ⟨rfl, rfl, rfl, Finset.Subset.refl _⟩
    · exact KeepsIds.refl r

/-! ## Connections that come and go -/

theorem admitKey_ids (self : FullRouter) (entry : PeerEntry) : (self.admitKey entry).lags = self.lags ∧
    (self.admitKey entry).rtts = self.rtts ∧ (self.admitKey entry).responded = self.responded := by
  unfold admitKey
  split <;> exact ⟨rfl, rfl, rfl⟩

theorem ensureRequest_ids (self : FullRouter) (key : PublicKey) (n : UInt64) :
    (self.ensureRequest key n).lags = self.lags ∧ (self.ensureRequest key n).rtts = self.rtts ∧
      (self.ensureRequest key n).responded = self.responded := by
  unfold ensureRequest
  split <;> exact ⟨rfl, rfl, rfl⟩

section
variable (h : self.addPeer entry n = some o)
include h

theorem addPeer_ids : o.router.lags = self.lags.insert entry.id UNKNOWN_LATENCY ∧ o.router.rtts = self.rtts ∧
      o.router.responded = self.responded.erase entry.id := by
  obtain ⟨hlags, hrtts, hresponded⟩ := self.admitKey_ids entry
  unfold addPeer at h
  dsimp only at h
  rw [hlags] at h
  split at h
  · cases h
  next conns _ =>
    split at h
    · cases h
    next req _ =>
      cases h
      obtain ⟨hlags', hrtts', hresponded'⟩ := ensureRequest_ids { self.admitKey entry with
        peers := (self.admitKey entry).peers.insert entry.key (conns.insert entry.id entry)
        lags := self.lags.insert entry.id UNKNOWN_LATENCY } entry.key n
      exact ⟨hlags', hrtts'.trans hrtts, congrArg (erase · entry.id) (hresponded'.trans hresponded)⟩

theorem addPeer_mentioned (hid : o.router.Mentioned id) : id = entry.id ∨ self.Mentioned id := by
  obtain ⟨hlags, hrtts, hresponded⟩ := addPeer_ids h
  unfold Mentioned at hid
  rw [hlags, hrtts, hresponded, lookup_insert] at hid
  by_cases heq : id = entry.id
  · exact .inl heq
  rw [if_neg heq] at hid
  exact .inr (hid.imp_right fun hid => hid.imp_right fun hmem => mem_of_mem_erase hmem)

theorem addPeer_lookup₂ (k : PublicKey) (i : PeerId) :
    o.router.peers.lookup₂ k i = if k = entry.key ∧ i = entry.id then some entry else self.peers.lookup₂ k i := by
  obtain ⟨conns, hconns, hpeers⟩ := (addPeer_added h).peers
  have hadmit : ∀ k i, (self.admitKey entry).peers.lookup₂ k i = self.peers.lookup₂ k i := by
    intro k i
    rw [admitKey]
    split
    · rfl
    next hnew =>
      show lookup₂ (self.peers.insert entry.key ∅) k i = _
      rw [lookup₂, lookup_insert]
      by_cases hk : k = entry.key
      · simp [hk, lookup₂, hnew]
      · simp [hk, lookup₂]
  rw [hpeers, lookup₂_insert (by simp [lookup₂, hconns]), hadmit]

theorem addPeer_registered (hid : id = entry.id ∨ self.Registered id) : o.router.Registered id := by
  simp only [registered_iff, addPeer_lookup₂ h] at hid ⊢
  rcases hid with rfl | ⟨k, hk⟩
  · exact ⟨entry.key, by simp⟩
  refine ⟨k, ?_⟩
  split
  · rfl
  · exact hk

end

theorem removePeer_ids (self : FullRouter) (peerId : PeerId) (key : PublicKey) (port : PeerPort) :
    (self.removePeer peerId key port).router.lags = self.lags.remove peerId ∧
      (self.removePeer peerId key port).router.rtts = self.rtts.remove peerId ∧
      (self.removePeer peerId key port).router.responded = self.responded.erase peerId := by
  unfold removePeer
  dsimp only
  split
  · exact ⟨rfl, rfl, rfl⟩
  split <;> exact ⟨rfl, rfl, rfl⟩

theorem removePeer_mentioned {port : PeerPort} (hid : (self.removePeer peerId key port).router.Mentioned id) :
    id ≠ peerId ∧ self.Mentioned id := by
  obtain ⟨hlags, hrtts, hresponded⟩ := self.removePeer_ids peerId key port
  unfold Mentioned at hid
  rw [hlags, hrtts, hresponded, lookup_remove, lookup_remove, mem_erase] at hid
  by_cases heq : id = peerId
  · simp [heq] at hid
  rw [if_neg heq, if_neg heq] at hid
  exact ⟨heq, hid.imp_right fun hid => hid.imp_right And.right⟩

theorem removePeer_peers (self : FullRouter) (peerId : PeerId) (key : PublicKey) (port : PeerPort) :
    (self.removePeer peerId key port).router.peers = self.peers.remove₂ key peerId := by
  unfold removePeer remove₂
  dsimp only
  cases self.peers.lookup key with
  | none => rfl
  | some conns =>
    dsimp only
    split <;> rfl

theorem removePeer_registered {port : PeerPort} (hne : id ≠ peerId) (hid : self.Registered id) :
    (self.removePeer peerId key port).router.Registered id := by
  simpa [registered_iff, removePeer_peers, lookup₂_remove₂, hne] using hid

/-! ## Responses -/

/-- A response writes the tables if a round trip was measured, or if it matches the open request of the key. -/
def Writes (self : FullRouter) (key : PublicKey) (res : SigRes) (rtt : Duration) : Prop :=
  rtt ≠ 0 ∨ self.reqMatch key res = true

theorem handleResponse_peers (self : FullRouter) (peerId : PeerId) (key : PublicKey) (res : SigRes) (rtt : Duration) :
    (self.handleResponse peerId key res rtt).peers = self.peers := by
  obtain ⟨lags, rtts, responded, heq | ⟨-, heq⟩⟩ := self.handleResponse_cases peerId key res rtt <;> rw [heq]

theorem recordRtt_mentioned : (self.recordRtt peerId rtt).Mentioned id ↔ self.Mentioned id ∨ id = peerId ∧ rtt ≠ 0 := by
  unfold recordRtt
  split
  next hzero => simp [hzero]
  next hrtt =>
    unfold Mentioned
    rw [lookup_insert]
    by_cases heq : id = peerId
    · simp [heq, hrtt]
    · simp [heq]

theorem storeResponse_mentioned {reqMatch : Bool} :
    (self.storeResponse key res reqMatch).Mentioned id ↔ self.Mentioned id := by
  unfold storeResponse
  split <;> exact Iff.rfl

theorem recordLag_mentioned {reqMatch : Bool} :
    (self.recordLag peerId rtt reqMatch).Mentioned id ↔ self.Mentioned id ∨ id = peerId ∧ reqMatch = true := by
  unfold recordLag
  split
  next hfirst =>
    rw [Bool.and_eq_true, decide_eq_true_iff] at hfirst
    unfold Mentioned
    rw [lookup_insert, mem_insert]
    by_cases heq : id = peerId
    · simp [heq, hfirst.2]
    · simp [heq]
  next hagain =>
    rw [Bool.and_eq_true, decide_eq_true_iff, not_and_or, not_not] at hagain
    refine ⟨.inl, fun h => h.elim (fun hid => hid) ?_⟩
    rintro ⟨rfl, hmatch⟩
    -- the connection has answered before, or the response does not match
    exact .inr (.inr (hagain.resolve_right (not_not.mpr hmatch)))

theorem handleResponse_mentioned : (self.handleResponse peerId key res rtt).Mentioned id ↔
    self.Mentioned id ∨ id = peerId ∧ self.Writes key res rtt := by
  unfold handleResponse Writes
  rw [recordLag_mentioned, storeResponse_mentioned, recordRtt_mentioned, or_assoc, ← and_or_left]

def Harmless (self : FullRouter) (peerId : PeerId) (key : PublicKey) (res : SigRes) (rtt : Duration) : Prop :=
  self.Writes key res rtt → self.Registered peerId

theorem handleResponse_clean_iff (h : self.Clean) :
    (self.handleResponse peerId key res rtt).Clean ↔ self.Harmless peerId key res rtt := by
  have hregistered : ∀ id, (self.handleResponse peerId key res rtt).Registered id ↔ self.Registered id := by
    intro id
    unfold Registered
    rw [handleResponse_peers]
  unfold Clean Harmless
  simp only [handleResponse_mentioned, hregistered]
  constructor
  · intro hclean hwrites
    exact hclean peerId (.inr ⟨rfl, hwrites⟩)
  rintro hharmless id (hid | ⟨rfl, hwrites⟩)
  · exact h id hid
  · exact hharmless hwrites

/-! ## Runs -/

/-- If the message is a response, it writes nothing or its connection is in `peers`. -/
def Timely (self : FullRouter) (call : Call) : Prop :=
  ∀ peerId key res rtt, call.msg = .handleResponse peerId key res rtt → self.Harmless peerId key res rtt

theorem clean_new (crypto : Crypto) (config : FullConfig) (now : Instant) : (new crypto config now).Clean := by
  intro id hid
  unfold Mentioned at hid
  simp [new, Router.new] at hid

theorem Clean.step (hr : r.Clean) (h : Lts.Guarded (Step env) Timely r call r') : r'.Clean := by
  obtain ⟨hstep, htimely⟩ := h
  cases hstep.connects with
  | addPeer entry _ ho heq =>
    subst heq
    exact fun id hid => addPeer_registered ho ((addPeer_mentioned ho hid).imp_right (hr id))
  | removePeer peerId key port _ heq =>
    subst heq
    intro id hid
    obtain ⟨hne, hid⟩ := removePeer_mentioned hid
    exact removePeer_registered hne (hr id hid)
  | handleResponse peerId key res rtt hmsg heq =>
    subst heq
    exact (handleResponse_clean_iff hr).mpr (htimely peerId key res rtt hmsg)
  | other hkeeps => exact hkeeps.clean hr

/-- In a run all of whose responses are timely the tables mention only connections in `peers`, and a further response
leaves it so exactly if it is timely. -/
theorem no_leak {crypto : Crypto} {config : FullConfig} {now : Instant}
    (h : Lts.Run (Lts.Guarded (Step env) Timely) (new crypto config now) calls r) :
    r.Clean ∧ ∀ peerId key res rtt, (r.handleResponse peerId key res rtt).Clean ↔ r.Harmless peerId key res rtt := by
  have hclean := h.invariant (clean_new crypto config now) fun _ _ _ hr hstep => hr.step hstep
  exact ⟨hclean, fun _ _ _ _ => handleResponse_clean_iff hclean⟩

theorem filed_iff : self.toRouter.Filed ↔ ∀ k id p, self.peers.lookup₂ k id = some p → p.key = k ∧ p.id = id := by
  simp only [Router.Filed, lookup₂, Option.bind_eq_some_iff]
  constructor
  · rintro h k id p ⟨conns, hconns, hp⟩
    exact h k conns id p hconns hp
  · exact fun h k conns id p hconns hp => h k id p ⟨conns, hconns, hp⟩

theorem addPeer_filed (h : self.toRouter.Filed) (ho : self.addPeer entry n = some o) : o.router.toRouter.Filed := by
  rw [filed_iff] at h ⊢
  intro k id p hp
  rw [addPeer_lookup₂ ho] at hp
  split at hp
  next heq =>
    cases hp
    exact ⟨heq.1.symm, heq.2.symm⟩
  · exact h k id p hp

theorem removePeer_filed (h : self.toRouter.Filed) (peerId : PeerId) (key : PublicKey) (port : PeerPort) :
    (self.removePeer peerId key port).router.toRouter.Filed := by
  rw [filed_iff] at h ⊢
  intro k id p hp
  rw [removePeer_peers, lookup₂_remove₂, Option.ite_none_left_eq_some] at hp
  exact h k id p hp.2

theorem Step.filed (h : Step env r call r') (hr : r.toRouter.Filed) : r'.toRouter.Filed := by
  have hsame : r'.peers = r.peers → r'.toRouter.Filed := by
    intro hpeers
    unfold Router.Filed
    rw [hpeers]
    exact hr
  cases h.connects with
  | addPeer entry _ ho heq => exact heq ▸ addPeer_filed hr ho
  | removePeer peerId key port _ heq => exact heq ▸ removePeer_filed hr peerId key port
  | handleResponse peerId key res rtt _ heq => exact hsame (heq ▸ r.handleResponse_peers peerId key res rtt)
  | other hkeeps => exact hsame hkeeps.peers

/-- After any calls, every connection is filed under its own key and id. -/
theorem execAll_filed (env : Env) (crypto : Crypto) (config : FullConfig) (now : Instant) (calls : List Call) :
    ∃ r, (new crypto config now).execAll env calls = some r ∧ r.toRouter.Filed := by
  obtain ⟨r, hr, -⟩ := (bookkept_new crypto config now).execAll env calls
  refine ⟨r, hr, (Lts.run_of_foldlM hr).invariant (I := fun r => r.toRouter.Filed) ?_ fun r call r' hr hstep =>
    Step.filed hstep hr⟩
  intro k conns id p hconns
  simp [new, Router.new] at hconns

/-! ## One key with two connections -/

def opened (calls : List Call) : List PeerId :=
  calls.filterMap fun call =>
    match call.msg with
    | .addPeer entry => some entry.id
    | _ => none

def twin (id : PeerId) : PeerEntry := ⟨id, 7, 1, 0, id⟩

def twinNode : FullRouter := new ⟨9, fun _ => 0⟩ ⟨⟨0, 0, none⟩, 0, 0⟩ 0

def twinResponse : Msg := .handleResponse 1 7 ⟨1, 0, 1, 0⟩ 5

theorem no_leak_twin : ∃ r, Lts.Run (Lts.Guarded (Step signingEnv) Timely) twinNode
    [quietCall (.addPeer (twin 1)), quietCall twinResponse] r ∧ r.Mentioned 1 ∧ r.Clean := by
  obtain ⟨o, ho, -⟩ := (bookkept_new ⟨9, fun _ => 0⟩ ⟨⟨0, 0, none⟩, 0, 0⟩ 0).addPeer (twin 1) 0
  have hadd : Step signingEnv twinNode (quietCall (.addPeer (twin 1))) o.router :=
    congrArg (Option.map Outcome.router) ho
  have hregistered : o.router.Registered 1 := addPeer_registered ho (.inl rfl)
  have hfirst : Lts.Run (Lts.Guarded (Step signingEnv) Timely) twinNode [quietCall (.addPeer (twin 1))] o.router :=
    Lts.Run.single ⟨hadd, fun _ _ _ _ hmsg => Msg.noConfusion hmsg⟩
  have hrun := hfirst.snoc (e := quietCall twinResponse) ⟨rfl, fun peerId key res rtt hmsg _ => by
    injection hmsg with hid
    exact hid ▸ hregistered⟩
  exact ⟨_, hrun, handleResponse_mentioned.mpr (.inr ⟨rfl, .inl (by decide)⟩), (no_leak hrun).1⟩

theorem late_response_leaks : ¬ ∀ env crypto config now calls r, (opened calls).Nodup →
    (new crypto config now).execAll env calls = some r → r.Clean := by
  intro hclaim
  obtain ⟨r, hr, -⟩ := (bookkept_new ⟨9, fun _ => 0⟩ ⟨⟨0, 0, none⟩, 0, 0⟩ 0).execAll signingEnv
    ([.addPeer (twin 1), .addPeer (twin 2), .removePeer 1 7 1, twinResponse].map quietCall)
  have hpeers : r.peers = (∅ : HashMap PublicKey (HashMap PeerId PeerEntry)).insert 7
      ((∅ : HashMap PeerId PeerEntry).insert 2 (twin 2)) := Lts.read_eq (fun r => r.peers) hr rfl
  have hresponded : r.responded = {1} := Lts.read_eq (fun r => r.responded) hr rfl
  obtain ⟨k, conns, hconns, hid⟩ := hclaim signingEnv _ _ _ _ r (by decide) hr 1
    (.inr (.inr (hresponded ▸ mem_singleton_self 1)))
  rw [hpeers, lookup_insert] at hconns
  split at hconns
  · cases hconns
    exact absurd hid (by decide)
  · cases hconns

end Yggdrasil.FullRouter
