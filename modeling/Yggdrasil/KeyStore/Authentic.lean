import Yggdrasil.Base.Run
import Yggdrasil.KeyStore.Store
import Yggdrasil.Router.Callbacks

/-!
# Keys in the key store

A node: its router, the key store behind its TUN, and the `update_key` tasks that the path-notify callback has spawned.
Neighbours may hand it any frame.
-/

namespace Yggdrasil
open Router ReadWriteCloser

inductive RouterMsg where
  | handleTraffic (traffic : TrafficPacket)
  | handleNotify (notify : PathNotify)
  | handleLookup (peerKey : PublicKey) (lookup : PathLookup)
  | handleBroken (broken : PathBroken)
  | sendTraffic (dest : PublicKey) (payload : Bytes) (keepalive : Bool)
  | sendLookup (dest : PublicKey)
  | forceLookup (dest : PublicKey)
  | doMaintenance

/-- `verified` is a history variable: the node's own key, and those behind a link handshake, an accepted notify
or a session packet that decrypted. -/
structure Node where
  router : Router
  rwc : ReadWriteCloser
  calls : List PublicKey
  linked : List PublicKey
  verified : List PublicKey
  outgoing : List Written

inductive Event where
  | link (k : PublicKey)
  | reroute (router : Router)
  | router (msg : RouterMsg)
  | callback (k : PublicKey)
  | seed (k : PublicKey)
  /-- A session packet decrypts; `accepted` if it passes the checks of `accept_inbound` before `update_key`. -/
  | decrypted (k : PublicKey) (accepted : Bool)
  | write (buf : Bytes)
  | cleanup

namespace Node
variable (env : Env) (pfx : UInt8)

def new (crypto : Crypto) (config : Config) : Node :=
  { router := Router.new crypto config, rwc := ReadWriteCloser.new pfx crypto.publicKey, calls := [], linked := []
    verified := [crypto.publicKey], outgoing := [] }

/-- The router task handles a message. The sources of packets that the node sends are its own key. -/
def dispatch (clk : Clock) (r : Router) : RouterMsg → Outcome
  | .handleTraffic tr => Router.handleTraffic env clk r tr
  | .handleNotify notify => Router.handleNotify env clk r notify
  | .handleLookup peerKey lookup => Router.handleLookup env clk r peerKey lookup
  | .handleBroken broken => Router.handleBroken env clk r broken
  | .sendTraffic dest payload keepalive =>
    Router.sendTraffic env clk r { TrafficPacket.new r.crypto.publicKey dest payload with keepalive }
  | .sendLookup dest => Router.sendLookup env clk r dest
  | .forceLookup dest => Router.forceLookup env clk r dest
  | .doMaintenance => maintainPaths env clk r

def verifies (clk : Clock) (r : Router) : RouterMsg → List PublicKey
  | .handleNotify notify => if acceptsNotify env clk r notify then [notify.source] else []
  | _ => []

def callbackKey : RouterAction → Option PublicKey
  | .pathNotifyCallback k => some k
  | _ => none

def updateKey (n : Node) (k : PublicKey) (now : Instant) : Node :=
  let updated := n.rwc.updateKey pfx k now
  { n with rwc := updated.2, outgoing := n.outgoing ++ updated.1 }

def exec (n : Node) (e : Clock × Event) : Node :=
  match e.2 with
  | .link k => { n with linked := k :: n.linked, verified := k :: n.verified }
  | .reroute r => { n with router := r }
  | .router msg =>
    let o := dispatch env e.1 n.router msg
    { n with
      router := o.router
      calls := n.calls ++ o.actions.filterMap callbackKey
      verified := verifies env e.1 n.router msg ++ n.verified }
  | .callback k => { n with calls := n.calls.erase k }.updateKey pfx k e.1.now
  | .seed k => n.updateKey pfx k e.1.now
  | .decrypted k accepted =>
    let n := { n with verified := k :: n.verified }
    if accepted then n.updateKey pfx k e.1.now else n
  | .write buf =>
    let written := n.rwc.write pfx buf e.1.now
    { n with
      rwc := written.2
      outgoing := n.outgoing ++ match written.1 with
        | .sent w => [w]
        | _ => [] }
  | .cleanup => { n with rwc := n.rwc.cleanup e.1.now }

/-- A peer is added after the handshake on its link; only spawned tasks run and only peers are seeded. -/
def Admissible (n : Node) : Event → Prop
  | .reroute r => r.crypto = n.router.crypto ∧ r.pathfinder = n.router.pathfinder ∧ ∀ k ∈ r.peers.keys, k ∈ n.linked
  | .callback k => k ∈ n.calls
  | .seed k => k ∈ n.router.peers.keys
  | _ => True

def Step (n : Node) (e : Clock × Event) (n' : Node) : Prop := n.Admissible e.2 ∧ n' = n.exec env pfx e

/-- A Traffic frame that is delivered here names a source that has been verified before. -/
def SourceVerified (n : Node) (e : Clock × Event) : Prop :=
  match e.2 with
  | .router (.handleTraffic tr) => (n.router.lookup tr.path tr.watermark).peerId = none →
      tr.dest = n.router.crypto.publicKey → tr.source ∈ n.verified
  | _ => True

/-- All keys that the node acts on are verified. -/
structure Authentic (n : Node) : Prop where
  own : n.router.crypto.publicKey ∈ n.verified
  home : Home n.router
  peers : ∀ k ∈ n.router.peers.keys, k ∈ n.verified
  linked : ∀ k ∈ n.linked, k ∈ n.verified
  calls : ∀ k ∈ n.calls, k ∈ n.verified
  store : ∀ k, n.rwc.lookups.Holds k → k ∈ n.verified
  outgoing : ∀ w ∈ n.outgoing, w.key ∈ n.verified

variable {env pfx} {n n' : Node} {e : Clock × Event}

theorem authentic_new (crypto : Crypto) (config : Config) : (Node.new pfx crypto config).Authentic where
  own := List.mem_singleton.mpr rfl
  home _ ht := absurd ht List.not_mem_nil
  peers _ hk := absurd hk List.not_mem_nil
  linked _ hk := absurd hk List.not_mem_nil
  calls _ hk := absurd hk List.not_mem_nil
  store k hk := by
    simp [KeyStoreLookups.Holds, Node.new, ReadWriteCloser.new] at hk
  outgoing _ hw := absurd hw List.not_mem_nil

theorem Authentic.verify (h : n.Authentic) (k : PublicKey) : Authentic { n with verified := k :: n.verified } where
  own := List.mem_cons_of_mem k h.own
  home := h.home
  peers x hx := List.mem_cons_of_mem k (h.peers x hx)
  linked x hx := List.mem_cons_of_mem k (h.linked x hx)
  calls x hx := List.mem_cons_of_mem k (h.calls x hx)
  store x hx := List.mem_cons_of_mem k (h.store x hx)
  outgoing w hw := List.mem_cons_of_mem k (h.outgoing w hw)

theorem Authentic.updateKey (h : n.Authentic) {k : PublicKey} (hk : k ∈ n.verified) (now : Instant) :
    (n.updateKey pfx k now).Authentic where
  own := h.own
  home := h.home
  peers := h.peers
  linked := h.linked
  calls := h.calls
  store x hx := by
    rcases holds_updateKey hx with rfl | hx
    · exact hk
    · exact h.store x hx
  outgoing w hw := by
    rcases List.mem_append.mp hw with hw | hw
    · exact h.outgoing w hw
    · exact (key_of_mem_updateKey hw).symm ▸ hk

theorem Authentic.dispatch (h : n.Authentic) (env : Env) (clk : Clock) (msg : RouterMsg)
    (hsource : n.SourceVerified (clk, .router msg)) :
    Reports n.router (fun k => k ∈ verifies env clk n.router msg ++ n.verified) (dispatch env clk n.router msg) := by
  have hnone : ∀ {o}, Reports n.router (fun _ => False) o →
      Reports n.router (fun k => k ∈ verifies env clk n.router msg ++ n.verified) o := fun ho =>
    ⟨ho.crypto, ho.peers, ho.home, fun k hk => Or.inl ((ho.keys k hk).resolve_right id)⟩
  cases msg with
  | handleTraffic tr =>
    have ho := routeTraffic_reports env clk h.home tr
    refine ⟨ho.crypto, ho.peers, ho.home, fun k hk => (ho.keys k hk).imp_right ?_⟩
    rintro ⟨hlookup, hdest, rfl⟩
    exact List.mem_append_right _ (hsource hlookup hdest)
  | handleNotify notify =>
    have ho := handleNotify_reports env clk h.home notify
    refine ⟨ho.crypto, ho.peers, ho.home, fun k hk => (ho.keys k hk).imp_right ?_⟩
    rintro ⟨haccepts, rfl⟩
    rw [verifies, if_pos haccepts]
    exact List.mem_cons_self
  | handleLookup peerKey lookup => exact hnone (handleLookup_reports env clk h.home peerKey lookup)
  | handleBroken broken => exact hnone (handleBroken_reports env clk h.home broken)
  | sendTraffic dest payload keepalive => exact hnone (sendTraffic_reports env clk h.home _ rfl)
  | sendLookup dest => exact hnone (sendLookup_reports env clk h.home dest)
  | forceLookup dest => exact hnone (forceLookup_reports env clk h.home dest)
  | doMaintenance => exact hnone (maintainPaths_reports env clk h.home)

theorem Authentic.router (h : n.Authentic) (clk : Clock) (msg : RouterMsg)
    (hsource : n.SourceVerified (clk, .router msg)) : (n.exec env pfx (clk, .router msg)).Authentic := by
  have ho := h.dispatch env clk msg hsource
  have hmono : ∀ k ∈ n.verified, k ∈ verifies env clk n.router msg ++ n.verified := fun k hk =>
    List.mem_append_right _ hk
  have hown : (Node.dispatch env clk n.router msg).router.crypto.publicKey ∈
      verifies env clk n.router msg ++ n.verified := by
    rw [ho.crypto]
    exact hmono _ h.own
  refine ⟨hown, ho.home, ?_, fun k hk => hmono k (h.linked k hk), ?_, fun k hk => hmono k (h.store k hk),
    fun w hw => hmono _ (h.outgoing w hw)⟩
  · intro k hk
    refine hmono k (h.peers k ?_)
    rw [← ho.peers]
    exact hk
  intro k hk
  rcases List.mem_append.mp hk with hk | hk
  · exact hmono k (h.calls k hk)
  obtain ⟨a, ha, hkey⟩ := List.mem_filterMap.mp hk
  cases a <;> cases hkey
  rcases ho.keys k ha with rfl | hk
  · exact hmono _ h.own
  · exact hk

theorem Authentic.step (h : n.Authentic) (hstep : Step env pfx n e n') (hsource : n.SourceVerified e) :
    n'.Authentic := by
  obtain ⟨clk, ev⟩ := e
  obtain ⟨hadm, rfl⟩ := hstep
  cases ev with
  | link k =>
    have hv := h.verify k
    refine ⟨hv.own, hv.home, hv.peers, fun x hx => ?_, hv.calls, hv.store, hv.outgoing⟩
    rcases List.mem_cons.mp hx with rfl | hx
    · exact List.mem_cons_self
    · exact hv.linked x hx
  | reroute r =>
    obtain ⟨hcrypto, hpath, hpeers⟩ := hadm
    refine ⟨?_, ?_, fun k hk => h.linked k (hpeers k hk), h.linked, h.calls, h.store, h.outgoing⟩
    · show r.crypto.publicKey ∈ n.verified
      rw [hcrypto]
      exact h.own
    show Home r
    rw [Home, hcrypto, hpath]
    exact h.home
  | router msg => exact h.router clk msg hsource
  | callback k =>
    have hk : k ∈ n.verified := h.calls k hadm
    have herase : Authentic { n with calls := n.calls.erase k } :=
      { h with calls := fun x hx => h.calls x (List.mem_of_mem_erase hx) }
    exact herase.updateKey hk clk.now
  | seed k => exact h.updateKey (h.peers k hadm) clk.now
  | decrypted k accepted =>
    have hv := h.verify k
    cases accepted with
    | false => exact hv
    | true => exact hv.updateKey List.mem_cons_self clk.now
  | write buf =>
    refine { h with store := fun k hk => h.store k ?_, outgoing := fun w hw => ?_ }
    · change (n.rwc.write pfx buf clk.now).2.lookups.Holds k at hk
      rwa [lookups_write] at hk
    rcases List.mem_append.mp hw with hw | hw
    · exact h.outgoing w hw
    cases hsent : (n.rwc.write pfx buf clk.now).1 with
    | sent w' =>
      rw [hsent] at hw
      rw [List.mem_singleton.mp hw]
      exact h.store _ (holds_of_write hsent)
    | err message | lookup key =>
      rw [hsent] at hw
      exact absurd hw List.not_mem_nil
  | cleanup => exact { h with store := fun k hk => h.store k (holds_cleanup hk) }

/-- If each Traffic frame delivered here names a verified source, the store holds verified keys only, so packets from
the TUN go to verified keys. -/
theorem store_authentic (env : Env) (pfx : UInt8) (crypto : Crypto) (config : Config) (es : List (Clock × Event))
    (n : Node) (hrun : Lts.Run (Lts.Guarded (Step env pfx) SourceVerified) (Node.new pfx crypto config) es n) :
    (∀ k, n.rwc.lookups.Holds k → k ∈ n.verified) ∧
      (∀ dst k, ReadWriteCloser.destinationKey pfx n.rwc.lookups dst = some k → k ∈ n.verified) ∧
      ∀ w ∈ n.outgoing, w.key ∈ n.verified := by
  have h : n.Authentic := hrun.invariant (authentic_new crypto config) fun _ _ _ hn hstep => hn.step hstep.1 hstep.2
  exact ⟨h.store, fun dst k hk => h.store k (holds_of_destinationKey hk), h.outgoing⟩

def nodeKey : PublicKey := 1
def peerKey : PublicKey := 1 <<< 255
def forgedKey : PublicKey := 1 <<< 255 ||| 1

def frameFrom (source : PublicKey) : TrafficPacket := { TrafficPacket.new source nodeKey [] with watermark := 0 }

def tunPacket : Bytes :=
  [0x60, 0, 0, 0, 0, 0, 0, 0] ++ (addrForKey 2 nodeKey).toList ++ (addrForKey 2 peerKey).toList

def deafEnv : Env := ⟨fun _ _ _ => false, fun _ => 0⟩

def startNode : Node := Node.new 2 ⟨nodeKey, fun _ => 0⟩ ⟨Duration.fromSecs 60, Duration.fromSecs 1, none⟩

def honestRun : List (Clock × Event) :=
  [(⟨0, 0⟩, .decrypted peerKey false), (⟨0, 0⟩, .router (.handleTraffic (frameFrom peerKey))),
    (⟨0, 0⟩, .callback peerKey), (⟨0, 0⟩, .write tunPacket)]

def forgedRun : List (Clock × Event) :=
  honestRun ++ [(⟨0, 0⟩, .router (.handleTraffic (frameFrom forgedKey))), (⟨0, 0⟩, .callback forgedKey),
    (⟨0, 0⟩, .write tunPacket)]

theorem store_authentic_honestRun : (honestRun.foldl (exec deafEnv 2) startNode).outgoing = [⟨peerKey, tunPacket⟩] ∧
      ∀ w ∈ (honestRun.foldl (exec deafEnv 2) startNode).outgoing,
        w.key ∈ (honestRun.foldl (exec deafEnv 2) startNode).verified := by
  have hadm : Lts.Admitted (exec deafEnv 2) (fun n e => n.Admissible e.2 ∧ n.SourceVerified e) startNode honestRun := by
    refine ⟨⟨trivial, trivial⟩, ⟨trivial, fun _ _ => List.mem_cons_self⟩, ⟨?_, trivial⟩, ⟨trivial, trivial⟩, trivial⟩
    show peerKey ∈ Node.calls _
    decide +kernel
  exact ⟨by decide +kernel, (store_authentic deafEnv 2 _ _ honestRun _
    (hadm.run fun n e hok => ⟨⟨hok.1, rfl⟩, hok.2⟩)).2.2⟩

/-- One Traffic frame with a forged source of the same address, and packets for the peer go to that source, of which
nothing was ever verified. -/
theorem forged_traffic_redirects_address :
    ∃ es n, Lts.Run (Step deafEnv 2) startNode es n ∧ n.rwc.lookups.Holds forgedKey ∧ forgedKey ∉ n.verified ∧
      n.outgoing = [⟨peerKey, tunPacket⟩, ⟨forgedKey, tunPacket⟩] := by
  have hadm : Lts.Admitted (exec deafEnv 2) (fun n e => n.Admissible e.2) startNode forgedRun := by
    refine ⟨trivial, trivial, ?_, trivial, trivial, ?_, trivial, trivial⟩
    · show peerKey ∈ Node.calls _
      decide +kernel
    show forgedKey ∈ Node.calls _
    decide +kernel
  refine ⟨forgedRun, _, hadm.run fun n e hok => ⟨hok, rfl⟩, ?_, ?_, ?_⟩
  · exact Or.inr (Or.inl ⟨addrForKey 2 peerKey, by decide +kernel⟩)
  · decide +kernel
  · decide +kernel

end Node

end Yggdrasil
