import Yggdrasil.Base.Flood
import Yggdrasil.Router.Answers
import Yggdrasil.Router.BloomGossip
import Yggdrasil.Router.Bookkeeping
import Yggdrasil.Router.Greedy

/-!
# Lookups in a tree of nodes

A lookup carries no hop limit, and no node remembers it. It is bounded because the peers that are on the tree form one:
what the nodes do with it is a flood of the tree in the sense of `SimpleGraph.Flood`.
-/

namespace Yggdrasil
open List Option HashMap Router Blooms

/-! ## Targets -/

theorem Blooms.mem_getMulticastTargets {env : Env} {self : Blooms} {fromKey toKey k : PublicKey}
    {transform : Option (PublicKey → PublicKey)} :
    k ∈ self.getMulticastTargets env fromKey toKey transform ↔ ∃ info, self.blooms.lookup k = some info ∧
      info.onTree = true ∧ k ≠ fromKey ∧ info.recv.test env (keyBytes (xKey toKey transform)) = true := by
  simp only [getMulticastTargets, List.mem_map, List.mem_filter, Bool.and_eq_true, bne_iff_ne, Prod.exists,
    HashMap.mem_toList]
  constructor
  · rintro ⟨k', info, ⟨hinfo, ⟨htree, hne⟩, htest⟩, rfl⟩
    exact ⟨info, hinfo, htree, hne, htest⟩
  rintro ⟨info, hinfo, htree, hne, htest⟩
  exact ⟨k, info, ⟨hinfo, ⟨htree, hne⟩, htest⟩, rfl⟩

theorem Blooms.nodup_getMulticastTargets (env : Env) (self : Blooms) (fromKey toKey : PublicKey)
    (transform : Option (PublicKey → PublicKey)) : (self.getMulticastTargets env fromKey toKey transform).Nodup :=
  nodup_filter_toList _ _

theorem Router.bestPeerForKey_mem {self : Router} {key : PublicKey} {id : PeerId}
    (h : self.bestPeerForKey key = some id) :
    ∃ conns e, self.peers.lookup key = some conns ∧ e ∈ conns.values ∧ e.id = id := by
  obtain ⟨e, he, rfl⟩ := map_eq_some_iff.mp h
  have hmem : e ∈ ((self.peers.lookup key).getD ∅).values :=
    (champion_mem (show champion (fun e b => decide (e.prio < b.prio)) none _ = some e from he)).resolve_left (by simp)
  cases hpeers : self.peers.lookup key with
  | none =>
    rw [hpeers] at hmem
    exact absurd hmem not_mem_nil
  | some conns =>
    rw [hpeers] at hmem
    exact ⟨conns, _, rfl, hmem, rfl⟩

theorem Router.exists_bestPeerForKey {self : Router} {key : PublicKey} {conns : HashMap PeerId PeerEntry}
    (h : self.peers.lookup key = some conns) (hne : conns.keys ≠ []) : ∃ id, self.bestPeerForKey key = some id := by
  have hvalues : conns.values ≠ [] := by
    obtain ⟨id, hid⟩ := exists_mem_of_ne_nil _ hne
    obtain ⟨e, he⟩ := mem_keys_iff.mp hid
    exact ne_nil_of_mem (mem_values.mpr ⟨id, he⟩)
  rw [bestPeerForKey, h, getD_some]
  have hsome : (champion (fun e b : PeerEntry => decide (e.prio < b.prio)) none conns.values).isSome :=
    champion_isSome (Or.inl hvalues)
  obtain ⟨e, he⟩ := isSome_iff_exists.mp hsome
  exact ⟨e.id, congrArg (Option.map PeerEntry.id) he⟩

/-! ## Routers at their places -/

namespace TreeNet
variable {V : Type} (T : TreeNet V) (link : V → PeerId → V) (transform : Option (PublicKey → PublicKey))

/-- Exactly the neighbours of `u` are on the tree, `id` leads to `link u id`, and all peers have a connection. -/
structure Placed (u : V) (r : Router) : Prop where
  key : r.crypto.publicKey = T.key u
  transform : r.bloomTransform = transform
  marks : T.Marks u r.blooms
  linked : ∀ k conns e, r.peers.lookup k = some conns → e ∈ conns.values → T.key (link u e.id) = k
  connected : ∀ k info, r.blooms.blooms.lookup k = some info → ∃ conns, r.peers.lookup k = some conns ∧ conns.keys ≠ []
  filed : r.pathfinder.Filed

/-- Received filters test positive for the nodes behind them. -/
def Filtered (env : Env) (u : V) (r : Router) : Prop :=
  ∀ v info, T.graph.Adj u v → r.blooms.blooms.lookup (T.key v) = some info → ∀ w ∈ T.graph.side v u,
    info.recv.test env (keyBytes (Blooms.xKey (T.key w) transform)) = true

variable {T link transform} {u : V} {r : Router}

theorem Placed.routed (h : T.Placed link transform u r) {r' : Router} (hr : Router.Routed r r')
    (hfiled : r'.pathfinder.Filed) : T.Placed link transform u r' := by
  rw [hr.frame]
  exact ⟨h.key, h.transform, h.marks, h.linked, h.connected, hfiled⟩

def targets (env : Env) (link : V → PeerId → V) (u : V) (r : Router) (fromKey dest : PublicKey) : List V :=
  (r.multicast env fromKey dest).map (link u)

theorem Placed.key_link (h : T.Placed link transform u r) {k : PublicKey} {id : PeerId}
    (hid : r.bestPeerForKey k = some id) : T.key (link u id) = k := by
  obtain ⟨conns, e, hconns, he, rfl⟩ := bestPeerForKey_mem hid
  exact h.linked k conns e hconns he

variable {env : Env} {fromKey dest : PublicKey} {w : V}

section
variable (h : T.Placed link transform u r)
include h

theorem Placed.mem_targets :
    w ∈ targets env link u r fromKey dest ↔ T.key w ∈ r.blooms.getMulticastTargets env fromKey dest transform := by
  rw [targets, Router.multicast, List.mem_map, h.transform]
  constructor
  · rintro ⟨id, hid, rfl⟩
    obtain ⟨k, hk, hbest⟩ := mem_filterMap.mp hid
    rwa [h.key_link hbest]
  intro hw
  obtain ⟨info, hinfo, -⟩ := mem_getMulticastTargets.mp hw
  obtain ⟨conns, hconns, hne⟩ := h.connected _ info hinfo
  obtain ⟨id, hid⟩ := exists_bestPeerForKey hconns hne
  exact ⟨id, mem_filterMap.mpr ⟨T.key w, hw, hid⟩, T.key_injective (h.key_link hid)⟩

theorem Placed.nodup_targets (env : Env) (fromKey dest : PublicKey) : (targets env link u r fromKey dest).Nodup := by
  rw [targets, Router.multicast, map_filterMap]
  refine (nodup_getMulticastTargets env r.blooms fromKey dest r.bloomTransform).filterMap ?_
  intro k k' w hk hk'
  obtain ⟨id, hid, rfl⟩ := map_eq_some_iff.mp hk
  obtain ⟨id', hid', heq⟩ := map_eq_some_iff.mp hk'
  rw [← h.key_link hid, ← h.key_link hid', heq]

theorem Placed.adj_targets (hw : w ∈ targets env link u r fromKey dest) : T.graph.Adj u w ∧ T.key w ≠ fromKey := by
  obtain ⟨info, hinfo, htree, hne, -⟩ := mem_getMulticastTargets.mp (h.mem_targets.mp hw)
  obtain ⟨w', hadj, hkey⟩ := (h.marks (T.key w)).mp ⟨info, hinfo, htree⟩
  exact ⟨T.key_injective hkey ▸ hadj, hne⟩

theorem Placed.mem_targets_of_side (hfiltered : T.Filtered transform env u r)
    {t : V} (ht : Blooms.xKey (T.key t) transform = Blooms.xKey dest transform)
    (hadj : T.graph.Adj u w) (hne : T.key w ≠ fromKey) (hside : t ∈ T.graph.side w u) :
    w ∈ targets env link u r fromKey dest := by
  obtain ⟨info, hinfo, htree⟩ := h.marks.exists_info hadj
  refine h.mem_targets.mpr (mem_getMulticastTargets.mpr ⟨info, hinfo, htree, hne, ?_⟩)
  rw [← ht]
  exact hfiltered w info hadj hinfo t hside

end

theorem Placed.handleLookup (h : T.Placed link transform u r) (env : Env) (clk : Clock) {v : V} (hadj : T.graph.Adj u v)
    (lookup : PathLookup) :
    T.Placed link transform u (handleLookup env clk r (T.key v) lookup).router ∧
      (handleLookup env clk r (T.key v) lookup).lookups = (r.multicast env (T.key v) lookup.dest).map (·, lookup) ∧
      ∃ info : OwnPathInfo, info.path = r.ownCoords ∧ (handleLookup env clk r (T.key v) lookup).notifies =
        if Blooms.xKey lookup.dest transform = Blooms.xKey (T.key u) transform then r.answers lookup info else [] := by
  have hrouted := (handleLookup_acts env clk r (T.key v) lookup).routed
  have hfiled := handlePath_keeps env clk (filed_rules env _) (.handleLookup (T.key v) lookup) h.filed trivial
  have htree : r.blooms.isOnTree (T.key v) = true := by
    obtain ⟨info, hinfo, htree⟩ := h.marks.exists_info hadj
    rw [isOnTree, hinfo]
    exact htree
  have heq : Router.handleLookup env clk r (T.key v) lookup =
      handleLookupInternal env clk (routeTraffic env clk) r (T.key v) lookup := by
    rw [Router.handleLookup, htree]
    rfl
  have hmatches : r.Matches lookup.dest ↔ Blooms.xKey lookup.dest transform = Blooms.xKey (T.key u) transform := by
    rw [Router.Matches, h.transform, h.key]
  refine ⟨h.routed hrouted hfiled, ?_⟩
  rw [heq]
  simp only [← hmatches]
  exact handleLookupInternal_spec env clk h.filed (T.key v) lookup

end TreeNet

/-- After any calls, the packets that wait are filed, and the entries of the filter table are of
peers with a connection. -/
theorem FullRouter.execAll_ready (env : Env) (crypto : Crypto) (config : FullConfig) (now : Instant)
    (calls : List FullRouter.Call) : ∃ r, (FullRouter.new crypto config now).execAll env calls = some r ∧
    r.pathfinder.Filed ∧ ∀ k info, r.blooms.blooms.lookup k = some info →
      ∃ conns, r.peers.lookup k = some conns ∧ conns.keys ≠ [] := by
  obtain ⟨r, hr, hbook⟩ := (FullRouter.bookkept_new crypto config now).execAll env calls
  refine ⟨r, hr, ?_, fun k info hinfo => ?_⟩
  · refine (Lts.run_of_foldlM hr).invariant (I := fun r => r.pathfinder.Filed)
      (fun k info t hinfo => absurd hinfo (by simp [FullRouter.new, Router.new, Pathfinder.new])) fun r call r'
        hr hcall => ?_
    obtain ⟨o, ho, rfl⟩ := map_eq_some_iff.mp hcall
    exact FullRouter.exec_pathfinder (filed_rules env) ho hr
  obtain ⟨conns, hconns⟩ := hbook.blooms.symm.exists_of_some hinfo
  exact ⟨conns, hconns, hbook.connected k conns hconns⟩

/-! ## Runs -/

structure LookupMsg (V : Type) where
  sender : V
  receiver : V
  lookup : PathLookup

structure Handling (V : Type) where
  node : V
  before : Router
  outcome : Router.Outcome

/-- The routers of all nodes, the messages of one lookup that are on their way, and who has handled it. -/
structure LookupNet (V : Type) where
  routers : V → Router
  flight : List (LookupMsg V)
  log : List (Handling V)

namespace LookupNet

inductive Event (V : Type) where
  | deliver (i : Nat) (clk : Clock)
  | change (u : V) (r : Router)

def Event.Placed {V : Type} (T : TreeNet V) (link : V → PeerId → V) (transform : Option (PublicKey → PublicKey)) :
    Event V → Prop
  | .deliver _ _ => True
  | .change u r => T.Placed link transform u r

def Event.isDelivery {V : Type} : Event V → Bool
  | .deliver _ _ => true
  | .change _ _ => false

variable {V : Type} [DecidableEq V] (key : V → PublicKey) (link : V → PeerId → V) (env : Env)

def handle (s : LookupNet V) (u : V) (rest : List (LookupMsg V)) (o : Router.Outcome) : LookupNet V where
  routers := Function.update s.routers u o.router
  flight := rest ++ o.lookups.map fun p => { sender := u, receiver := link u p.1, lookup := p.2 }
  log := s.log ++ [{ node := u, before := s.routers u, outcome := o }]

def start (routers : V → Router) (origin : V) (clk : Clock) (dest : PublicKey) : LookupNet V :=
  handle link { routers, flight := [], log := [] } origin []
    (doSendLookup env clk (routeTraffic env clk) (routers origin) dest)

def exec (s : LookupNet V) : Event V → Option (LookupNet V)
  | .deliver i clk =>
    match s.flight[i]? with
    | none => none
    | some m =>
      some (s.handle link m.receiver (s.flight.eraseIdx i)
        (handleLookup env clk (s.routers m.receiver) (key m.sender) m.lookup))
  | .change u r => some { s with routers := Function.update s.routers u r }

def flood (s : LookupNet V) : SimpleGraph.Flood V where
  flight := s.flight.map fun m => (m.sender, m.receiver)
  visited := s.log.map Handling.node

/-- The node that starts `l` sends no notify; any other answers it if it has the transformed key. -/
def Answered (T : TreeNet V) (transform : Option (PublicKey → PublicKey)) (origin : V) (l : PathLookup)
    (h : Handling V) : Prop :=
  if h.node ≠ origin ∧ Blooms.xKey l.dest transform = Blooms.xKey (T.key h.node) transform then
    ∃ info : OwnPathInfo, info.path = h.before.ownCoords ∧ h.outcome.notifies = h.before.answers l info
  else h.outcome.notifies = []

structure Spreading (T : TreeNet V) (transform : Option (PublicKey → PublicKey)) (origin : V) (l : PathLookup)
    (s : LookupNet V) : Prop where
  placed : ∀ u, T.Placed link transform u (s.routers u)
  lookup : ∀ m ∈ s.flight, m.lookup = l
  outward : s.flood.Outward T.graph
  started : ∃ h ∈ s.log, h.node = origin
  answered : ∀ h ∈ s.log, Answered T transform origin l h
  covers : (∀ h ∈ s.log, T.Filtered transform env h.node h.before) → ∀ t,
    Blooms.xKey (T.key t) transform = Blooms.xKey l.dest transform → s.flood.Covers T.graph t

variable {key link env} {T : TreeNet V} {transform : Option (PublicKey → PublicKey)} {origin : V} {l : PathLookup}
  {s s' : LookupNet V}
variable {u : V} {r : Router} {o : Router.Outcome} {fromKey : PublicKey}

omit [DecidableEq V] in
theorem lookups_map (h : o.lookups = (r.multicast env fromKey l.dest).map (·, l)) :
    (o.lookups.map fun p => ({ sender := u, receiver := link u p.1, lookup := p.2 } : LookupMsg V)) =
      (TreeNet.targets env link u r fromKey l.dest).map fun w => { sender := u, receiver := w, lookup := l } := by
  rw [h, TreeNet.targets, List.map_map, List.map_map]
  rfl

theorem flood_handle (s : LookupNet V) (u : V) (rest : List (LookupMsg V))
    (h : o.lookups = (r.multicast env fromKey l.dest).map (·, l)) : (s.handle link u rest o).flood =
      s.flood.visit u (rest.map fun m => (m.sender, m.receiver)) (TreeNet.targets env link u r fromKey l.dest) := by
  simp only [flood, handle, lookups_map h, SimpleGraph.Flood.visit, List.map_append, List.map_map]
  rfl

theorem placed_update (h : ∀ u, T.Placed link transform u (s.routers u)) (hr : T.Placed link transform u r) (v : V) :
    T.Placed link transform v (Function.update s.routers u r v) := by
  by_cases hv : v = u
  · subst hv
    rwa [Function.update_self]
  rw [Function.update_of_ne hv]
  exact h v

theorem lookup_handle {rest : List (LookupMsg V)}
    (h : o.lookups = (r.multicast env fromKey l.dest).map (·, l)) (hrest : ∀ m ∈ rest, m.lookup = l) :
    ∀ m ∈ (s.handle link u rest o).flight, m.lookup = l := by
  intro m hm
  simp only [handle, lookups_map h] at hm
  rcases mem_append.mp hm with hm | hm
  · exact hrest m hm
  obtain ⟨w, -, rfl⟩ := mem_map.mp hm
  rfl

theorem spreading_start {routers : V → Router} (hplaced : ∀ u, T.Placed link transform u (routers u)) {clk : Clock}
    {dest : PublicKey} (hthrottle : (routers origin).pathfinder.shouldThrottleLookup dest (routers origin).pathThrottle
      clk.now = false) :
    Spreading link env T transform origin ((routers origin).ownLookup dest)
      (start link env routers origin clk dest) := by
  have hp := hplaced origin
  obtain ⟨hlookups, hnotifies⟩ := doSendLookup_spec env clk hp.filed hthrottle
  have hrouted := (doSendLookup_acts (m := .forceLookup dest) env clk
    (Router.Keeps.refl (routers origin)).routed dest).routed
  have hfiled := doSendLookup_keeps env clk (routers origin) (filed_rules env _) dest hp.filed
  rw [start]
  generalize doSendLookup env clk (routeTraffic env clk) (routers origin) dest = o
    at hlookups hnotifies hrouted hfiled ⊢
  have hflood : (handle link { routers, flight := [], log := [] } origin [] o).flood =
      SimpleGraph.Flood.start origin (TreeNet.targets env link origin (routers origin) (routers origin).crypto.publicKey
        ((routers origin).ownLookup dest).dest) := flood_handle _ origin [] hlookups
  have hself : ∀ w, T.graph.Adj origin w → T.key w ≠ (routers origin).crypto.publicKey := by
    intro w hadj hkey
    rw [hp.key] at hkey
    exact hadj.ne (T.key_injective hkey).symm
  refine ⟨placed_update hplaced (hp.routed hrouted hfiled), lookup_handle hlookups (by simp), ?_,
    ⟨_, mem_singleton_self _, rfl⟩, fun h hh => ?_, fun hfiltered t ht => ?_⟩
  · rw [hflood]
    exact SimpleGraph.Flood.outward_start (hp.nodup_targets env _ _) fun w hw => (hp.adj_targets hw).1
  · rw [mem_singleton.mp hh, Answered, if_neg fun hne => hne.1 rfl]
    exact hnotifies
  rw [hflood]
  refine SimpleGraph.Flood.covers_start T.isTree.connected fun w hadj hside => ?_
  exact hp.mem_targets_of_side (hfiltered _ (mem_singleton_self _)) ht hadj (hself w hadj) hside

theorem Spreading.deliver (h : Spreading link env T transform origin l s) {i : Nat} {m : LookupMsg V}
    (hm : s.flight[i]? = some m) (clk : Clock) :
    Spreading link env T transform origin l (s.handle link m.receiver (s.flight.eraseIdx i)
      (handleLookup env clk (s.routers m.receiver) (T.key m.sender) m.lookup)) := by
  obtain ⟨hi, hget⟩ := List.getElem?_eq_some_iff.mp hm
  have hperm : s.flight.Perm (m :: s.flight.eraseIdx i) := hget ▸ (List.getElem_cons_eraseIdx_perm hi).symm
  have hmem : m ∈ s.flight := hperm.mem_iff.mpr mem_cons_self
  have hrest : ∀ m' ∈ s.flight.eraseIdx i, m' ∈ s.flight := fun m' hm' => mem_of_mem_eraseIdx hm'
  have hflight : s.flood.flight.Perm
      ((m.sender, m.receiver) :: (s.flight.eraseIdx i).map fun m => (m.sender, m.receiver)) := hperm.map _
  have hmem' : (m.sender, m.receiver) ∈ s.flood.flight := mem_map_of_mem hmem
  have hadj : T.graph.Adj m.sender m.receiver := h.outward.adj _ hmem'
  have hp := h.placed m.receiver
  have hfresh := h.outward.notMem T.isTree.isAcyclic hmem'
  have hne : m.receiver ≠ origin := by
    rintro heq
    obtain ⟨h₀, hlog, hnode⟩ := h.started
    exact hfresh (mem_map.mpr ⟨h₀, hlog, hnode.trans heq.symm⟩)
  obtain ⟨hplaced, hlookups, info, hown, hnotifies⟩ := hp.handleLookup env clk hadj.symm m.lookup
  rw [h.lookup m hmem] at hlookups hnotifies hplaced ⊢
  generalize handleLookup env clk (s.routers m.receiver) (T.key m.sender) l = o at hplaced hlookups hnotifies ⊢
  have hflood : (s.handle link m.receiver (s.flight.eraseIdx i) o).flood = _ := flood_handle s m.receiver _ hlookups
  refine ⟨placed_update h.placed hplaced, lookup_handle hlookups fun m' hm' => h.lookup m' (hrest m' hm'), ?_, ?_,
    fun h' hh' => ?_, fun hfiltered t ht => ?_⟩
  · rw [hflood]
    refine h.outward.visit T.isTree.isAcyclic hflight (hp.nodup_targets env _ _) (fun w hw => (hp.adj_targets hw).1) ?_
    rintro w hw rfl
    exact (hp.adj_targets hw).2 rfl
  · obtain ⟨h₀, hlog, hnode⟩ := h.started
    exact ⟨h₀, mem_append_left _ hlog, hnode⟩
  · rcases mem_append.mp hh' with hh' | hh'
    · exact h.answered h' hh'
    rw [mem_singleton.mp hh', Answered]
    split
    next hmatches => exact ⟨info, hown, hnotifies.trans (if_pos hmatches.2)⟩
    next hmatches => exact hnotifies.trans (if_neg fun hx => hmatches ⟨hne, hx⟩)
  rw [hflood]
  have hcovers := h.covers (fun h' hh' => hfiltered h' (mem_append_left _ hh')) t ht
  refine hcovers.visit T.isTree.isAcyclic hflight fun w hadjw hnew hside => ?_
  have hfilter := hfiltered _ (mem_append_right _ (mem_singleton_self _))
  exact hp.mem_targets_of_side hfilter ht hadjw (fun hkey => hnew (T.key_injective hkey)) hside

theorem Spreading.exec (h : Spreading link env T transform origin l s) {e : Event V} (he : e.Placed T link transform)
    (hexec : s.exec T.key link env e = some s') : Spreading link env T transform origin l s' := by
  cases e with
  | deliver i clk =>
    rw [LookupNet.exec] at hexec
    split at hexec
    · cases hexec
    next m hm =>
      cases hexec
      exact h.deliver hm clk
  | change u r =>
    cases hexec
    exact ⟨placed_update h.placed he, h.lookup, h.outward, h.started, h.answered, h.covers⟩

theorem length_log {es : List (Event V)} (h : Lts.Run (Lts.Guarded (fun s e t => exec key link env s e = some t)
    fun _ e => e.Placed T link transform) s es s') :
    s'.log.length = s.log.length + es.countP Event.isDelivery := by
  induction h with
  | nil => rfl
  | @snoc t u es e _ he ih =>
    rw [countP_append, ← Nat.add_assoc, ← ih]
    cases e with
    | deliver i clk =>
      have hexec := he.1
      simp only [exec] at hexec
      split at hexec
      · cases hexec
      cases hexec
      exact length_append
    | change u r =>
      cases he.1
      rfl

end LookupNet

/-- A lookup that `origin` starts with `do_send_lookup`, in any run in which the routers stay at their places:
no node handles it twice. The other nodes with the transformed key of the destination make one notify each, sent
exactly if a next hop towards `origin` is found; no other notify is sent. If the filters are complete, all of
them have handled it when nothing is on its way any more. -/
theorem TreeNet.lookup_multicast {V : Type} [Finite V] [DecidableEq V] (T : TreeNet V) (env : Env)
    (link : V → PeerId → V) (transform : Option (PublicKey → PublicKey)) {routers : V → Router}
    (hplaced : ∀ u, T.Placed link transform u (routers u)) {origin : V} {dest : PublicKey} {clk : Clock}
    (hthrottle : (routers origin).pathfinder.shouldThrottleLookup dest (routers origin).pathThrottle clk.now = false)
    {es : List (LookupNet.Event V)} {s : LookupNet V}
    (hrun : Lts.Run (Lts.Guarded (fun s e t => LookupNet.exec T.key link env s e = some t)
      fun _ e => e.Placed T link transform) (LookupNet.start link env routers origin clk dest) es s) :
    (s.log.map Handling.node).Nodup ∧ es.countP LookupNet.Event.isDelivery < Nat.card V ∧
      (∀ h ∈ s.log, LookupNet.Answered T transform origin ((routers origin).ownLookup dest) h) ∧
      ((∀ h ∈ s.log, T.Filtered transform env h.node h.before) → s.flight = [] → ∀ t,
        Blooms.xKey (T.key t) transform = Blooms.xKey dest transform → ∃ h ∈ s.log, h.node = t) := by
  have hspread : LookupNet.Spreading link env T transform origin ((routers origin).ownLookup dest) s :=
    hrun.invariant (LookupNet.spreading_start hplaced hthrottle) fun _ _ _ h hstep => h.exec hstep.2 hstep.1
  refine ⟨hspread.outward.nodup, ?_, hspread.answered, fun hfiltered hflight t ht => ?_⟩
  · have hlength := LookupNet.length_log hrun
    have hcard : (s.log.map Handling.node).length ≤ Nat.card V := hspread.outward.length_le
    rw [length_map, hlength] at hcard
    have hone : (LookupNet.start link env routers origin clk dest).log.length = 1 := rfl
    omega
  rcases hspread.covers hfiltered t ht with hvisited | ⟨m, hm, -⟩
  · exact mem_map.mp hvisited
  rw [LookupNet.flood, hflight] at hm
  exact absurd hm not_mem_nil

section
variable {coords : Bool}

/-- The routers of two nodes, which know the other's coordinates or only the keys behind their link. -/
def pairLookupRouter (coords u : Bool) : Router :=
  let self := pairRouter (TreeNet.pair.key u)
  { self with blooms := TreeNet.pairEnd.tables u, infos := if coords then self.infos else ∅ }

theorem blooms_pairLookupRouter (u : Bool) : (pairLookupRouter coords u).blooms = TreeNet.pairEnd.tables u := by
  simp only [pairLookupRouter]

theorem peers_pairLookupRouter {u : Bool} {k : PublicKey} {conns : HashMap PeerId PeerEntry} :
    (pairLookupRouter coords u).peers.lookup k = some conns ↔ k = TreeNet.pair.key (!u) ∧
      conns = (∅ : HashMap PeerId PeerEntry).insert 7 ⟨7, 3 - TreeNet.pair.key u, 5, 0, 0⟩ := by
  have hpeers : (pairLookupRouter coords u).peers = (pairRouter (TreeNet.pair.key u)).peers := by
    simp only [pairLookupRouter]
  have hkey : TreeNet.pair.key (!u) = 3 - TreeNet.pair.key u := by cases u <;> decide
  rw [hpeers, lookup_pairRouter, hkey]

theorem pairLookupRouter_placed (u : Bool) :
    TreeNet.pair.Placed (fun u _ => !u) none u (pairLookupRouter coords u) where
  key := rfl
  transform := rfl
  marks := by
    rw [blooms_pairLookupRouter]
    exact (TreeNet.pairEnd_settled u).marks
  linked k conns e hconns he := (peers_pairLookupRouter.mp hconns).1.symm
  connected k info hinfo := by
    have hk := (TreeNet.pairEnd_settled u).lookup k
    rw [blooms_pairLookupRouter] at hinfo
    rw [hinfo, map_some] at hk
    have hother : k = TreeNet.pair.key !u := by
      by_contra hne
      rw [if_neg hne] at hk
      cases hk
    exact ⟨_, peers_pairLookupRouter.mpr ⟨hother, rfl⟩, cons_ne_nil _ _⟩
  filed := by
    intro k info t hinfo
    exact absurd hinfo (by simp [pairLookupRouter, pairRouter, Router.new, Pathfinder.new])

theorem pairLookupRouter_filtered (u : Bool) :
    TreeNet.pair.Filtered none TreeNet.sumEnv u (pairLookupRouter coords u) := by
  intro v info hadj hinfo w hw
  have hv : v = !u := Bool.eq_not_iff.mpr hadj.ne.symm
  have hw : w = !u := by
    refine Bool.eq_not_iff.mpr ?_
    rintro rfl
    exact SimpleGraph.notMem_side TreeNet.pair.isTree.isAcyclic hadj.symm hw
  have htest : ∀ u, ((TreeNet.pairEnd.tables u).blooms.lookup (TreeNet.pair.key !u)).all fun info =>
      info.recv.test TreeNet.sumEnv (keyBytes (Blooms.xKey (TreeNet.pair.key !u) none)) := by decide +kernel
  rw [blooms_pairLookupRouter, hv] at hinfo
  have h := htest u
  rw [hinfo, all_some] at h
  rwa [hw]

end

section
variable {routers : Bool → Router}

def pairLookupStart (routers : Bool → Router) : LookupNet Bool :=
  LookupNet.start (fun u _ => !u) TreeNet.sumEnv routers false ⟨5, 6⟩ (TreeNet.pair.key true)

/-- The first message of a lookup between two nodes is delivered. -/
def pairLookupNext (routers : Bool → Router) : Option (LookupNet Bool) :=
  (pairLookupStart routers).exec TreeNet.pair.key (fun u _ => !u) TreeNet.sumEnv (.deliver 0 ⟨7, 8⟩)

def pairLookupEnd (routers : Bool → Router) : LookupNet Bool :=
  (pairLookupNext routers).getD (pairLookupStart routers)

theorem exec_pairLookupStart (hsome : (pairLookupNext routers).isSome) :
    pairLookupNext routers = some (pairLookupEnd routers) := by
  obtain ⟨s, hs⟩ := isSome_iff_exists.mp hsome
  rw [pairLookupEnd, hs]
  rfl

theorem pairLookupEnd_filtered (hfiltered : ∀ u, TreeNet.pair.Filtered none TreeNet.sumEnv u (routers u))
    (hsome : (pairLookupNext routers).isSome) (hreceiver : (pairLookupStart routers).flight.all fun m => m.receiver) :
    ∀ h ∈ (pairLookupEnd routers).log, TreeNet.pair.Filtered none TreeNet.sumEnv h.node h.before := by
  have hexec := exec_pairLookupStart hsome
  rw [pairLookupNext, LookupNet.exec] at hexec
  split at hexec
  · cases hexec
  next m hm =>
    have hm := all_eq_true.mp hreceiver m (mem_of_getElem? hm)
    rw [← some.inj hexec]
    intro h hh
    rcases mem_append.mp hh with hh | hh
    · rw [mem_singleton.mp hh]
      exact hfiltered false
    rw [mem_singleton.mp hh, hm]
    exact hfiltered true

end

theorem lookup_multicast_pair : let last := pairLookupEnd (pairLookupRouter true)
    last.flight = [] ∧ (last.log.map Handling.node).Nodup ∧
      ∃ h ∈ last.log, h.node = true ∧ h.outcome.notifies.length = 1 := by
  intro last
  have hsome : (pairLookupNext (pairLookupRouter true)).isSome := by decide +kernel
  have hflight : last.flight = [] := eq_nil_of_length_eq_zero (by decide +kernel)
  have hthrottle : (pairLookupRouter true false).pathfinder.shouldThrottleLookup (TreeNet.pair.key true)
      (pairLookupRouter true false).pathThrottle 5 = false := by decide
  have hmulticast := TreeNet.pair.lookup_multicast TreeNet.sumEnv (fun u _ => !u) none pairLookupRouter_placed hthrottle
    (Lts.Run.single ⟨exec_pairLookupStart hsome, trivial⟩)
  have hsent : last.log.all fun h => !h.node || h.outcome.notifies.length == 1 := by decide +kernel
  have hfiltered := pairLookupEnd_filtered pairLookupRouter_filtered hsome (by decide +kernel)
  obtain ⟨h, hh, hnode⟩ := hmulticast.2.2.2 hfiltered hflight true rfl
  have hone := all_eq_true.mp hsent h hh
  rw [hnode, Bool.not_true, Bool.false_or, beq_iff_eq] at hone
  exact ⟨hflight, hmulticast.1, h, hh, hnode, hone⟩

/-- The destination handles the lookup, and no next hop leads to the node that it answers. -/
theorem pair_lookup_unanswered : let last := pairLookupEnd (pairLookupRouter false)
    (∀ u, TreeNet.pair.Placed (fun u _ => !u) none u (pairLookupRouter false u)) ∧
      pairLookupNext (pairLookupRouter false) = some last ∧
      last.flight = [] ∧ (∀ h ∈ last.log, TreeNet.pair.Filtered none TreeNet.sumEnv h.node h.before) ∧
      last.log.map Handling.node = [false, true] ∧ ∀ h ∈ last.log, h.outcome.notifies = [] := by
  intro last
  have hsome : (pairLookupNext (pairLookupRouter false)).isSome := by decide +kernel
  have hsent : last.log.all fun h => h.outcome.notifies.isEmpty := by decide +kernel
  exact ⟨pairLookupRouter_placed, exec_pairLookupStart hsome, eq_nil_of_length_eq_zero (by decide +kernel),
    pairLookupEnd_filtered pairLookupRouter_filtered hsome (by decide +kernel), by decide +kernel,
    fun h hh => isEmpty_iff.mp (all_eq_true.mp hsent h hh)⟩

def lone : TreeNet Unit where
  graph := ⊥
  isTree := SimpleGraph.IsTree.of_subsingleton
  key _ := 1
  key_injective _ _ _ := rfl

def loneRouter : Router := Router.new ⟨1, fun _ => 0⟩ ⟨0, 0, none⟩

theorem loneRouter_placed (u : Unit) : lone.Placed (fun u _ => u) none u loneRouter where
  key := rfl
  transform := rfl
  marks k := ⟨fun ⟨info, hinfo, _⟩ => absurd hinfo (by simp [loneRouter, Router.new]), fun ⟨w, hadj, _⟩ =>
    absurd hadj id⟩
  linked k conns e hconns := absurd hconns (by simp [loneRouter, Router.new])
  connected k info hinfo := absurd hinfo (by simp [loneRouter, Router.new])
  filed k info t hinfo := absurd hinfo (by simp [loneRouter, Router.new, Pathfinder.new])

def loneLookup : LookupNet Unit :=
  LookupNet.start (fun u _ => u) TreeNet.sumEnv (fun _ => loneRouter) () ⟨0, 0⟩ (lone.key ())

/-- A node that looks for its own key has the transformed key of the destination, and sends no notify. -/
theorem lone_lookup_unanswered : (∀ u, lone.Placed (fun u _ => u) none u loneRouter) ∧
      loneRouter.pathfinder.shouldThrottleLookup (lone.key ()) loneRouter.pathThrottle 0 = false ∧
      loneLookup.flight = [] ∧ (∀ h ∈ loneLookup.log, lone.Filtered none TreeNet.sumEnv h.node h.before) ∧
      ∀ h ∈ loneLookup.log, h.outcome.notifies = [] := by
  refine ⟨loneRouter_placed, by decide, rfl, fun h _ v info hadj => absurd hadj id, fun h hh => ?_⟩
  have hsent : loneLookup.log.all fun h => h.outcome.notifies.isEmpty := by decide +kernel
  exact isEmpty_iff.mp (all_eq_true.mp hsent h hh)

end Yggdrasil
