import Yggdrasil.Base.PortTree
import Yggdrasil.Router.Traffic

/-!
# Greedy delivery on a consistent tree

A finite network of routers that agree on one rooted tree: every node is connected to its parent and knows the parent
and port of its own and its peers' ancestors. Extra links, latencies, priorities and map orders are arbitrary.
-/

namespace Yggdrasil.Router
open List Option HashMap PortTree UInt64

def Linked (self : Router) (key : PublicKey) : Prop :=
  ∃ conns id entry, self.peers.lookup key = some conns ∧ conns.lookup id = some entry

def owner (self : Router) (id : PeerId) : Option PublicKey :=
  (self.peers.toList.find? fun c => (c.2.lookup id).isSome).map Prod.fst

structure Sees (T : PortTree PublicKey PeerPort) (v : PublicKey) (r : Router) : Prop where
  key_eq : r.crypto.publicKey = v
  linked_mem : ∀ u, r.Linked u → u ∈ T.nodes
  parent_linked : v ≠ T.root → r.Linked (T.parent v)
  child_linked : ∀ u ∈ T.nodes, u ≠ T.root → T.parent u = v → r.Linked u
  knows : ∀ u, u = v ∨ r.Linked u → ∀ n, ∃ info, r.infos.lookup (T.parent^[n] u) = some info ∧
    info.parent = T.parent (T.parent^[n] u) ∧ info.port = T.port (T.parent^[n] u)
  entry_eq : ∀ k conns id e, r.peers.lookup k = some conns → conns.lookup id = some e → e.key = k ∧ e.id = id
  id_inj : ∀ k k' conns conns' id, r.peers.lookup k = some conns → r.peers.lookup k' = some conns' →
    (conns.lookup id).isSome → (conns'.lookup id).isSome → k = k'
  coherent : r.Coherent

variable {T : PortTree PublicKey PeerPort} {u v d : PublicKey} {r r' : Router}

theorem Caches.sees (h : Caches r r') (hr : Sees T v r) : Sees T v r' := by
  have hlinked : ∀ u, r'.Linked u ↔ r.Linked u := fun u => by rw [Linked, Linked, h.peers]
  constructor
  · rw [h.crypto]
    exact hr.key_eq
  · exact fun u hu => hr.linked_mem u ((hlinked u).mp hu)
  · exact fun hv => (hlinked _).mpr (hr.parent_linked hv)
  · exact fun u hu hne hp => (hlinked u).mpr (hr.child_linked u hu hne hp)
  · rw [h.infos]
    exact fun u hu => hr.knows u (hu.imp_right (hlinked u).mp)
  · rw [h.peers]
    exact hr.entry_eq
  · rw [h.peers]
    exact hr.id_inj
  · exact h.coherent hr.coherent

/-! ## Coordinates -/

theorem rootWalk_eq {infos : HashMap PublicKey RouterInfo} (hu : u ∈ T.nodes)
    (hknows : ∀ n, ∃ info, infos.lookup (T.parent^[n] u) = some info ∧ info.parent = T.parent (T.parent^[n] u) ∧
      info.port = T.port (T.parent^[n] u)) :
    ∀ (fuel : Nat) (visited : List PublicKey) (ports : List PeerPort), T.depth u < fuel →
      (∀ w ∈ visited, T.depth u < T.depth w) →
      rootWalk infos fuel u visited ports = some { root := T.root, path := T.coords u ++ ports } := by
  refine T.induct (motive := fun u => (∀ n, ∃ info, infos.lookup (T.parent^[n] u) = some info ∧
    info.parent = T.parent (T.parent^[n] u) ∧ info.port = T.port (T.parent^[n] u)) →
    ∀ (fuel : Nat) (visited : List PublicKey) (ports : List PeerPort), T.depth u < fuel →
      (∀ w ∈ visited, T.depth u < T.depth w) →
      rootWalk infos fuel u visited ports = some { root := T.root, path := T.coords u ++ ports }) ?_ ?_ u hu hknows
  · intro hknows fuel visited ports hfuel hvisited
    obtain ⟨info, hinfo, hparent, -⟩ := hknows 0
    have hnew : T.root ∉ visited := fun hmem => lt_irrefl _ (hvisited _ hmem)
    have hself : T.root = info.parent := T.parent_root.symm.trans hparent.symm
    cases fuel with
    | zero => exact absurd hfuel (Nat.not_lt_zero _)
    | succ fuel =>
      rw [rootWalk, if_neg hnew]
      change infos.lookup T.root = some info at hinfo
      simp only [hinfo]
      rw [if_pos hself, coords_root, nil_append]
  intro u hu hne ih hknows fuel visited ports hfuel hvisited
  obtain ⟨info, hinfo, hparent, hport⟩ := hknows 0
  have hnew : u ∉ visited := fun hmem => lt_irrefl _ (hvisited _ hmem)
  have hdepth := depth_of_ne_root hu hne
  change infos.lookup u = some info at hinfo
  change info.parent = T.parent u at hparent
  change info.port = T.port u at hport
  have hself : u ≠ info.parent := by
    rw [hparent]
    intro heq
    rw [← heq] at hdepth
    omega
  cases fuel with
  | zero => exact absurd hfuel (Nat.not_lt_zero _)
  | succ fuel =>
    rw [rootWalk, if_neg hnew]
    simp only [hinfo]
    rw [if_neg hself, hparent, hport, ih (fun n => hknows (n + 1)) fuel (u :: visited) _ (by omega),
      coords_of_ne_root hu hne, append_assoc, singleton_append]
    intro w hw
    rcases mem_cons.mp hw with rfl | hw
    · omega
    have := hvisited w hw
    omega

theorem distLoop_eq (x y : List PeerPort) (a : Nat) :
    distLoop x y (x.length + y.length + a).toUInt64 = (pathDist x y + a).toUInt64 := by
  induction x generalizing y with
  | nil =>
    rw [pathDist_nil_left, length_nil, Nat.zero_add]
    cases y <;> rfl
  | cons p x ih =>
    cases y with
    | nil =>
      rw [pathDist_nil_right, length_nil, Nat.add_zero]
      rfl
    | cons q y =>
      rw [distLoop, pathDist]
      split
      · rw [← ih y, length_cons, length_cons]
        simp only [Nat.toUInt64_eq, ofNat_add]
        grind
      rw [length_cons, length_cons]
      congr 1
      omega

namespace Sees
variable (hr : Sees T v r) (hv : v ∈ T.nodes)
include hr hv

theorem mem_nodes (hu : u = v ∨ r.Linked u) : u ∈ T.nodes := by
  rcases hu with rfl | hu
  · exact hv
  · exact hr.linked_mem u hu

theorem coordsOf_eq (hu : u = v ∨ r.Linked u) : r.coordsOf u = { root := T.root, path := T.coords u } := by
  have hwalk := rootWalk_eq (hr.mem_nodes hv hu) (hr.knows u hu) (r.infos.keys.length + 1 + T.depth u) [] []
    (by omega) (fun w hw => absurd hw not_mem_nil)
  rw [hr.coherent.coordsOf, r.getRootAndPath_eq u (T.depth u), hwalk, getD_some, append_nil]

theorem dist_eq (hu : u = v ∨ r.Linked u) (path : List PeerPort) :
    r.dist path u = (pathDist (T.coords u) path).toUInt64 := by
  have hroot : ∃ info, r.infos.lookup T.root = some info ∧ info.parent = T.root := by
    obtain ⟨n, hn⟩ := T.reaches u (hr.mem_nodes hv hu)
    obtain ⟨info, hinfo, hparent, -⟩ := hr.knows u hu n
    rw [hn] at hinfo hparent
    exact ⟨info, hinfo, hparent.trans T.parent_root⟩
  obtain ⟨info, hinfo, hparent⟩ := hroot
  have hloop := distLoop_eq (T.coords u) path 0
  simp only [dist, hr.coordsOf_eq hv hu, hr.key_eq, hr.coordsOf_eq hv (.inl rfl), hinfo, all_some, hparent]
  simpa using hloop

end Sees

/-! ## Next hops -/

theorem Sees.owner_eq (hr : Sees T v r) {conns : HashMap PeerId PeerEntry} {id : PeerId}
    (hconns : r.peers.lookup u = some conns) (hid : (conns.lookup id).isSome) : r.owner id = some u := by
  have hfound : (r.peers.toList.find? fun c => (c.2.lookup id).isSome).isSome :=
    find?_isSome.mpr ⟨(u, conns), mem_toList.mpr hconns, hid⟩
  obtain ⟨⟨k, conns'⟩, hk⟩ := isSome_iff_exists.mp hfound
  have hconns' := mem_toList.mp (mem_of_find?_eq_some hk)
  have hid' := find?_some hk
  rw [owner, hk, hr.id_inj k u conns' conns id hconns' hconns hid' hid]
  rfl

section Next
variable (hr : Sees T v r) (hv : v ∈ T.nodes) (hd : d ∈ T.nodes)
  (hlen : ∀ u ∈ T.nodes, (T.coords u).length < 2 ^ 60)
include hr hv hd hlen

theorem Sees.toNat_dist (hu : u = v ∨ r.Linked u) :
    (r.dist (T.coords d) u).toNat = pathDist (T.coords u) (T.coords d) := by
  have hle := pathDist_le (T.coords u) (T.coords d)
  have hu' := hlen u (hr.mem_nodes hv hu)
  have hd' := hlen d hd
  rw [hr.dist_eq hv hu]
  exact toNat_ofNat_of_lt' (by rw [UInt64.size]; omega)

omit hd hlen in
theorem Sees.lookup_here (w : UInt64) : (r.lookup (T.coords v) w).peerId = none := by
  have h := r.lookup_coordsOf_self w
  rwa [hr.key_eq, hr.coordsOf_eq hv (.inl rfl)] at h

theorem Sees.lookup_next (hne : v ≠ d) {w : UInt64} (hw : pathDist (T.coords v) (T.coords d) < w.toNat) :
    ∃ id u, (r.lookup (T.coords d) w).peerId = some id ∧ r.owner id = some u ∧ u ∈ T.nodes ∧
      pathDist (T.coords u) (T.coords d) < pathDist (T.coords v) (T.coords d) ∧
      (r.lookup (T.coords d) w).watermark.toNat = pathDist (T.coords v) (T.coords d) := by
  have hself := hr.toNat_dist hv hd hlen (.inl rfl)
  -- the parent or a child is a candidate
  obtain ⟨u, hu, hnext, hcloser⟩ := exists_closer hv hd hne
  have hlinked : r.Linked u := by
    rcases hnext with ⟨hroot, rfl⟩ | ⟨hroot, hparent⟩
    · exact hr.parent_linked hroot
    · exact hr.child_linked u hu hroot hparent
  obtain ⟨conns, id, entry, hconns, hentry⟩ := hlinked
  have hcandidate : entry ∈ r.candidates (T.coords d) (r.dist (T.coords d) r.crypto.publicKey) r.peers.keys := by
    refine mem_candidates.mpr ⟨u, conns, id, hconns, hentry, ?_⟩
    rw [hr.key_eq, lt_iff_toNat_lt, hself, hr.toNat_dist hv hd hlen (.inr ⟨conns, id, entry, hconns, hentry⟩)]
    omega
  -- whichever candidate is chosen is closer
  obtain ⟨best, hbest, hmem⟩ := exists_bestFor (ne_nil_of_mem hcandidate)
  obtain ⟨k, conns', id', hconns', hid', hlt⟩ := mem_candidates.mp hmem
  have hlinked' : r.Linked k := ⟨conns', id', best.peer, hconns', hid'⟩
  have hlookup : (r.lookup (T.coords d) w).peerId = some best.peer.id := by
    rw [lookup_peerId, if_neg, hbest]
    · rfl
    rw [hr.key_eq, ge_iff_le, le_iff_toNat_le, hself]
    omega
  refine ⟨best.peer.id, k, hlookup, ?_, hr.linked_mem k hlinked', ?_, ?_⟩
  · rw [(hr.entry_eq k conns' id' best.peer hconns' hid').2]
    exact hr.owner_eq hconns' (by rw [hid']; rfl)
  · rwa [hr.key_eq, lt_iff_toNat_lt, hself, hr.toNat_dist hv hd hlen (.inr hlinked')] at hlt
  · rw [(lookup_watermark hlookup).1, hr.key_eq, hself]

end Next

/-! ## The way of a packet -/

/-- A node on the way of a packet: the router and the packet as they meet, and what `route_traffic` returns. -/
structure Visit where
  node : PublicKey
  router : Router
  packet : TrafficPacket
  actions : List RouterAction

def Visit.Broken (x : Visit) : Prop :=
  (x.router.lookup x.packet.path x.packet.watermark).peerId = none ∧ x.packet.dest ≠ x.router.crypto.publicKey

/-- Hand the packet to the router of `v`, then to the owner of each connection it is sent to. -/
def travel (env : Env) (clk : PublicKey → Clock) : Nat → (PublicKey → Router) → PublicKey → TrafficPacket → List Visit
  | 0, _, _, _ => []
  | fuel + 1, routers, v, tr =>
    let o := routeTraffic env (clk v) (routers v) tr
    let visit : Visit := { node := v, router := routers v, packet := tr, actions := o.actions }
    match o.actions with
    | [.sendTraffic id tr'] =>
      match (routers v).owner id with
      | some u => visit :: travel env clk fuel (Function.update routers v o.router) u tr'
      | none => [visit]
    | _ => [visit]

/-- The visits end with the delivery of the packet at `d`, within so many hops, and none finds the path broken. -/
structure Arrives (d : PublicKey) (tr : TrafficPacket) (hops : Nat) (visits : List Visit) : Prop where
  delivered : ∃ last, visits.getLast? = some last ∧ last.node = d ∧ .deliverTraffic last.packet ∈ last.actions ∧
    last.packet = { tr with watermark := last.packet.watermark }
  length_le : visits.length ≤ hops + 1
  unbroken : ∀ x ∈ visits, ¬ x.Broken

theorem Arrives.cons {tr tr' : TrafficPacket} {m n : Nat} {visits : List Visit} {x : Visit} (h : Arrives d tr' m visits)
    (hpacket : tr' = { tr with watermark := tr'.watermark }) (hlt : m < n) (hx : ¬ x.Broken) :
    Arrives d tr n (x :: visits) := by
  obtain ⟨last, hlast, hnode, hdeliver, hsame⟩ := h.delivered
  refine ⟨⟨last, ?_, hnode, hdeliver, ?_⟩, ?_, ?_⟩
  · rw [getLast?_cons, hlast]
    rfl
  · rw [hpacket] at hsame
    exact hsame
  · have hle := h.length_le
    rw [length_cons]
    omega
  intro y hy
  rcases mem_cons.mp hy with rfl | hy
  · exact hx
  · exact h.unbroken y hy

/-- Each hop is closer, so the packet arrives. -/
theorem travel_arrives (env : Env) (clk : PublicKey → Clock) (hd : d ∈ T.nodes)
    (hlen : ∀ u ∈ T.nodes, (T.coords u).length < 2 ^ 60) (fuel : Nat) :
    ∀ (routers : PublicKey → Router) (v : PublicKey) (tr : TrafficPacket), (∀ u ∈ T.nodes, Sees T u (routers u)) →
      v ∈ T.nodes → tr.dest = d → tr.path = T.coords d →
      pathDist (T.coords v) (T.coords d) < tr.watermark.toNat → pathDist (T.coords v) (T.coords d) < fuel →
      Arrives d tr (pathDist (T.coords v) (T.coords d)) (travel env clk fuel routers v tr) := by
  induction fuel with
  | zero =>
    intro routers v tr _ _ _ _ _ hfuel
    exact absurd hfuel (Nat.not_lt_zero _)
  | succ fuel ih =>
    intro routers v tr hsees hv hdest hpath hw hfuel
    have hr := hsees v hv
    by_cases hne : v = d
    · subst hne
      have hhere : ((routers v).lookup tr.path tr.watermark).peerId = none := by
        rw [hpath]
        exact hr.lookup_here hv tr.watermark
      have hkey : tr.dest = (routers v).crypto.publicKey := hdest.trans hr.key_eq.symm
      have hactions := routeTraffic_of_here env (clk v) hhere hkey
      simp only [travel, hactions]
      refine ⟨⟨_, rfl, rfl, ?_, rfl⟩, by simp, ?_⟩
      · simp
      intro x hx
      rw [mem_singleton.mp hx]
      exact fun hbroken => hbroken.2 hkey
    obtain ⟨id, u, hnext, howner, hu, hcloser, hmark⟩ := hr.lookup_next hv hd hlen hne hw
    have hnext' : ((routers v).lookup tr.path tr.watermark).peerId = some id := by
      rw [hpath]
      exact hnext
    have hmark' : ((routers v).lookup tr.path tr.watermark).watermark.toNat = pathDist (T.coords v) (T.coords d) := by
      rw [hpath]
      exact hmark
    have hroute := routeTraffic_of_next env (clk v) hnext'
    have hsees' : ∀ x ∈ T.nodes, Sees T x
        (Function.update routers v ((routers v).lookup tr.path tr.watermark).router x) := by
      intro x hx
      by_cases hxv : x = v
      · rw [hxv, Function.update_self]
        exact ((routers v).lookup_caches tr.path tr.watermark).sees hr
      rw [Function.update_of_ne hxv]
      exact hsees x hx
    have hrest := ih _ u { tr with watermark := ((routers v).lookup tr.path tr.watermark).watermark } hsees' hu hdest
      hpath (hcloser.trans_eq hmark'.symm) (by omega)
    simp only [travel, hroute, howner]
    exact hrest.cons rfl hcloser fun hbroken => absurd (hnext'.symm.trans hbroken.1) (by simp)

/-- Routers that agree on one tree. -/
structure Network where
  tree : PortTree PublicKey PeerPort
  router : PublicKey → Router
  key_eq : ∀ v ∈ tree.nodes, (router v).crypto.publicKey = v
  linked_mem : ∀ v ∈ tree.nodes, ∀ u, (router v).Linked u → u ∈ tree.nodes
  linked_symm : ∀ v ∈ tree.nodes, ∀ u ∈ tree.nodes, (router v).Linked u → (router u).Linked v
  parent_linked : ∀ v ∈ tree.nodes, v ≠ tree.root → (router v).Linked (tree.parent v)
  /-- A node knows the ancestries of itself and of its connected peers. -/
  knows : ∀ v ∈ tree.nodes, ∀ u, u = v ∨ (router v).Linked u → ∀ n, ∃ info,
    (router v).infos.lookup (tree.parent^[n] u) = some info ∧ info.parent = tree.parent (tree.parent^[n] u) ∧
      info.port = tree.port (tree.parent^[n] u)
  /-- A connection is listed under its own key and id, and no id is used twice. -/
  entry_eq : ∀ v ∈ tree.nodes, ∀ k conns id e, (router v).peers.lookup k = some conns → conns.lookup id = some e →
    e.key = k ∧ e.id = id
  id_inj : ∀ v ∈ tree.nodes, ∀ k k' conns conns' id, (router v).peers.lookup k = some conns →
    (router v).peers.lookup k' = some conns' → (conns.lookup id).isSome → (conns'.lookup id).isSome → k = k'
  coherent : ∀ v ∈ tree.nodes, (router v).Coherent
  length_lt : ∀ v ∈ tree.nodes, (tree.coords v).length < 2 ^ 60

theorem Network.sees (net : Network) (hv : v ∈ net.tree.nodes) : Sees net.tree v (net.router v) where
  key_eq := net.key_eq v hv
  linked_mem := net.linked_mem v hv
  parent_linked := net.parent_linked v hv
  child_linked u hu hne hp := net.linked_symm u hu v hv (hp ▸ net.parent_linked u hu hne)
  knows := net.knows v hv
  entry_eq := net.entry_eq v hv
  id_inj := net.id_inj v hv
  coherent := net.coherent v hv

/-- A packet with the coordinates of `d` and the largest watermark, handed to `route_traffic` at `s` and at each chosen
hop, is delivered at `d` after at most `treedist s d` hops, and no path is found broken. -/
theorem greedy_delivery (net : Network) (env : Env) (clk : PublicKey → Clock) {s d : PublicKey}
    (hs : s ∈ net.tree.nodes) (hd : d ∈ net.tree.nodes) (tr : TrafficPacket) (hdest : tr.dest = d)
    (hpath : tr.path = ((net.router d).getRootAndPath d).path) (hw : tr.watermark = u64Max) {fuel : Nat}
    (hfuel : net.tree.treedist s d < fuel) :
    Arrives d tr (net.tree.treedist s d) (travel env clk fuel net.router s tr) := by
  have hseesd := net.sees hd
  have hcoords : ((net.router d).getRootAndPath d).path = net.tree.coords d := by
    rw [← hseesd.coherent.coordsOf, hseesd.coordsOf_eq hd (.inl rfl)]
  have hle := pathDist_le_treedist hs hd
  have hbound := pathDist_le (net.tree.coords s) (net.tree.coords d)
  have hlens := net.length_lt s hs
  have hlend := net.length_lt d hd
  have hmark : pathDist (net.tree.coords s) (net.tree.coords d) < tr.watermark.toNat := by
    rw [hw]
    show _ < 18446744073709551615
    omega
  have harrives := travel_arrives env clk hd net.length_lt fuel net.router s tr (fun u hu => net.sees hu) hs hdest
    (hpath.trans hcoords) hmark (hle.trans_lt hfuel)
  exact ⟨harrives.delivered, harrives.length_le.trans (Nat.add_le_add_right hle 1), harrives.unbroken⟩

/-! ## A network of two nodes -/

def pairTree : PortTree PublicKey PeerPort where
  nodes := {1, 2}
  root := 1
  parent := fun _ => 1
  port := fun _ => 5
  root_mem := Finset.mem_insert_self 1 _
  parent_root := rfl
  parent_mem := fun _ _ => Finset.mem_insert_self 1 _
  reaches := fun _ _ => ⟨1, rfl⟩
  port_inj u hu v hv hne hne' _ _ := by
    rw [Finset.mem_insert, Finset.mem_singleton] at hu hv
    rw [hu.resolve_left hne, hv.resolve_left hne']

theorem mem_pairTree : v ∈ pairTree.nodes ↔ v = 1 ∨ v = 2 := by
  simp only [pairTree, Finset.mem_insert, Finset.mem_singleton]

theorem other_mem_pairTree (hv : v ∈ pairTree.nodes) : 3 - v ∈ pairTree.nodes := by
  rcases mem_pairTree.mp hv with rfl | rfl
  · exact mem_pairTree.mpr (.inr (by decide +kernel))
  · exact mem_pairTree.mpr (.inl (by decide +kernel))

def pairRouter (v : PublicKey) : Router :=
  { new ⟨v, fun _ => 0⟩ ⟨0, 0, none⟩ with
    infos := ((∅ : HashMap PublicKey RouterInfo).insert 1 ⟨1, 1, 1, 5, 0, 0⟩).insert 2 ⟨1, 1, 1, 5, 0, 0⟩
    peers := (∅ : HashMap PublicKey (HashMap PeerId PeerEntry)).insert (3 - v)
      ((∅ : HashMap PeerId PeerEntry).insert 7 ⟨7, 3 - v, 5, 0, 0⟩) }

theorem lookup_pairRouter {k : PublicKey} {conns : HashMap PeerId PeerEntry} :
    (pairRouter v).peers.lookup k = some conns ↔
      k = 3 - v ∧ conns = (∅ : HashMap PeerId PeerEntry).insert 7 ⟨7, 3 - v, 5, 0, 0⟩ := by
  rw [pairRouter, lookup_insert, lookup_empty, ite_none_right_eq_some, some.injEq, eq_comm (a := conns)]

theorem linked_pairRouter : (pairRouter v).Linked u ↔ u = 3 - v := by
  simp only [Linked, lookup_pairRouter]
  constructor
  · rintro ⟨conns, id, entry, ⟨rfl, -⟩, -⟩
    rfl
  rintro rfl
  exact ⟨_, 7, _, ⟨rfl, rfl⟩, rfl⟩

theorem infos_pairRouter (hu : u ∈ pairTree.nodes) : (pairRouter v).infos.lookup u = some ⟨1, 1, 1, 5, 0, 0⟩ := by
  simp only [pairRouter, lookup_insert]
  rcases mem_pairTree.mp hu with rfl | rfl
  · rw [if_neg (by decide +kernel), if_pos rfl]
  · rw [if_pos rfl]

def pairNetwork : Network where
  tree := pairTree
  router := pairRouter
  key_eq _ _ := rfl
  linked_mem v hv u hu := by
    rw [linked_pairRouter.mp hu]
    exact other_mem_pairTree hv
  linked_symm v _ u _ h := by
    rw [linked_pairRouter] at h ⊢
    rw [h, sub_sub_cancel]
  parent_linked v hv hne := by
    rw [linked_pairRouter, (mem_pairTree.mp hv).resolve_left hne]
    decide +kernel
  knows v hv u hu n := by
    have hmem : pairTree.parent^[n] u ∈ pairTree.nodes := by
      cases n with
      | succ n =>
        rw [Function.iterate_succ_apply']
        exact pairTree.root_mem
      | zero =>
        rcases hu with rfl | hu
        · exact hv
        rw [linked_pairRouter.mp hu]
        exact other_mem_pairTree hv
    exact ⟨_, infos_pairRouter hmem, rfl, rfl⟩
  entry_eq v _ k conns id e hconns he := by
    obtain ⟨rfl, rfl⟩ := lookup_pairRouter.mp hconns
    rw [lookup_insert, lookup_empty, ite_none_right_eq_some, some.injEq] at he
    obtain ⟨rfl, rfl⟩ := he
    exact ⟨rfl, rfl⟩
  id_inj v _ k k' conns conns' id hk hk' _ _ :=
    (lookup_pairRouter.mp hk).1.trans (lookup_pairRouter.mp hk').1.symm
  coherent v _ k rp h := absurd h (by simp [pairRouter, new])
  length_lt v hv := by
    by_cases hroot : v = pairTree.root
    · rw [hroot, coords_root]
      exact Nat.two_pow_pos 60
    rw [coords_of_ne_root hv hroot]
    show (pairTree.coords pairTree.root ++ [5]).length < 2 ^ 60
    rw [coords_root]
    exact Nat.one_lt_two_pow (by decide)

theorem treedist_pairTree : pairTree.treedist 1 2 ≤ 1 := by
  have hadj : pairTree.graph.Adj 1 2 :=
    ⟨by decide +kernel, mem_pairTree.mpr (.inl rfl), mem_pairTree.mpr (.inr rfl), .inr rfl⟩
  exact SimpleGraph.dist_le hadj.toWalk

theorem greedy_delivery_pair : Arrives 2 { TrafficPacket.new 1 2 [0] with path := [5] } (pairTree.treedist 1 2)
      (travel ⟨fun _ _ _ => true, fun _ => 0⟩ (fun _ => ⟨0, 0⟩) 2 pairRouter 1
        { TrafficPacket.new 1 2 [0] with path := [5] }) :=
  greedy_delivery pairNetwork ⟨fun _ _ _ => true, fun _ => 0⟩ (fun _ => ⟨0, 0⟩) (mem_pairTree.mpr (.inl rfl))
    (mem_pairTree.mpr (.inr rfl)) { TrafficPacket.new 1 2 [0] with path := [5] } rfl (by decide +kernel) rfl
    (Nat.lt_succ_of_le treedist_pairTree)

end Yggdrasil.Router
