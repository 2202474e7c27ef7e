import Mathlib.Data.List.Sort
import Yggdrasil.Base.HashMap
import Yggdrasil.Base.Run

/-!
# Configured peers and their sockets

`add_peer` and `remove_peer` of `links.rs`, as far as they keep two peers from having one socket. What is read from a
URI (`target`, `options`) and the answers of the DNS (`lookupHost`, by the host only) are parameters.

`add_peer` looks for every address of the newcomer, but it files a peer under its first address only.
-/

namespace Yggdrasil.Links
open List

/-- Reading URIs, and the answers of the DNS. -/
structure Names (Addr : Type) where
  target : String → Except String String
  lookupHost : String → List Addr
  options : String → Except String Unit
  toString : Addr → String

structure Peers (Addr : Type) where
  peers : List String
  peerAddrs : HashMap Addr String

inductive Op
  | addPeer (uri : String)
  | removePeer (uri : String)

variable {Addr : Type} [LinearOrder Addr] (names : Names Addr) {self self' : Peers Addr} {uri : String}

def Peers.new : Peers Addr := { peers := [], peerAddrs := ∅ }

def addPeer (self : Peers Addr) (uri : String) : Except String (Peers Addr) :=
  if uri ∈ self.peers then .error "peer already exists"
  else do
    let target ← names.target uri
    let resolved := (names.lookupHost target).insertionSort (· ≤ ·)
    match resolved.findSome? fun addr => (self.peerAddrs.lookup addr).map fun existing => (addr, existing) with
    | some (addr, existing) =>
      .error ("peer " ++ uri ++ " already connected as " ++ existing ++ " (resolves to same address " ++
        names.toString addr ++ ")")
    | none =>
      names.options uri
      return {
        peers := uri :: self.peers,
        peerAddrs := resolved.head?.elim self.peerAddrs (self.peerAddrs.insert · uri) }

def removePeer (self : Peers Addr) (uri : String) : Except String (Peers Addr) :=
  if uri ∈ self.peers then
    .ok { peers := self.peers.filter (· ≠ uri), peerAddrs := self.peerAddrs.retain fun _ v => v ≠ uri }
  else .error "peer not found"

/-- A call that fails changes nothing. -/
def exec (self : Peers Addr) : Op → Peers Addr
  | .addPeer uri => (addPeer names self uri).toOption.getD self
  | .removePeer uri => (removePeer self uri).toOption.getD self

def addrs (uri : String) : List Addr := (names.target uri).toOption.elim [] names.lookupHost

def Disjoint (self : Peers Addr) : Prop :=
  ∀ u ∈ self.peers, ∀ v ∈ self.peers, u ≠ v → ∀ a ∈ addrs names u, a ∉ addrs names v

/-- A newcomer that shares an address with a peer has an address under which a peer is filed. -/
def Detected (self : Peers Addr) : Op → Prop
  | .addPeer uri => ∀ v ∈ self.peers, ∀ a ∈ addrs names uri, a ∈ addrs names v →
      ∃ a ∈ addrs names uri, (self.peerAddrs.lookup a).isSome
  | .removePeer _ => True

instance Detected.decidable (self : Peers Addr) : ∀ op, Decidable (Detected names self op)
  | .addPeer uri => inferInstanceAs (Decidable (∀ v ∈ self.peers, ∀ a ∈ addrs names uri, a ∈ addrs names v →
      ∃ a ∈ addrs names uri, (self.peerAddrs.lookup a).isSome))
  | .removePeer _ => isTrue trivial

structure Inv (links : Peers Addr) : Prop where
  filed : ∀ a v, links.peerAddrs.lookup a = some v → v ∈ links.peers ∧ a ∈ addrs names v
  disjoint : Disjoint names links

theorem addPeer_ok (h : addPeer names self uri = .ok self') : uri ∉ self.peers ∧ self'.peers = uri :: self.peers ∧
    (∀ a ∈ addrs names uri, self.peerAddrs.lookup a = none) ∧
      ∀ a v, self'.peerAddrs.lookup a = some v → self.peerAddrs.lookup a = some v ∨ v = uri ∧ a ∈ addrs names uri := by
  unfold addPeer at h
  split at h
  · cases h
  next hnew =>
    cases htarget : names.target uri with
    | error e =>
      rw [htarget] at h
      cases h
    | ok target =>
      have haddrs : addrs names uri = names.lookupHost target := by
        unfold addrs
        rw [htarget]
        rfl
      rw [htarget] at h
      dsimp only [bind, Except.bind] at h
      split at h
      · cases h
      next hfree =>
        cases hoptions : names.options uri with
        | error e =>
          rw [hoptions] at h
          cases h
        | ok _ =>
          rw [hoptions] at h
          obtain rfl := Except.ok.inj h
          rw [findSome?_eq_none_iff] at hfree
          refine ⟨hnew, rfl, fun a ha => ?_, fun a v hv => ?_⟩
          · rw [haddrs] at ha
            simpa using hfree a ((mem_insertionSort _).mpr ha)
          cases hfirst : ((names.lookupHost target).insertionSort (· ≤ ·)).head? with
          | none => exact Or.inl (by simpa [hfirst] using hv)
          | some first =>
            simp only [hfirst, Option.elim_some, HashMap.lookup_insert] at hv
            split at hv
            next heq =>
              have hmem := mem_of_head? hfirst
              rw [mem_insertionSort] at hmem
              exact Or.inr ⟨(Option.some.inj hv).symm, by rwa [haddrs, heq]⟩
            · exact Or.inl hv

omit [LinearOrder Addr] in
theorem removePeer_ok (h : removePeer self uri = .ok self') :
    self' = { peers := self.peers.filter (· ≠ uri), peerAddrs := self.peerAddrs.retain fun _ v => v ≠ uri } := by
  unfold removePeer at h
  split at h
  · exact (Except.ok.inj h).symm
  · cases h

theorem addPeer_disjoint_iff (h : Inv names self) (hadd : addPeer names self uri = .ok self') :
    Disjoint names self' ↔ Detected names self (.addPeer uri) := by
  obtain ⟨hnew, hpeers, hfree, -⟩ := addPeer_ok names hadd
  constructor
  · intro hdisjoint v hv a ha hav
    have hne : uri ≠ v := fun heq => hnew (heq ▸ hv)
    exact absurd hav (hdisjoint uri (by simp [hpeers]) v (by simp [hpeers, hv]) hne a ha)
  intro hdetected
  have hapart : ∀ v ∈ self.peers, ∀ a ∈ addrs names uri, a ∉ addrs names v := by
    intro v hv a ha hav
    obtain ⟨b, hb, hfiled⟩ := hdetected v hv a ha hav
    rw [hfree b hb] at hfiled
    cases hfiled
  intro u hu v hv hne a hau hav
  rw [hpeers, mem_cons] at hu hv
  rcases hu with rfl | hu
  · exact hapart v (hv.resolve_left hne.symm) a hau hav
  rcases hv with rfl | hv
  · exact hapart u hu a hav hau
  · exact h.disjoint u hu v hv hne a hau hav

theorem Inv.step {op : Op} (h : Inv names self) (hdetected : Detected names self op) :
    Inv names (exec names self op) := by
  cases op with
  | addPeer uri =>
    show Inv names ((addPeer names self uri).toOption.getD self)
    cases hadd : addPeer names self uri with
    | error e => exact h
    | ok self' =>
      refine ⟨fun a v hv => ?_, (addPeer_disjoint_iff names h hadd).mpr hdetected⟩
      obtain ⟨-, hpeers, -, hfiled⟩ := addPeer_ok names hadd
      show v ∈ self'.peers ∧ _
      rw [hpeers]
      rcases hfiled a v hv with hv | ⟨rfl, ha⟩
      · exact ⟨mem_cons_of_mem _ (h.filed a v hv).1, (h.filed a v hv).2⟩
      · exact ⟨mem_cons_self, ha⟩
  | removePeer uri =>
    show Inv names ((removePeer self uri).toOption.getD self)
    cases hremove : removePeer self uri with
    | error e => exact h
    | ok self' =>
      obtain rfl := removePeer_ok hremove
      refine ⟨fun a v hv => ?_, fun u hu v hv => ?_⟩
      · obtain ⟨hold, hne⟩ := Option.filter_eq_some_iff.mp ((HashMap.lookup_retain _ _ _).symm.trans hv)
        obtain ⟨hmem, ha⟩ := h.filed a v hold
        exact ⟨mem_filter.mpr ⟨hmem, hne⟩, ha⟩
      · exact h.disjoint u (mem_filter.mp hu).1 v (mem_filter.mp hv).1

theorem Inv.run {ops : List Op} (h : Inv names self) (hops : Lts.Admitted (exec names) (Detected names) self ops) :
    Inv names (ops.foldl (exec names) self) := by
  induction ops generalizing self with
  | nil => exact h
  | cons op ops ih => exact ih (h.step names hops.1) hops.2

/-- If every newcomer with an address of a peer is detected, peers have disjoint addresses, and stay so after a further
call exactly if it is detected. A peer that is removed leaves no address behind. -/
theorem peers_disjoint {ops : List Op} (hops : Lts.Admitted (exec names) (Detected names) Peers.new ops) :
    Disjoint names (ops.foldl (exec names) Peers.new) ∧
    (∀ uri self', addPeer names (ops.foldl (exec names) Peers.new) uri = .ok self' →
      (Disjoint names self' ↔ Detected names (ops.foldl (exec names) Peers.new) (.addPeer uri))) ∧
    ∀ uri self', removePeer (ops.foldl (exec names) Peers.new) uri = .ok self' →
      ∀ a ∈ addrs names uri, self'.peerAddrs.lookup a = none := by
  have hinv : Inv names (ops.foldl (exec names) Peers.new) :=
    Inv.run names ⟨by simp [Peers.new], by simp [Disjoint, Peers.new]⟩ hops
  refine ⟨hinv.disjoint, fun uri self' hadd => addPeer_disjoint_iff names hinv hadd, fun uri self' hremove a ha => ?_⟩
  have hmem : uri ∈ (ops.foldl (exec names) Peers.new).peers := by
    by_contra hnot
    simp [removePeer, hnot] at hremove
  obtain rfl := removePeer_ok hremove
  refine Option.eq_none_iff_forall_ne_some.mpr fun v hv => ?_
  obtain ⟨hold, hne⟩ := Option.filter_eq_some_iff.mp ((HashMap.lookup_retain _ _ _).symm.trans hv)
  obtain ⟨hv, hav⟩ := hinv.filed a v hold
  exact hinv.disjoint v hv uri hmem (by simpa using hne) a hav ha

def twoHosts : Names Nat where
  target := .ok
  lookupHost host := if host = "a" then [1, 2] else if host = "c" then [3] else if host = "d" then [1] else [2]
  options _ := .ok ()
  toString := toString

def detectedOps : List Op := [.addPeer "a", .addPeer "c", .addPeer "d", .removePeer "a", .addPeer "d"]

/-- The third peer has the address under which the first is filed: refused, and accepted when that is removed. -/
theorem peers_disjoint_detected : (detectedOps.take 3).foldl (exec twoHosts) Peers.new =
      (detectedOps.take 2).foldl (exec twoHosts) Peers.new ∧
    (detectedOps.foldl (exec twoHosts) Peers.new).peers = ["d", "c"] ∧
    Disjoint twoHosts (detectedOps.foldl (exec twoHosts) Peers.new) :=
  ⟨rfl, by decide, (peers_disjoint twoHosts (by decide)).1⟩

/-- The second host is reached at an address of the first, under which that is not filed. -/
theorem shared_socket_accepted : ([.addPeer "a", .addPeer "b"].foldl (exec twoHosts) Peers.new).peers = ["b", "a"] ∧
      2 ∈ addrs twoHosts "a" ∧ 2 ∈ addrs twoHosts "b" := by
  decide

end Yggdrasil.Links
