import Yggdrasil.Base.Run
import Yggdrasil.Base.TreeSides
import Yggdrasil.Router.Filters

/-!
# Bloom filters in a tree of nodes

Nodes keep a table of filters each. In a tick a node computes a filter for each peer on the tree from its own key and
what the other peers on the tree sent, and sends it if it is new; a link keeps the order of its filters.
-/

namespace Yggdrasil
open Function Option HashMap Blooms

/-- Nodes with keys, joined in a tree. -/
structure TreeNet (V : Type) where
  graph : SimpleGraph V
  isTree : graph.IsTree
  key : V → PublicKey
  key_injective : Function.Injective key

structure BloomNet (V : Type) where
  tables : V → Blooms
  flight : V → V → List BloomFilter

/-! ## Runs -/

namespace BloomNet

inductive Event (V : Type) where
  /-- A node runs `do_maintenance` with what it knows of the tree. -/
  | tick (u : V) (selfParent : PublicKey) (infos : HashMap PublicKey PublicKey)
  | deliver (u v : V)

variable {V : Type} [DecidableEq V] (key : V → PublicKey) (env : Env) (transform : Option (PublicKey → PublicKey))

def exec (s : BloomNet V) : Event V → Option (BloomNet V)
  | .tick u selfParent infos =>
    match (s.tables u).doMaintenance env (key u) selfParent infos transform with
    | none => none
    | some o =>
      some { tables := Function.update s.tables u o.blooms
             flight := Function.update s.flight u fun v => s.flight u v ++ o.to (key v) }
  | .deliver u v =>
    match s.flight u v with
    | [] => none
    | filter :: rest =>
      some { tables := Function.update s.tables v ((s.tables v).handleBloom (key u) filter)
             flight := Function.update s.flight u (Function.update (s.flight u) v rest) }

/-- What was sent last over an edge is in flight or has arrived. -/
def Synced (s : BloomNet V) : Prop :=
  ∀ u v iu iv, (s.tables u).blooms.lookup (key v) = some iu → (s.tables v).blooms.lookup (key u) = some iv →
    (s.flight u v).getLastD iv.recv = iu.send

/-- Nothing is on its way, and any two nodes agree on what was sent, for example nothing. -/
structure Start (s : BloomNet V) : Prop where
  quiet : ∀ u v, s.flight u v = []
  agree : ∀ u v iu iv, (s.tables u).blooms.lookup (key v) = some iu → (s.tables v).blooms.lookup (key u) = some iv →
    iv.recv = iu.send

variable {key env transform} {s s' : BloomNet V}

omit [DecidableEq V] in
theorem Start.synced (h : Start key s) : Synced key s := by
  intro u v iu iv hu hv
  rw [h.quiet u v]
  exact h.agree u v iu iv hu hv

theorem exists_of_tick {b : Blooms} {ourKey selfParent : PublicKey} {infos : HashMap PublicKey PublicKey} {o : ToSend}
    (h : b.doMaintenance env ourKey selfParent infos transform = some o) {k : PublicKey} {info' : BloomInfo}
    (hinfo' : o.blooms.blooms.lookup k = some info') :
    ∃ info, b.blooms.lookup k = some info ∧ info'.recv = info.recv ∧ info'.send = (o.to k).getLastD info.send := by
  have hsent := doMaintenance_sent env h k
  rw [hinfo', map_some] at hsent
  obtain ⟨info, hinfo, heq⟩ := map_eq_some_iff.mp hsent.symm
  rw [Prod.mk.injEq] at heq
  exact ⟨info, hinfo, heq.1.symm, heq.2.symm⟩

theorem exists_of_handleBloom {b : Blooms} {peerKey k : PublicKey} {filter : BloomFilter} {info' : BloomInfo}
    (h : (b.handleBloom peerKey filter).blooms.lookup k = some info') :
    ∃ info, b.blooms.lookup k = some info ∧ info'.send = info.send ∧
      info'.recv = if k = peerKey then filter else info.recv := by
  rw [handleBloom, lookup_modify] at h
  obtain ⟨info, hinfo, rfl⟩ := map_eq_some_iff.mp h
  refine ⟨info, hinfo, ?_, ?_⟩ <;> split <;> rfl

theorem Synced.tick (h : Synced key s) {u : V} {selfParent : PublicKey} {infos : HashMap PublicKey PublicKey}
    {o : ToSend} (ho : (s.tables u).doMaintenance env (key u) selfParent infos transform = some o) :
    Synced key { tables := Function.update s.tables u o.blooms
                 flight := Function.update s.flight u fun v => s.flight u v ++ o.to (key v) } := by
  have hrecv : ∀ a k info', (update s.tables u o.blooms a).blooms.lookup k = some info' →
      ∃ info, (s.tables a).blooms.lookup k = some info ∧ info'.recv = info.recv := by
    intro a k info' hinfo'
    by_cases ha : a = u
    · subst ha
      rw [update_self] at hinfo'
      obtain ⟨info, hinfo, hrecv, -⟩ := exists_of_tick ho hinfo'
      exact ⟨info, hinfo, hrecv⟩
    rw [update_of_ne ha] at hinfo'
    exact ⟨info', hinfo', rfl⟩
  intro a b ia ib ha hb
  obtain ⟨ib₀, hb₀, hib⟩ := hrecv b _ ib hb
  rw [hib]
  by_cases hau : a = u
  · subst hau
    simp only [update_self] at ha ⊢
    obtain ⟨ia₀, ha₀, -, hsend⟩ := exists_of_tick ho ha
    rw [getLastD_append, h a b ia₀ ib₀ ha₀ hb₀, hsend]
  simp only [update_of_ne hau] at ha ⊢
  exact h a b ia ib₀ ha hb₀

theorem Synced.deliver (hkey : Function.Injective key) (h : Synced key s) {u v : V} {filter : BloomFilter}
    {rest : List BloomFilter} (hflight : s.flight u v = filter :: rest) :
    Synced key { tables := Function.update s.tables v ((s.tables v).handleBloom (key u) filter)
                 flight := Function.update s.flight u (Function.update (s.flight u) v rest) } := by
  have hentry : ∀ b a info', (update s.tables v ((s.tables v).handleBloom (key u) filter) b).blooms.lookup
      (key a) = some info' → ∃ info, (s.tables b).blooms.lookup (key a) = some info ∧ info'.send = info.send ∧
        info'.recv = if a = u ∧ b = v then filter else info.recv := by
    intro b a info' hinfo'
    by_cases hb : b = v
    · subst hb
      rw [update_self] at hinfo'
      obtain ⟨info, hinfo, hsend, hrecv⟩ := exists_of_handleBloom hinfo'
      simp only [hkey.eq_iff] at hrecv
      exact ⟨info, hinfo, hsend, by simp [hrecv]⟩
    rw [update_of_ne hb] at hinfo'
    exact ⟨info', hinfo', rfl, by simp [hb]⟩
  intro a b ia ib ha hb
  obtain ⟨ia₀, ha₀, hsend, -⟩ := hentry a b ia ha
  obtain ⟨ib₀, hb₀, -, hrecv⟩ := hentry b a ib hb
  have hsync := h a b ia₀ ib₀ ha₀ hb₀
  rw [hsend, hrecv, ← hsync]
  by_cases hau : a = u
  · subst hau
    by_cases hbv : b = v
    · subst hbv
      simp only [update_self, and_self, if_true, hflight]
      exact (getLastD_append [filter] rest ib₀.recv).symm
    · simp [hbv]
  · simp [hau]

theorem Synced.exec {e : Event V} (hkey : Function.Injective key) (h : Synced key s)
    (hexec : s.exec key env transform e = some s') : Synced key s' := by
  cases e with
  | tick u selfParent infos =>
    rw [BloomNet.exec] at hexec
    split at hexec
    · cases hexec
    next o ho =>
      cases hexec
      exact h.tick ho
  | deliver u v =>
    rw [BloomNet.exec] at hexec
    split at hexec
    · cases hexec
    next filter rest hflight =>
      cases hexec
      exact h.deliver hkey hflight

end BloomNet

/-! ## Passes that change nothing -/

theorem BloomInfo.send_of_still {held : BloomFilter} {info : BloomInfo} (h : (info.next held).send = info.send)
    (h' : ((info.next held).next held).send = info.send) : info.send = held := by
  simp only [next, advertised] at h h'
  cases hdirty : info.zDirty with
  | true =>
    rw [hdirty, if_pos rfl] at h
    exact h.symm
  | false =>
    simp only [hdirty, Bool.false_eq_true, if_false] at h
    simp only [hdirty, Bool.false_eq_true, if_false, Bool.not_false, Bool.true_and, decide_eq_true_eq] at h'
    split at h'
    · exact h'.symm
    next hclean => exact h.symm.trans (not_not.mp hclean)

namespace TreeNet
variable {V : Type} (T : TreeNet V) (env : Env) (transform : Option (PublicKey → PublicKey))

def ownFilter (u : V) : BloomFilter := BloomFilter.ofKey env (keyBytes (Blooms.xKey (T.key u) transform))

def Marks (u : V) (b : Blooms) : Prop :=
  ∀ k, (∃ info, b.blooms.lookup k = some info ∧ info.onTree = true) ↔ ∃ w, T.graph.Adj u w ∧ T.key w = k

/-- A maintenance pass of `u` with a parent and infos that make exactly its neighbours on the tree. -/
def Pass (u : V) (b : Blooms) (o : ToSend) : Prop :=
  ∃ selfParent infos, b.doMaintenance env (T.key u) selfParent infos transform = some o ∧
    ∀ k info, b.blooms.lookup k = some info →
      (onTree (T.key u) selfParent infos k = true ↔ ∃ w, T.graph.Adj u w ∧ T.key w = k)

def SameSends (b b' : Blooms) : Prop :=
  ∀ k, (b.blooms.lookup k).map BloomInfo.send = (b'.blooms.lookup k).map BloomInfo.send

/-- Nothing is on its way, and two further passes of any node change no filter that is sent. -/
structure Quiescent (s : BloomNet V) : Prop where
  quiet : ∀ u v, s.flight u v = []
  still : ∀ u, ∃ o o', T.Pass env transform u (s.tables u) o ∧ T.Pass env transform u o.blooms o' ∧
    SameSends (s.tables u) o.blooms ∧ SameSends (s.tables u) o'.blooms

variable {T env transform}
variable {u v : V} {b : Blooms} {o : ToSend}

theorem Marks.exists_info (h : T.Marks u b) (hadj : T.graph.Adj u v) :
    ∃ info, b.blooms.lookup (T.key v) = some info ∧ info.onTree = true := (h (T.key v)).mpr ⟨v, hadj, rfl⟩

section
variable (h : T.Pass env transform u b o) (hmarks : T.Marks u b)
include h hmarks

theorem Pass.steady : Blooms.Steady env b (T.key u) transform o := by
  obtain ⟨selfParent, infos, ho, htree⟩ := h
  refine doMaintenance_steady env transform (fun k info hinfo => ?_) ho
  rw [Bool.eq_iff_iff, htree k info hinfo, ← hmarks k, hinfo]
  simp

theorem Pass.marks : T.Marks u o.blooms := by
  intro k
  rw [← hmarks k, (h.steady hmarks).lookup k]
  cases b.blooms.lookup k with
  | none => simp
  | some info =>
    simp only [map_some, some.injEq, exists_eq_left']
    split <;> simp [BloomInfo.next, *]

theorem Pass.heldFor
    (k : PublicKey) : o.blooms.heldFor env k (T.key u) transform = b.heldFor env k (T.key u) transform := by
  refine heldFor_congr env (fun k' => ?_) k (T.key u) transform
  rw [(h.steady hmarks).lookup k', map_map]
  refine congrArg (fun f => Option.map f _) (funext fun info => ?_)
  rw [comp_apply]
  split <;> rfl

end

theorem Quiescent.send_eq {s : BloomNet V} (h : T.Quiescent env transform s) (hmarks : ∀ u, T.Marks u (s.tables u))
    (hadj : T.graph.Adj u v) {info : BloomInfo} (hinfo : (s.tables u).blooms.lookup (T.key v) = some info) :
    info.send = (s.tables u).heldFor env (T.key v) (T.key u) transform := by
  obtain ⟨o, o', hpass, hpass', hsame, hsame'⟩ := h.still u
  obtain ⟨info', hinfo', htree⟩ := (hmarks u).exists_info hadj
  rw [hinfo, some.injEq] at hinfo'
  subst hinfo'
  have hnext := (hpass.steady (hmarks u)).lookup (T.key v)
  have hnext' := (hpass'.steady (hpass.marks (hmarks u))).lookup (T.key v)
  rw [hinfo, map_some, if_pos htree] at hnext
  have htree' : (info.next ((s.tables u).heldFor env (T.key v) (T.key u) transform)).onTree = true := htree
  rw [hnext, map_some, if_pos htree', hpass.heldFor (hmarks u)] at hnext'
  have hsend := hsame (T.key v)
  have hsend' := hsame' (T.key v)
  rw [hinfo, hnext, map_some, map_some, some.injEq] at hsend
  rw [hinfo, hnext', map_some, map_some, some.injEq] at hsend'
  exact BloomInfo.send_of_still hsend.symm hsend'.symm

theorem Quiescent.bits {s : BloomNet V} (h : T.Quiescent env transform s)
    (hmarks : ∀ u, T.Marks u (s.tables u)) (hsync : s.Synced T.key) {i : Nat} (hadj : T.graph.Adj u v) :
    (∃ info, (s.tables v).blooms.lookup (T.key u) = some info ∧ info.recv.bits.getLsbD i = true) ↔
      (T.ownFilter env transform u).bits.getLsbD i = true ∨ ∃ w, T.graph.Adj w u ∧ w ≠ v ∧
        ∃ info, (s.tables u).blooms.lookup (T.key w) = some info ∧ info.recv.bits.getLsbD i = true := by
  obtain ⟨iu, hu, -⟩ := (hmarks u).exists_info hadj
  obtain ⟨iv, hv, -⟩ := (hmarks v).exists_info hadj.symm
  have hrecv := hsync u v iu iv hu hv
  rw [h.quiet u v, List.getLastD_nil, h.send_eq hmarks hadj hu] at hrecv
  simp only [hv, some.injEq, exists_eq_left', hrecv, getLsbD_heldFor]
  refine or_congr Iff.rfl ?_
  constructor
  · rintro ⟨k, info, hinfo, htree, hne, hbit⟩
    obtain ⟨w, hadjw, rfl⟩ := ((hmarks u) k).mp ⟨info, hinfo, htree⟩
    exact ⟨w, hadjw.symm, fun hw => hne (hw ▸ rfl), info, hinfo, hbit⟩
  rintro ⟨w, hadjw, hne, info, hinfo, hbit⟩
  obtain ⟨info', hinfo', htree⟩ := (hmarks u).exists_info hadjw.symm
  rw [hinfo, some.injEq] at hinfo'
  exact ⟨T.key w, info, hinfo, hinfo' ▸ htree, fun hk => hne (T.key_injective hk), hbit⟩

/-- When nothing changes any more and exactly the neighbours in the tree are marked, a filter tests positive for every
node on the side it came from, and each of its bits is one of such a node. -/
theorem quiescent_filters [Finite V] [DecidableEq V] (T : TreeNet V) (env : Env)
    (transform : Option (PublicKey → PublicKey)) {s₀ s : BloomNet V} {es : List (BloomNet.Event V)}
    (hstart : s₀.Start T.key) (hrun : es.foldlM (BloomNet.exec T.key env transform) s₀ = some s)
    (hmarks : ∀ u, T.Marks u (s.tables u)) (hquiet : T.Quiescent env transform s) {u v : V} (hadj : T.graph.Adj u v) :
    ∃ info, (s.tables v).blooms.lookup (T.key u) = some info ∧
      (∀ w ∈ T.graph.side u v, info.recv.test env (keyBytes (Blooms.xKey (T.key w) transform)) = true) ∧
      ∀ i, info.recv.bits.getLsbD i = true →
        ∃ w ∈ T.graph.side u v, (T.ownFilter env transform w).bits.getLsbD i = true := by
  have hsync : s.Synced T.key := 
    (Lts.run_of_foldlM hrun).invariant hstart.synced fun _ _ _ h hexec => h.exec T.key_injective hexec
  obtain ⟨info, hinfo, -⟩ := (hmarks v).exists_info hadj.symm
  have hbits : ∀ i, info.recv.bits.getLsbD i = true ↔
      ∃ w ∈ T.graph.side u v, (T.ownFilter env transform w).bits.getLsbD i = true := by
    intro i
    have hside := SimpleGraph.iff_exists_mem_side T.isTree.isAcyclic
      (fun a b hab => hquiet.bits hmarks hsync (i := i) hab) hadj
    simpa only [hinfo, some.injEq, exists_eq_left'] using hside
  refine ⟨info, hinfo, fun w hw => ?_, fun i => (hbits i).mp⟩
  exact BloomFilter.test_of_add fun i hi => (hbits i).mpr ⟨w, hw, hi⟩

def pair : TreeNet Bool where
  graph := ⊤
  isTree := SimpleGraph.isTree_iff_connected_and_card.mpr ⟨SimpleGraph.connected_top, by
    rw [Nat.card_eq_fintype_card, Nat.card_eq_fintype_card]
    decide⟩
  key u := if u then 1 else 2
  key_injective := by decide

theorem exists_pair_adj (u : Bool) (k : PublicKey) : (∃ w, pair.graph.Adj u w ∧ pair.key w = k) ↔ k = pair.key !u := by
  have hadj : ∀ u w, pair.graph.Adj u w ↔ w = !u := show ∀ u w : Bool, u ≠ w ↔ w = !u by decide
  simp only [hadj, exists_eq_left]
  exact eq_comm

def sumEnv : Env := { verify := fun _ _ _ => false, murmur3 := fun data => BitVec.ofNat 128 (data.map UInt8.toNat).sum }

def pairStart : BloomNet Bool where
  tables u := addInfo ⟨∅⟩ (pair.key !u)
  flight _ _ := []

def pairEvents : List (BloomNet.Event Bool) :=
  [.tick false (pair.key true) ∅, .deliver false true, .tick true (pair.key false) ∅, .deliver true false]

def pairEnd : BloomNet Bool := (pairEvents.foldlM (BloomNet.exec pair.key sumEnv none) pairStart).getD pairStart

def pairPass (u : Bool) (b : Blooms) : ToSend := (b.doMaintenance sumEnv (pair.key u) (pair.key !u) ∅ none).getD ⟨[], b⟩

def PairSettled (u : Bool) (b : Blooms) : Prop :=
  b.blooms.toList.map (fun entry => (entry.1, entry.2.send, entry.2.onTree)) =
    [(pair.key !u, pair.ownFilter sumEnv none u, true)]

instance (u : Bool) (b : Blooms) : Decidable (PairSettled u b) := inferInstanceAs (Decidable (_ = _))

theorem PairSettled.lookup {u : Bool} (h : PairSettled u b) (k : PublicKey) :
    (b.blooms.lookup k).map (fun info => (info.send, info.onTree)) =
      if k = pair.key !u then some (pair.ownFilter sumEnv none u, true) else none := by
  obtain ⟨⟨k', info⟩, hlist, heq⟩ := List.map_eq_singleton_iff.mp h
  simp only [Prod.mk.injEq] at heq
  obtain ⟨rfl, hsend, htree⟩ := heq
  rw [lookup_of_toList hlist]
  split
  · rw [map_some, hsend, htree]
  · rfl

theorem PairSettled.marks {u : Bool} (h : PairSettled u b) : pair.Marks u b := by
  intro k
  have hk := h.lookup k
  rw [exists_pair_adj]
  constructor
  · rintro ⟨info, hinfo, -⟩
    by_contra hne
    rw [hinfo, if_neg hne] at hk
    cases hk
  intro heq
  rw [if_pos heq] at hk
  obtain ⟨info, hinfo, hsend⟩ := map_eq_some_iff.mp hk
  exact ⟨info, hinfo, (Prod.mk.inj hsend).2⟩

theorem PairSettled.sameSends {u : Bool} {b' : Blooms} (h : PairSettled u b) (h' : PairSettled u b') :
    SameSends b b' := by
  intro k
  have hfst : ∀ b : Blooms, (b.blooms.lookup k).map BloomInfo.send =
      ((b.blooms.lookup k).map fun info => (info.send, info.onTree)).map Prod.fst := by
    intro b
    rw [map_map]
    rfl
  rw [hfst b, hfst b', h.lookup k, h'.lookup k]

theorem pairPass_pass (u : Bool) (b : Blooms) : pair.Pass sumEnv none u b (pairPass u b) := by
  refine ⟨pair.key !u, ∅, ?_, fun k info _ => ?_⟩
  · obtain ⟨o, ho, -⟩ := b.doMaintenance_advertised sumEnv (pair.key u) (pair.key !u) ∅ none
    rw [pairPass, ho]
    rfl
  rw [exists_pair_adj]
  simp [onTree, eq_comm]

theorem pairStart_start : pairStart.Start pair.key := by
  refine ⟨fun u v => rfl, fun u v iu iv hu hv => ?_⟩
  have hnew : ∀ u k info, (pairStart.tables u).blooms.lookup k = some info → info = BloomInfo.new := by
    intro u k info h
    simp only [pairStart, addInfo, lookup_empty, lookup_insert] at h
    split at h
    · exact (some.inj h).symm
    · cases h
  rw [hnew u _ iu hu, hnew v _ iv hv]
  rfl

theorem pairEnd_settled : ∀ u, PairSettled u (pairEnd.tables u) := by decide +kernel

theorem quiescent_filters_pair : pairEvents.foldlM (BloomNet.exec pair.key sumEnv none) pairStart = some pairEnd ∧
      pair.Quiescent sumEnv none pairEnd ∧ ∃ info, (pairEnd.tables true).blooms.lookup (pair.key false) = some info ∧
        (∀ w ∈ pair.graph.side false true, info.recv.test sumEnv (keyBytes (Blooms.xKey (pair.key w) none)) = true) ∧
        ∀ i, info.recv.bits.getLsbD i = true →
          ∃ w ∈ pair.graph.side false true, (pair.ownFilter sumEnv none w).bits.getLsbD i = true := by
  have hrun : pairEvents.foldlM (BloomNet.exec pair.key sumEnv none) pairStart = some pairEnd := by
    have hsome : (pairEvents.foldlM (BloomNet.exec pair.key sumEnv none) pairStart).isSome := by decide +kernel
    obtain ⟨s, hs⟩ := isSome_iff_exists.mp hsome
    rw [pairEnd, hs]
    rfl
  have hpass : ∀ u, PairSettled u (pairPass u (pairEnd.tables u)).blooms ∧
      PairSettled u (pairPass u (pairPass u (pairEnd.tables u)).blooms).blooms := by decide +kernel
  have hquiet : pair.Quiescent sumEnv none pairEnd := by
    refine ⟨by decide +kernel, fun u => ?_⟩
    have hsettled := pairEnd_settled u
    exact ⟨_, _, pairPass_pass u _, pairPass_pass u _, hsettled.sameSends (hpass u).1, hsettled.sameSends (hpass u).2⟩
  exact ⟨hrun, hquiet, quiescent_filters pair sumEnv none pairStart_start hrun (fun u =>
    (pairEnd_settled u).marks) hquiet
    Bool.false_ne_true⟩

end TreeNet

end Yggdrasil
