import Yggdrasil.Base.Ascent
import Yggdrasil.Base.Loop
import Yggdrasil.Router.Coherence
import Yggdrasil.Router.Greedy

/-!
# Walks towards the root

`get_root_and_dists`, `get_root_and_path` and `backwards_ancestry` follow the parents from a key, through infos that may
hold loops, dead ends and several roots.
-/

namespace Yggdrasil
open List Option HashMap
variable {infos : HashMap PublicKey RouterInfo} {key r : PublicKey} {ks ks' : List PublicKey}

def parentOf (infos : HashMap PublicKey RouterInfo) (k : PublicKey) : Option PublicKey :=
  (infos.lookup k).map RouterInfo.parent

theorem parentOf_eq_some {k p : PublicKey} :
    parentOf infos k = some p ↔ ∃ info, infos.lookup k = some info ∧ info.parent = p :=
  map_eq_some_iff

theorem length_le_keys (h : Ascent (parentOf infos) key ks r) : ks.length ≤ infos.keys.length := by
  refine (subperm_of_subset h.nodup fun x hx => ?_).length_le
  have hsome := h.isSome_of_mem x hx
  rw [parentOf, isSome_map] at hsome
  exact mem_keys_iff.mpr (isSome_iff_exists.mp hsome)

/-! ## The loops of the source -/

structure DistState where
  next : PublicKey
  dist : UInt64
  dists : HashMap PublicKey UInt64

def distTurn (infos : HashMap PublicKey RouterInfo) (s : DistState) :
    LoopStep DistState (PublicKey × HashMap PublicKey UInt64 × Bool) :=
  if (s.dists.lookup s.next).isSome then .done (0, s.dists, false)
  else
    match infos.lookup s.next with
    | none => .done (0, s.dists, false)
    | some info =>
      if info.parent = s.next then .done (s.next, s.dists.insert s.next s.dist, true)
      else .again { next := info.parent, dist := s.dist + 1, dists := s.dists.insert s.next s.dist }

structure PathState where
  next : PublicKey
  visited : List PublicKey
  ports : List PeerPort

def pathTurn (infos : HashMap PublicKey RouterInfo) (dest : PublicKey) (s : PathState) :
    LoopStep PathState RouterPath :=
  if s.visited.contains s.next then .done { root := dest, path := [] }
  else
    match infos.lookup s.next with
    | some info =>
      if s.next = info.parent then .done { root := s.next, path := s.ports }
      else .again { next := info.parent, visited := s.next :: s.visited, ports := info.port :: s.ports }
    | none => .done { root := dest, path := [] }

structure AncestryState where
  here : PublicKey
  anc : List PublicKey

def ancestryTurn (infos : HashMap PublicKey RouterInfo) (s : AncestryState) : LoopStep AncestryState (List PublicKey) :=
  if s.anc.contains s.here then .done s.anc
  else
    match infos.lookup s.here with
    | none => .done s.anc
    | some info => .again { here := info.parent, anc := s.here :: s.anc }

def unmet (infos : HashMap PublicKey RouterInfo) (met : List PublicKey) : Nat := infos.keys.length - met.length

structure Met (infos : HashMap PublicKey RouterInfo) (met : List PublicKey) : Prop where
  nodup : met.Nodup
  known : met ⊆ infos.keys

theorem Met.nil : Met infos [] := ⟨List.nodup_nil, List.nil_subset _⟩

theorem Met.cons {met : List PublicKey} {k : PublicKey} {info : RouterInfo} (h : Met infos met) (hnew : k ∉ met)
    (hinfo : infos.lookup k = some info) : Met infos (k :: met) ∧ unmet infos (k :: met) < unmet infos met := by
  have hmet : Met infos (k :: met) :=
    ⟨nodup_cons.mpr ⟨hnew, h.nodup⟩, cons_subset.mpr ⟨mem_keys_iff.mpr ⟨info, hinfo⟩, h.known⟩⟩
  have hle := (subperm_of_subset hmet.nodup hmet.known).length_le
  refine ⟨hmet, ?_⟩
  unfold unmet
  rw [length_cons] at hle ⊢
  omega

theorem distTurn_again {s t : DistState} (hs : Met infos s.dists.keys) (h : distTurn infos s = .again t) :
    Met infos t.dists.keys ∧ unmet infos t.dists.keys < unmet infos s.dists.keys := by
  unfold distTurn at h
  split at h
  · cases h
  next hnew =>
    cases hinfo : infos.lookup s.next with
    | none =>
      rw [hinfo] at h
      cases h
    | some info =>
      simp only [hinfo] at h
      split at h
      · cases h
      obtain rfl := LoopStep.again.inj h
      have hnone : s.dists.lookup s.next = none := not_isSome_iff_eq_none.mp hnew
      rw [keys_insert_of_new hnone]
      refine hs.cons (fun hmem => ?_) hinfo
      obtain ⟨d, hd⟩ := mem_keys_iff.mp hmem
      rw [hnone] at hd
      cases hd

theorem pathTurn_again {dest : PublicKey} {s t : PathState} (hs : Met infos s.visited)
    (h : pathTurn infos dest s = .again t) : Met infos t.visited ∧ unmet infos t.visited < unmet infos s.visited := by
  unfold pathTurn at h
  split at h
  · cases h
  next hnew =>
    cases hinfo : infos.lookup s.next with
    | none =>
      rw [hinfo] at h
      cases h
    | some info =>
      simp only [hinfo] at h
      split at h
      · cases h
      obtain rfl := LoopStep.again.inj h
      exact hs.cons (hnew ∘ contains_iff_mem.mpr) hinfo

theorem ancestryTurn_again {s t : AncestryState} (hs : Met infos s.anc) (h : ancestryTurn infos s = .again t) :
    Met infos t.anc ∧ unmet infos t.anc < unmet infos s.anc := by
  unfold ancestryTurn at h
  split at h
  · cases h
  next hnew =>
    cases hinfo : infos.lookup s.here with
    | none =>
      rw [hinfo] at h
      cases h
    | some info =>
      simp only [hinfo] at h
      obtain rfl := LoopStep.again.inj h
      exact hs.cons (fun hmem => hnew (contains_iff_mem.mpr hmem)) hinfo

theorem distWalk_succ (fuel : Nat) (s : DistState) : distWalk infos (fuel + 1) s.next s.dist s.dists =
    (distTurn infos s).elim (fun t => distWalk infos fuel t.next t.dist t.dists) id := by
  rw [distWalk, distTurn]
  by_cases hold : (s.dists.lookup s.next).isSome
  · rw [if_pos hold, if_pos hold]
    rfl
  rw [if_neg hold, if_neg hold]
  cases infos.lookup s.next with
  | none => rfl
  | some info =>
    dsimp only
    by_cases hroot : info.parent = s.next
    · rw [if_pos hroot, if_pos hroot]
      rfl
    rw [if_neg hroot, if_neg hroot]
    rfl

theorem rootWalk_succ {dest : PublicKey} (fuel : Nat) (s : PathState) :
    (rootWalk infos (fuel + 1) s.next s.visited s.ports).getD { root := dest, path := [] } =
      (pathTurn infos dest s).elim
        (fun t => (rootWalk infos fuel t.next t.visited t.ports).getD { root := dest, path := [] }) id := by
  rw [rootWalk, pathTurn]
  by_cases hold : s.next ∈ s.visited
  · rw [if_pos hold, if_pos (contains_iff_mem.mpr hold)]
    rfl
  rw [if_neg hold, if_neg (hold ∘ contains_iff_mem.mp)]
  cases infos.lookup s.next with
  | none => rfl
  | some info =>
    dsimp only
    by_cases hroot : s.next = info.parent
    · rw [if_pos hroot, if_pos hroot]
      rfl
    rw [if_neg hroot, if_neg hroot]
    rfl

theorem ancestryWalk_succ (fuel : Nat) (s : AncestryState) : ancestryWalk infos (fuel + 1) s.here s.anc =
    (ancestryTurn infos s).elim (fun t => ancestryWalk infos fuel t.here t.anc) id := by
  rw [ancestryWalk, ancestryTurn]
  by_cases hold : s.anc.contains s.here
  · rw [if_pos hold, if_pos hold]
    rfl
  rw [if_neg hold, if_neg hold]
  cases infos.lookup s.here with
  | none | some info => rfl

namespace Router
variable (self : Router)

theorem loop_distTurn (key : PublicKey) :
    runLoop (distTurn self.infos) (self.infos.keys.length + 1) { next := key, dist := 0, dists := ∅ } =
      some (self.getRootAndDists key) := by
  obtain ⟨res, hres⟩ := exists_runLoop (I := fun s : DistState => Met self.infos s.dists.keys)
    (μ := fun s => unmet self.infos s.dists.keys) (fun s t => distTurn_again) (s := ⟨key, 0, ∅⟩) Met.nil
    (Nat.lt_succ_of_le (Nat.sub_le _ _))
  rw [hres, getRootAndDists]
  exact congrArg some (eq_of_runLoop (fun fuel s => distWalk _ fuel s.next s.dist s.dists) distWalk_succ hres).symm

theorem loop_pathTurn (key : PublicKey) :
    runLoop (pathTurn self.infos key) (self.infos.keys.length + 1) { next := key, visited := [], ports := [] } =
      some (self.getRootAndPath key) := by
  obtain ⟨rp, hrp⟩ := exists_runLoop (I := fun s : PathState => Met self.infos s.visited)
    (μ := fun s => unmet self.infos s.visited) (fun s t => pathTurn_again) (s := ⟨key, [], []⟩) Met.nil
    (Nat.lt_succ_of_le (Nat.sub_le _ _))
  rw [hrp, getRootAndPath]
  exact congrArg some (eq_of_runLoop (fun fuel s => (rootWalk _ fuel s.next s.visited s.ports).getD _) rootWalk_succ
    hrp).symm

theorem loop_ancestryTurn (key : PublicKey) :
    runLoop (ancestryTurn self.infos) (self.infos.keys.length + 1) { here := key, anc := [] } =
      some (self.getAncestry key) := by
  obtain ⟨anc, hanc⟩ := exists_runLoop (I := fun s : AncestryState => Met self.infos s.anc)
    (μ := fun s => unmet self.infos s.anc) (fun s t => ancestryTurn_again) (s := ⟨key, []⟩) Met.nil
    (Nat.lt_succ_of_le (Nat.sub_le _ _))
  rw [hanc, getAncestry]
  exact congrArg some (eq_of_runLoop (fun fuel s => ancestryWalk _ fuel s.here s.anc) ancestryWalk_succ hanc).symm

end Router

/-! ## Chains of parents -/

def numbered : List PublicKey → UInt64 → HashMap PublicKey UInt64 → HashMap PublicKey UInt64
  | [], _, dists => dists
  | k :: ks, dist, dists => numbered ks (dist + 1) (dists.insert k dist)

theorem isSome_lookup_numbered {k : PublicKey} (ks : List PublicKey) (dist : UInt64)
    (dists : HashMap PublicKey UInt64) :
    ((numbered ks dist dists).lookup k).isSome ↔ k ∈ ks ∨ (dists.lookup k).isSome := by
  induction ks generalizing dist dists with
  | nil => simp [numbered]
  | cons k' ks ih =>
    rw [numbered, ih, lookup_insert, mem_cons]
    by_cases h : k = k' <;> simp [h]

theorem lookup_numbered_root {parent : PublicKey → Option PublicKey} (h : Ascent parent key ks r) (dist : UInt64)
    (dists : HashMap PublicKey UInt64) :
    (numbered ks dist dists).lookup r = some (dist + (ks.length - 1).toUInt64) := by
  induction h generalizing dist dists with
  | root =>
    rw [numbered, numbered, lookup_insert, if_pos rfl]
    simp
  | @up k p r ks _ _ htail ih =>
    have hpos := htail.length_pos
    rw [numbered, ih, length_cons, Nat.add_sub_cancel]
    congr 1
    rw [show dist + ks.length.toUInt64 = dist + (1 + (ks.length - 1)).toUInt64 by congr; omega]
    simp only [Nat.toUInt64_eq, UInt64.ofNat_add]
    grind

theorem distWalk_of_ascent (h : Ascent (parentOf infos) key ks r) : ∀ (fuel : Nat) (dist : UInt64)
    (dists : HashMap PublicKey UInt64), ks.length ≤ fuel → (∀ x ∈ ks, dists.lookup x = none) →
      distWalk infos fuel key dist dists = (r, numbered ks dist dists, true) := by
  have hnodup := h.nodup
  induction h with
  | @root k hk =>
    intro fuel dist dists hfuel hnew
    obtain ⟨info, hinfo, hparent⟩ := parentOf_eq_some.mp hk
    obtain ⟨fuel, rfl⟩ := Nat.exists_eq_add_of_lt hfuel
    rw [distWalk, hnew k mem_cons_self, if_neg (by simp), hinfo]
    exact if_pos hparent
  | @up k p r ks hk hne _ ih =>
    intro fuel dist dists hfuel hnew
    obtain ⟨info, hinfo, rfl⟩ := parentOf_eq_some.mp hk
    obtain ⟨fuel, rfl⟩ := Nat.exists_eq_add_of_lt (Nat.lt_of_lt_of_le (Nat.succ_pos _) hfuel)
    rw [distWalk, hnew k mem_cons_self, if_neg (by simp), hinfo]
    simp only [if_neg hne]
    refine ih (nodup_cons.mp hnodup).2 _ _ _ (by rw [length_cons] at hfuel; omega) fun x hx => ?_
    have hxk : x ≠ k := fun heq => (nodup_cons.mp hnodup).1 (heq ▸ hx)
    rw [lookup_insert, if_neg hxk]
    exact hnew x (mem_cons_of_mem _ hx)

theorem ascent_of_distWalk {fuel : Nat} {dist : UInt64} {dists : HashMap PublicKey UInt64}
    (h : (distWalk infos fuel key dist dists).2.2 = true) : ∃ ks r, Ascent (parentOf infos) key ks r := by
  induction fuel generalizing key dist dists with
  | zero => cases h
  | succ fuel ih =>
    rw [distWalk] at h
    split at h
    · cases h
    cases hinfo : infos.lookup key with
    | none =>
      rw [hinfo] at h
      cases h
    | some info =>
      simp only [hinfo] at h
      have hparent : parentOf infos key = some info.parent := parentOf_eq_some.mpr ⟨info, hinfo, rfl⟩
      by_cases hroot : info.parent = key
      · exact ⟨_, _, Ascent.root (hroot ▸ hparent)⟩
      rw [if_neg hroot] at h
      obtain ⟨ks, r, htail⟩ := ih h
      exact ⟨_, _, Ascent.up hparent hroot htail⟩

theorem rootWalk_of_ascent (h : Ascent (parentOf infos) key ks r) :
    ∃ path : List PeerPort, path.length + 1 = ks.length ∧
    ∀ (fuel : Nat) (visited : List PublicKey) (ports : List PeerPort), ks.length ≤ fuel → (∀ x ∈ ks, x ∉ visited) →
      rootWalk infos fuel key visited ports = some { root := r, path := path ++ ports } := by
  have hnodup := h.nodup
  induction h with
  | @root k hk =>
    refine ⟨[], rfl, fun fuel visited ports hfuel hnew => ?_⟩
    obtain ⟨info, hinfo, hparent⟩ := parentOf_eq_some.mp hk
    obtain ⟨fuel, rfl⟩ := Nat.exists_eq_add_of_lt hfuel
    rw [rootWalk, if_neg (hnew k mem_cons_self), hinfo]
    exact if_pos hparent.symm
  | @up k p r ks hk hne _ ih =>
    obtain ⟨path, hlength, hwalk⟩ := ih (nodup_cons.mp hnodup).2
    obtain ⟨info, hinfo, rfl⟩ := parentOf_eq_some.mp hk
    refine ⟨path ++ [info.port], by simp [hlength], fun fuel visited ports hfuel hnew => ?_⟩
    obtain ⟨fuel, rfl⟩ := Nat.exists_eq_add_of_lt (Nat.lt_of_lt_of_le (Nat.succ_pos _) hfuel)
    rw [rootWalk, if_neg (hnew k mem_cons_self), hinfo]
    simp only [if_neg hne.symm]
    rw [append_assoc, singleton_append]
    refine hwalk _ _ _ (by rw [length_cons] at hfuel; omega) fun x hx hmem => ?_
    rcases mem_cons.mp hmem with rfl | hmem
    · exact (nodup_cons.mp hnodup).1 hx
    · exact hnew x (mem_cons_of_mem _ hx) hmem

theorem ascent_of_rootWalk {fuel : Nat} {visited : List PublicKey} {ports : List PeerPort} {rp : RouterPath}
    (h : rootWalk infos fuel key visited ports = some rp) : ∃ ks, Ascent (parentOf infos) key ks rp.root := by
  induction fuel generalizing key visited ports with
  | zero => cases h
  | succ fuel ih =>
    rw [rootWalk] at h
    split at h
    · cases h
    cases hinfo : infos.lookup key with
    | none =>
      rw [hinfo] at h
      cases h
    | some info =>
      simp only [hinfo] at h
      have hparent : parentOf infos key = some info.parent := parentOf_eq_some.mpr ⟨info, hinfo, rfl⟩
      by_cases hroot : key = info.parent
      · rw [if_pos hroot] at h
        cases h
        exact ⟨_, Ascent.root (by rw [hparent, ← hroot])⟩
      rw [if_neg hroot] at h
      obtain ⟨ks, htail⟩ := ih h
      exact ⟨_, Ascent.up hparent (Ne.symm hroot) htail⟩

namespace Router
variable {self : Router} {path : List PeerPort}

theorem getRootAndDists_of_ascent (h : Ascent (parentOf self.infos) key ks r) :
    self.getRootAndDists key = (r, numbered ks 0 ∅, true) :=
  distWalk_of_ascent h _ _ _ (Nat.le_succ_of_le (length_le_keys h)) fun _ _ => rfl

theorem getRootAndDists_valid_iff :
    (self.getRootAndDists key).2.2 = true ↔ ∃ ks r, Ascent (parentOf self.infos) key ks r := by
  refine ⟨ascent_of_distWalk, fun ⟨ks, r, h⟩ => ?_⟩
  rw [getRootAndDists_of_ascent h]

theorem getRootAndPath_of_ascent (h : Ascent (parentOf self.infos) key ks r) :
    ∃ path, path.length + 1 = ks.length ∧ self.getRootAndPath key = { root := r, path } := by
  obtain ⟨path, hlength, hwalk⟩ := rootWalk_of_ascent h
  refine ⟨path, hlength, ?_⟩
  rw [getRootAndPath, hwalk _ _ _ (Nat.le_succ_of_le (length_le_keys h)) fun _ _ => not_mem_nil, append_nil]
  rfl

theorem getRootAndPath_of_not_ascent (h : ¬ ∃ ks r, Ascent (parentOf self.infos) key ks r) :
    self.getRootAndPath key = { root := key, path := [] } := by
  rw [getRootAndPath]
  cases hwalk : rootWalk self.infos (self.infos.keys.length + 1) key [] [] with
  | none => rfl
  | some rp =>
    obtain ⟨ks, hks⟩ := ascent_of_rootWalk hwalk
    exact absurd ⟨ks, rp.root, hks⟩ h

/-! ## Distance -/

theorem all_parent_ne_iff : ((self.infos.lookup r).all fun info => info.parent ≠ r) = true ↔
    parentOf self.infos r ≠ some r := by
  cases h : self.infos.lookup r <;> simp [parentOf, h]

theorem dist_of_ascent (hself : self.Coherent) (hkey : Ascent (parentOf self.infos) key ks r)
    (hown : Ascent (parentOf self.infos) self.crypto.publicKey ks' r) :
    self.dist path key = distLoop (self.getRootAndPath key).path path
      ((self.getRootAndPath key).path.length + path.length).toUInt64 := by
  obtain ⟨coords, -, hcoords⟩ := getRootAndPath_of_ascent hkey
  obtain ⟨own, -, howned⟩ := getRootAndPath_of_ascent hown
  have hroot : ¬ ((self.infos.lookup r).all fun info => info.parent ≠ r) = true := by
    rw [all_parent_ne_iff, not_not]
    exact hkey.parent_root
  simp only [dist, hself.coordsOf, hcoords, howned]
  rw [if_neg hroot, if_neg (not_not.mpr rfl)]

theorem dist_of_not_ascent (hself : self.Coherent) (h : ¬ ∃ ks ks' r, Ascent (parentOf self.infos) key ks r ∧
    Ascent (parentOf self.infos) self.crypto.publicKey ks' r) : self.dist path key = u64Max := by
  simp only [dist, hself.coordsOf]
  by_cases hkey : ∃ ks r, Ascent (parentOf self.infos) key ks r
  · obtain ⟨ks, r, hkey⟩ := hkey
    obtain ⟨coords, -, hcoords⟩ := getRootAndPath_of_ascent hkey
    -- the root of the key is not the root of the node, also where the node has none
    have hne : r ≠ (self.getRootAndPath self.crypto.publicKey).root := by
      rintro rfl
      by_cases hown : ∃ ks' r', Ascent (parentOf self.infos) self.crypto.publicKey ks' r'
      · obtain ⟨ks', r', hown⟩ := hown
        obtain ⟨own, -, howned⟩ := getRootAndPath_of_ascent hown
        rw [howned] at hkey
        exact h ⟨ks, ks', r', hkey, hown⟩
      have hroot := hkey.parent_root
      rw [getRootAndPath_of_not_ascent hown] at hroot
      exact hown ⟨_, _, Ascent.root hroot⟩
    rw [hcoords]
    simp only [if_pos hne, ite_self]
  rw [getRootAndPath_of_not_ascent hkey, if_pos]
  rw [all_parent_ne_iff]
  exact fun hroot => hkey ⟨_, _, Ascent.root hroot⟩

end Router

def distLoopChecked : List PeerPort → List PeerPort → UInt64 → Option UInt64
  | k :: keyPath, d :: destPath, dist =>
    if k = d then if 2 ≤ dist then distLoopChecked keyPath destPath (dist - 2) else none else some dist
  | _, _, dist => some dist

theorem distLoopChecked_eq (x y : List PeerPort) (dist : UInt64) (h : x.length + y.length ≤ dist.toNat) :
    distLoopChecked x y dist = some (distLoop x y dist) := by
  fun_induction distLoop x y dist with
  | case1 d x y dist ih =>
    rw [length_cons, length_cons] at h
    have htwo : (2 : UInt64).toNat = 2 := rfl
    have hle : 2 ≤ dist := UInt64.le_iff_toNat_le.mpr (by omega)
    rw [distLoopChecked, if_pos rfl, if_pos hle]
    apply ih
    rw [UInt64.toNat_sub_of_le _ _ hle]
    omega
  | case2 k x d y dist hne => rw [distLoopChecked, if_neg hne]
  | case3 x y dist hnil =>
    cases x with
    | nil => simp [distLoopChecked]
    | cons k x =>
      cases y with
      | nil => rfl
      | cons d y => exact absurd rfl (hnil k x d y rfl)

structure Router.TreeDistance (r : Router) (path : List PeerPort) (key : PublicKey) : Prop where
  distsEnds : runLoop (distTurn r.infos) (r.infos.keys.length + 1) { next := key, dist := 0, dists := ∅ } =
    some (r.getRootAndDists key)
  pathEnds : runLoop (pathTurn r.infos key) (r.infos.keys.length + 1) { next := key, visited := [], ports := [] } =
    some (r.getRootAndPath key)
  ancestryEnds : runLoop (ancestryTurn r.infos) (r.infos.keys.length + 1) { here := key, anc := [] } =
    some (r.getAncestry key)
  valid : (r.getRootAndDists key).2.2 = true ↔ ∃ ks root, Ascent (parentOf r.infos) key ks root
  root : ∀ ks root, Ascent (parentOf r.infos) key ks root →
    (r.getRootAndDists key).1 = root ∧ (r.getRootAndPath key).root = root ∧
      (r.getRootAndPath key).path.length + 1 = ks.length ∧
      (r.getRootAndDists key).2.1.lookup root = some (r.getRootAndPath key).path.length.toUInt64
  related : ∀ ks ks' root, Ascent (parentOf r.infos) key ks root →
    Ascent (parentOf r.infos) r.crypto.publicKey ks' root →
    (r.getDist path key).1 = (path.length + (r.getRootAndPath key).path.length -
      2 * (commonPrefix (r.getRootAndPath key).path path).length).toUInt64 ∧
    ((r.getRootAndPath key).path.length + path.length < UInt64.size →
      distLoopChecked (r.getRootAndPath key).path path ((r.getRootAndPath key).path.length + path.length).toUInt64 =
        some (r.getDist path key).1)
  unrelated : (¬ ∃ ks ks' root, Ascent (parentOf r.infos) key ks root ∧
    Ascent (parentOf r.infos) r.crypto.publicKey ks' root) → (r.getDist path key).1 = u64Max

/-- **Distance in the tree**, for any infos, path and key; what the cache holds is what would be computed. -/
theorem tree_distance (self : Router) (hself : self.Coherent) (path : List PeerPort) (key : PublicKey) :
    self.TreeDistance path key where
  distsEnds := self.loop_distTurn key
  pathEnds := self.loop_pathTurn key
  ancestryEnds := self.loop_ancestryTurn key
  valid := Router.getRootAndDists_valid_iff
  root ks root h := by
    obtain ⟨coords, hlength, hcoords⟩ := Router.getRootAndPath_of_ascent h
    rw [Router.getRootAndDists_of_ascent h, hcoords]
    refine ⟨rfl, rfl, hlength, ?_⟩
    rw [lookup_numbered_root h, UInt64.zero_add, ← hlength, Nat.add_sub_cancel]
  related ks ks' root hkey hown := by
    have hadd := pathDist_add_commonPrefix (self.getRootAndPath key).path path
    have hloop := Router.distLoop_eq (self.getRootAndPath key).path path 0
    rw [Nat.add_zero, Nat.add_zero] at hloop
    rw [Router.getDist_fst, Router.dist_of_ascent hself hkey hown]
    refine ⟨?_, fun hlt => distLoopChecked_eq _ _ _ ?_⟩
    · rw [hloop]
      congr 1
      omega
    · rw [Nat.toUInt64_eq, UInt64.toNat_ofNat_of_lt' hlt]
  unrelated h := by rw [Router.getDist_fst, Router.dist_of_not_ascent hself h]

def tangledRouter : Router :=
  { Router.new ⟨2, fun _ => 0⟩ ⟨0, 0, none⟩ with
    infos := (((((((∅ : HashMap PublicKey RouterInfo).insert 1 ⟨1, 1, 1, 0, 0, 0⟩).insert 2 ⟨1, 1, 1, 5, 0, 0⟩).insert 3
      ⟨2, 1, 1, 6, 0, 0⟩).insert 4 ⟨5, 1, 1, 1, 0, 0⟩).insert 5 ⟨4, 1, 1, 1, 0, 0⟩).insert 6
      ⟨7, 1, 1, 1, 0, 0⟩).insert 8 ⟨8, 1, 1, 0, 0, 0⟩ }

theorem tree_distance_tangled : tangledRouter.Coherent ∧ tangledRouter.TreeDistance [5, 7] 3 ∧
    (tangledRouter.getDist [5, 7] 3).1 = 2 ∧ [4, 6, 8].map (fun key => (tangledRouter.getDist [5, 7] key).1) =
      [u64Max, u64Max, u64Max] := by
  have hcoherent : tangledRouter.Coherent := FullRouter.coherent_of_empty rfl
  exact ⟨hcoherent, tree_distance tangledRouter hcoherent [5, 7] 3, by decide +kernel, by decide +kernel⟩

end Yggdrasil
