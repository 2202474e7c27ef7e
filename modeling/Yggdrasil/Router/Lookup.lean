import Yggdrasil.Base.Champion
import Yggdrasil.Router.Tree

/-!
# What a lookup finds

`cachedRootAndPath` and everything above it fill the coordinate cache as they go.
-/

namespace Yggdrasil.Router
open List Option HashMap

def coordsOf (self : Router) (key : PublicKey) : RouterPath := (self.cache.lookup key).getD (self.getRootAndPath key)

structure Caches (r r' : Router) : Prop where
  frame : r' = { r with cache := r'.cache }
  coords : ∀ k, r'.coordsOf k = r.coordsOf k

namespace Caches
variable {r r' r'' : Router}

theorem refl (r : Router) : Caches r r := ⟨rfl, fun _ => rfl⟩

theorem trans (h : Caches r r') (h' : Caches r' r'') : Caches r r'' where
  frame := by rw [h'.frame, h.frame]
  coords k := (h'.coords k).trans (h.coords k)

theorem crypto (h : Caches r r') : r'.crypto = r.crypto := by rw [h.frame]

theorem infos (h : Caches r r') : r'.infos = r.infos := by rw [h.frame]

theorem peers (h : Caches r r') : r'.peers = r.peers := by rw [h.frame]

theorem pathfinder (h : Caches r r') : r'.pathfinder = r.pathfinder := by rw [h.frame]

theorem getCost (h : Caches r r') (id : PeerId) : r'.getCost id = r.getCost id := by
  rw [Router.getCost, Router.getCost, h.frame]

end Caches

section
variable (self : Router) (key : PublicKey)
include self key

theorem cachedRootAndPath_fst : (self.cachedRootAndPath key).1 = self.coordsOf key := by
  rw [cachedRootAndPath, coordsOf]
  cases self.cache.lookup key with
  | none | some rp => rfl

theorem cachedRootAndPath_caches : Caches self (self.cachedRootAndPath key).2 := by
  rw [cachedRootAndPath]
  cases h : self.cache.lookup key with
  | some rp => exact Caches.refl self
  | none =>
    refine ⟨rfl, fun k => ?_⟩
    simp only [coordsOf, lookup_insert]
    split
    next hk => rw [hk, h, getD_some, getD_none]
    · rfl

theorem cachedCoords_fst : (self.cachedCoords key).1 = (self.coordsOf key).path :=
  congrArg RouterPath.path (self.cachedRootAndPath_fst key)

theorem cachedCoords_caches : Caches self (self.cachedCoords key).2 :=
  self.cachedRootAndPath_caches key

end

/-- The cache holds what would be computed. -/
def Coherent (self : Router) : Prop := ∀ k rp, self.cache.lookup k = some rp → rp = self.getRootAndPath k

variable {self : Router} {path : List PeerPort}

theorem Coherent.coordsOf (h : self.Coherent) (k : PublicKey) : self.coordsOf k = self.getRootAndPath k := by
  rw [Router.coordsOf]
  cases hc : self.cache.lookup k with
  | none => rfl
  | some rp => exact h k rp hc

theorem Caches.coherent {r r' : Router} (h : Caches r r') (hr : r.Coherent) : r'.Coherent := by
  intro k rp hc
  have hcoords := h.coords k
  rw [Router.coordsOf, hc, getD_some, hr.coordsOf] at hcoords
  rw [hcoords, getRootAndPath, getRootAndPath, h.infos]

/-! ## Distance -/

def dist (self : Router) (destPath : List PeerPort) (key : PublicKey) : UInt64 :=
  let found := self.coordsOf key
  if (self.infos.lookup found.root).all fun info => info.parent ≠ found.root then u64Max
  else if found.root ≠ (self.coordsOf self.crypto.publicKey).root then u64Max
  else distLoop found.path destPath (found.path.length + destPath.length).toUInt64

theorem getDist_caches (self : Router) (destPath : List PeerPort) (key : PublicKey) :
    Caches self (self.getDist destPath key).2 := by
  have h := (self.cachedRootAndPath_caches self.crypto.publicKey).trans (cachedRootAndPath_caches _ key)
  simp only [getDist]
  split
  · exact h
  · split <;> exact h

theorem getDist_fst (self : Router) (destPath : List PeerPort) (key : PublicKey) :
    (self.getDist destPath key).1 = self.dist destPath key := by
  have hown := self.cachedRootAndPath_caches self.crypto.publicKey
  simp only [getDist, cachedRootAndPath_fst, hown.coords]
  rw [dist]
  split
  · rfl
  · split <;> rfl

theorem Caches.dist {r r' : Router} (h : Caches r r') (destPath : List PeerPort) (key : PublicKey) :
    r'.dist destPath key = r.dist destPath key := by
  simp only [Router.dist, h.coords, h.infos, h.crypto]

theorem distLoop_self (path : List PeerPort) (d : UInt64) : distLoop path path d = d - (2 * path.length).toUInt64 := by
  induction path generalizing d with
  | nil => simp [distLoop]
  | cons p path ih =>
    rw [distLoop, if_pos rfl, ih, length_cons, Nat.mul_add]
    simp only [Nat.toUInt64_eq, UInt64.ofNat_add]
    grind

theorem dist_coordsOf_self (self : Router) :
    self.dist (self.coordsOf self.crypto.publicKey).path self.crypto.publicKey = 0 ∨
      self.dist (self.coordsOf self.crypto.publicKey).path self.crypto.publicKey = u64Max := by
  simp only [dist]
  split
  · exact Or.inr rfl
  rw [if_neg (not_not.mpr rfl), distLoop_self, ← Nat.two_mul]
  exact Or.inl (UInt64.sub_self _)

/-! ## Choice of a next hop -/

def candidates (self : Router) (path : List PeerPort) (bound : UInt64) (keys : List PublicKey) : List PeerEntry :=
  keys.flatMap fun k => if self.dist path k < bound then ((self.peers.lookup k).getD ∅).values else []

def consider (self : Router) (path : List PeerPort) (best : Option Best) (p : PeerEntry) : Option Best :=
  if best.all fun best => best.accepts p (self.getCost p.id) (self.dist path p.key) then
    some { peer := p, cost := self.getCost p.id, dist := self.dist path p.key }
  else best

theorem collectCandidates_eq (path : List PeerPort) (bound : UInt64) (keys : List PublicKey) (self : Router) :
    (collectCandidates path bound keys self).1 = self.candidates path bound keys ∧
      Caches self (collectCandidates path bound keys self).2 := by
  induction keys generalizing self with
  | nil => exact ⟨rfl, Caches.refl self⟩
  | cons k keys ih =>
    have hdist := self.getDist_caches path k
    obtain ⟨hrest, hcaches⟩ := ih (self.getDist path k).2
    have hsame : (self.getDist path k).2.candidates path bound keys = self.candidates path bound keys := by
      simp only [candidates, hdist.dist, hdist.peers]
    simp only [collectCandidates, getDist_fst]
    split
    next hlt =>
      refine ⟨?_, hdist.trans hcaches⟩
      simp only [hrest, hsame]
      simp only [candidates, flatMap_cons, if_pos hlt]
    next hlt =>
      refine ⟨?_, hdist.trans hcaches⟩
      simp only [hrest, hsame]
      simp only [candidates, flatMap_cons, if_neg hlt, nil_append]

theorem selectBest_eq (path : List PeerPort) (ps : List PeerEntry) (best : Option Best) (self : Router) :
    (selectBest path ps best self).1 = ps.foldl (self.consider path) best ∧
      Caches self (selectBest path ps best self).2 := by
  induction ps generalizing best self with
  | nil => exact ⟨rfl, Caches.refl self⟩
  | cons p ps ih =>
    have hdist := self.getDist_caches path p.key
    have hsame : (self.getDist path p.key).2.consider path = self.consider path := by
      funext best q
      simp only [consider, hdist.dist, hdist.getCost]
    obtain ⟨hrest, hcaches⟩ := ih (self.consider path best p) (self.getDist path p.key).2
    rw [hsame] at hrest
    simp only [selectBest, getDist_fst]
    exact ⟨hrest, hdist.trans hcaches⟩

def bestFor (self : Router) (path : List PeerPort) : Option Best :=
  (self.candidates path (self.dist path self.crypto.publicKey) self.peers.keys).foldl (self.consider path) none

theorem lookup_peerId (self : Router) (path : List PeerPort) (watermark : UInt64) :
    (self.lookup path watermark).peerId = if self.dist path self.crypto.publicKey ≥ watermark then none
      else (self.bestFor path).map fun best => best.peer.id := by
  have hself := self.getDist_caches path self.crypto.publicKey
  obtain ⟨hcand, hcaches⟩ := collectCandidates_eq path (self.dist path self.crypto.publicKey) self.peers.keys
    (self.getDist path self.crypto.publicKey).2
  have hall := hself.trans hcaches
  simp only [lookup, getDist_fst]
  split
  · rfl
  have hsame : (collectCandidates path (self.dist path self.crypto.publicKey) self.peers.keys
      (self.getDist path self.crypto.publicKey).2).2.consider path = self.consider path := by
    funext best q
    simp only [consider, hall.dist, hall.getCost]
  simp only [(selectBest_eq path _ none _).1, hcand, hsame, bestFor]
  simp only [candidates, hself.dist, hself.peers]

theorem lookup_caches (self : Router) (path : List PeerPort) (watermark : UInt64) :
    Caches self (self.lookup path watermark).router := by
  have hself := self.getDist_caches path self.crypto.publicKey
  simp only [lookup]
  split
  · exact hself
  · exact hself.trans ((collectCandidates_eq ..).2.trans (selectBest_eq ..).2)

theorem lookup_watermark {watermark : UInt64} {id : PeerId} (h : (self.lookup path watermark).peerId = some id) :
    (self.lookup path watermark).watermark = self.dist path self.crypto.publicKey ∧
      self.dist path self.crypto.publicKey < watermark := by
  rw [lookup_peerId] at h
  split at h
  · exact absurd h (by simp)
  next hlt =>
    refine ⟨?_, UInt64.not_le.mp hlt⟩
    simp only [lookup, getDist_fst]
    rw [if_neg hlt]

theorem mem_candidates {bound : UInt64} {p : PeerEntry} : p ∈ self.candidates path bound self.peers.keys ↔
      ∃ k conns id, self.peers.lookup k = some conns ∧ conns.lookup id = some p ∧ self.dist path k < bound := by
  simp only [candidates, mem_flatMap, mem_keys_iff]
  constructor
  · rintro ⟨k, ⟨conns, hconns⟩, hp⟩
    split at hp
    next hlt =>
      rw [hconns, getD_some, mem_values] at hp
      obtain ⟨id, hid⟩ := hp
      exact ⟨k, conns, id, hconns, hid, hlt⟩
    · exact absurd hp not_mem_nil
  rintro ⟨k, conns, id, hconns, hid, hlt⟩
  refine ⟨k, ⟨conns, hconns⟩, ?_⟩
  rw [if_pos hlt, hconns, getD_some, mem_values]
  exact ⟨id, hid⟩

def rate (self : Router) (path : List PeerPort) (p : PeerEntry) : Best :=
  { peer := p, cost := self.getCost p.id, dist := self.dist path p.key }

def beats (self : Router) (path : List PeerPort) (p q : PeerEntry) : Bool :=
  (self.rate path q).accepts p (self.getCost p.id) (self.dist path p.key)

def nextHops (self : Router) (path : List PeerPort) : List PeerEntry :=
  self.candidates path (self.dist path self.crypto.publicKey) self.peers.keys

theorem foldl_consider (self : Router) (path : List PeerPort) (ps : List PeerEntry) : ∀ best : Option PeerEntry,
    ps.foldl (self.consider path) (best.map (self.rate path)) =
      (champion (self.beats path) best ps).map (self.rate path) := by
  induction ps with
  | nil => exact fun best => rfl
  | cons p ps ih =>
    intro best
    have hturn : self.consider path (best.map (self.rate path)) p =
        (challenge (self.beats path) best p).map (self.rate path) := by
      unfold consider challenge
      rw [Option.all_map]
      exact (apply_ite (Option.map (self.rate path)) _ (some p) best).symm
    rw [foldl_cons, hturn, ih]
    rfl

theorem bestFor_champion (self : Router) (path : List PeerPort) :
    self.bestFor path = (champion (self.beats path) none (self.nextHops path)).map (self.rate path) :=
  self.foldl_consider path (self.nextHops path) none

theorem exists_bestFor (h : self.candidates path (self.dist path self.crypto.publicKey) self.peers.keys ≠ []) :
    ∃ b, self.bestFor path = some b ∧
      b.peer ∈ self.candidates path (self.dist path self.crypto.publicKey) self.peers.keys := by
  have hsome : (champion (self.beats path) none (self.nextHops path)).isSome := champion_isSome (Or.inl h)
  obtain ⟨p, hp⟩ := isSome_iff_exists.mp hsome
  refine ⟨self.rate path p, ?_, (champion_mem hp).resolve_left nofun⟩
  rw [bestFor_champion, hp]
  rfl

theorem candidates_zero (self : Router) (path : List PeerPort) (keys : List PublicKey) :
    self.candidates path 0 keys = [] := by
  simp only [candidates, UInt64.not_lt_zero, if_false, flatMap_eq_nil_iff, implies_true]

theorem lookup_coordsOf_self (self : Router) (watermark : UInt64) :
    (self.lookup (self.coordsOf self.crypto.publicKey).path watermark).peerId = none := by
  rw [lookup_peerId]
  split
  · rfl
  next hlt =>
    rcases self.dist_coordsOf_self with h | h
    · rw [bestFor, h, candidates_zero]
      rfl
    · exact absurd (h ▸ le_u64Max watermark) hlt

end Yggdrasil.Router
