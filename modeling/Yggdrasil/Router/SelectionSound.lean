import Mathlib.Order.Bounds.Defs
import Yggdrasil.Router.Selection

/-!
# Choice of a parent: every order

`select_parent` reads two maps in an order about which nothing is known, and doubles costs without a check.
-/

namespace Yggdrasil.FullRouter
open Nat List Option HashMap Duration Router
variable {self r r' : FullRouter} {best found cur w : BestParent} {pk root : PublicKey} {ks : List PublicKey}
  {fs : List BestParent}

/-! ## The lowest cost over the connections to a peer -/

theorem foldl_lowest_lt {α : Type*} (cost : α → UInt64) (n : Nat) (as : List α) : ∀ init : UInt64,
    (as.foldl (fun c a => if cost a < c then cost a else c) init).toNat < n ↔
      init.toNat < n ∨ ∃ a ∈ as, (cost a).toNat < n := by
  induction as with
  | nil => simp
  | cons a as ih =>
    intro init
    rw [foldl_cons, ih]
    simp only [mem_cons, exists_eq_or_imp]
    split
    next hlt =>
      rw [UInt64.lt_iff_toNat_lt] at hlt
      constructor
      · exact .inr
      rintro (h | h)
      · exact .inl (by omega)
      · exact h
    next hge =>
      rw [UInt64.lt_iff_toNat_lt] at hge
      constructor
      · rintro (h | h)
        · exact .inl h
        · exact .inr (.inr h)
      rintro (h | h | h)
      · exact .inl h
      · exact .inl (by omega)
      · exact .inr h

variable {n i : Nat}

theorem lowestCost_lt {hops : UInt64} : (self.lowestCost pk hops).toNat < n ↔ u64Max.toNat < n ∨
    ∃ entry ∈ ((self.peers.lookup pk).getD ∅).values, (saturatingMul hops (self.getCost entry.id)).toNat < n :=
  foldl_lowest_lt _ n _ _

def Cheap (self : FullRouter) (pk : PublicKey) (hops : UInt64) : Prop :=
  ∃ conns id entry, self.peers.lookup pk = some conns ∧ conns.lookup id = some entry ∧
    CanDouble (saturatingMul hops (self.getCost entry.id))

theorem canDouble_lowestCost {hops : UInt64} : CanDouble (self.lowestCost pk hops) ↔ self.Cheap pk hops := by
  have hmax : ¬ u64Max.toNat < 2 ^ 63 := by decide
  unfold CanDouble Cheap
  rw [lowestCost_lt, or_iff_right hmax]
  cases self.peers.lookup pk with
  | none => simp [mem_values]
  | some conns =>
    simp only [getD_some, mem_values]
    constructor
    · rintro ⟨entry, ⟨id, hentry⟩, hlt⟩
      exact ⟨conns, id, entry, rfl, hentry, hlt⟩
    rintro ⟨conns', id, entry, hconns, hentry, hlt⟩
    cases hconns
    exact ⟨entry, ⟨id, hentry⟩, hlt⟩

/-! ## The current parent -/

def Retained (self : FullRouter) (root : PublicKey) : Prop :=
  (self.peers.lookup self.selfInfoParent).isSome ∧ ∃ ks, Ascent (parentOf self.infos) self.crypto.publicKey ks root

def Candidate (self : FullRouter) (pk : PublicKey) (ks : List PublicKey) (root : PublicKey) : Prop :=
  (self.responses.lookup pk).isSome ∧ Ascent (parentOf self.infos) pk ks root ∧ self.crypto.publicKey ∉ ks

theorem mem_offers_iff : found ∈ self.offers ↔ ∃ ks, self.Candidate found.parent ks found.root ∧
    found.cost = self.lowestCost found.parent ks.length.toUInt64 := by
  rw [mem_offers, offer_eq_some_iff]
  constructor
  · rintro ⟨hres, ks, hascent, hself, -, hcost⟩
    exact ⟨ks, ⟨hres, hascent, hself⟩, hcost⟩
  rintro ⟨ks, ⟨hres, hascent, hself⟩, hcost⟩
  exact ⟨hres, ks, hascent, hself, rfl, hcost⟩

theorem parentOf_self {p : PublicKey} (h : parentOf self.infos self.crypto.publicKey = some p) :
    self.selfInfoParent = p := by
  unfold selfInfoParent
  unfold parentOf at h
  rw [h]
  rfl

theorem parentOf_self_of_ne (h : self.selfInfoParent ≠ self.crypto.publicKey) :
    parentOf self.infos self.crypto.publicKey = some self.selfInfoParent := by
  unfold selfInfoParent at h ⊢
  unfold parentOf
  cases hinfo : self.infos.lookup self.crypto.publicKey with
  | none =>
    rw [hinfo] at h
    exact absurd rfl h
  | some info => rfl

theorem ascent_self (h : Ascent (parentOf self.infos) self.crypto.publicKey ks root)
    (hne : root ≠ self.crypto.publicKey) :
    ∃ ks', ks = self.crypto.publicKey :: ks' ∧ Ascent (parentOf self.infos) self.selfInfoParent ks' root ∧
      self.crypto.publicKey ∉ ks' := by
  have hnodup := h.nodup
  cases h with
  | root => exact absurd rfl hne
  | @up _ p _ ks' hparent _ htail =>
    rw [parentOf_self hparent]
    exact ⟨ks', rfl, htail, (nodup_cons.mp hnodup).1⟩

inductive Start (r : FullRouter) : BestParent → Prop
  | own : (∀ root, r.Retained root → r.crypto.publicKey ≤ root) →
      Start r { root := r.crypto.publicKey, parent := r.crypto.publicKey, cost := u64Max }
  | path {ks : List PublicKey} {root : PublicKey} : r.Retained root → root < r.crypto.publicKey →
      Ascent (parentOf r.infos) r.selfInfoParent ks root → r.crypto.publicKey ∉ ks →
      Start r { root, parent := r.selfInfoParent, cost := r.lowestCost r.selfInfoParent ks.length.toUInt64 }

theorem Retained.unique {root' : PublicKey} (h : self.Retained root) (h' : self.Retained root') : root = root' := by
  obtain ⟨-, ks, hks⟩ := h
  obtain ⟨-, ks', hks'⟩ := h'
  exact (hks.unique hks').2

theorem currentParent_start (self : FullRouter) : Start self self.currentParent := by
  unfold currentParent
  cases hpeers : self.peers.lookup self.selfInfoParent with
  | none =>
    refine Start.own fun root hroot => ?_
    have hconn := hroot.1
    rw [hpeers] at hconn
    cases hconn
  | some conns =>
    have hconn : (self.peers.lookup self.selfInfoParent).isSome := by rw [hpeers]; rfl
    by_cases h : ∃ ks root, Ascent (parentOf self.infos) self.crypto.publicKey ks root
    · obtain ⟨ks, root, h⟩ := h
      have hretained : self.Retained root := ⟨hconn, ks, h⟩
      simp only [getRootAndDists_of_ascent h, true_and]
      by_cases hlt : root < self.crypto.publicKey
      · obtain ⟨ks', rfl, htail, hself⟩ := ascent_self h (BitVec.ne_of_lt hlt)
        rw [if_pos hlt, lookup_numbered_root h, getD_some, UInt64.zero_add, length_cons, Nat.add_sub_cancel]
        exact Start.path hretained hlt htail hself
      rw [if_neg hlt]
      exact Start.own fun root' hroot' => hretained.unique hroot' ▸ BitVec.not_lt.mp hlt
    have hinvalid : ¬ (self.getRootAndDists self.crypto.publicKey).2.2 = true :=
      fun hvalid => h (getRootAndDists_valid_iff.mp hvalid)
    simp only
    rw [if_neg fun hvalid => hinvalid hvalid.1]
    exact Start.own fun root hroot => absurd ⟨_, root, hroot.2.choose_spec⟩ h

theorem Candidate.retained (h : self.Candidate self.selfInfoParent ks root) (hbook : self.Bookkept) :
    self.Retained root := by
  obtain ⟨hres, hascent, hself⟩ := h
  obtain ⟨res, hres⟩ := isSome_iff_exists.mp hres
  obtain ⟨req, hreq, -⟩ := hbook.responses _ _ hres
  have hne : self.selfInfoParent ≠ self.crypto.publicKey := fun heq => hself (heq ▸ hascent.mem_start)
  refine ⟨?_, _, Ascent.up (parentOf_self_of_ne hne) hne hascent⟩
  rw [hbook.requests, hreq]
  rfl

/-- No offer that can win overflows when doubled. -/
def CostsFit (self : FullRouter) : Prop := self.refresh = true → ∀ pk ks root, self.Candidate pk ks root →
  root ≤ self.crypto.publicKey → (∀ root', self.Retained root' → root ≤ root') → self.Cheap pk ks.length.toUInt64

theorem Start.le_self (h : Start self cur) : cur.root ≤ self.crypto.publicKey := by
  cases h with
  | own => exact BitVec.le_refl _
  | path _ hlt => exact BitVec.le_of_lt hlt

theorem Start.le_retained (h : Start self cur) {root : PublicKey} (hroot : self.Retained root) : cur.root ≤ root := by
  cases h with
  | own hall => exact hall root hroot
  | path hretained => exact hretained.unique hroot ▸ BitVec.le_refl _

theorem Candidate.root_ne (h : self.Candidate pk ks root) : root ≠ self.crypto.publicKey :=
  fun heq => h.2.2 (heq ▸ h.2.1.mem_root)

theorem Start.fair (h : Start self cur) (hbook : self.Bookkept) (hfit : self.CostsFit) : Fair self cur self.offers where
  fits f hf hle hrefresh := by
    obtain ⟨ks, hcand, hcost⟩ := mem_offers_iff.mp hf
    rw [hcost, canDouble_lowestCost]
    exact hfit hrefresh _ _ _ hcand (BitVec.le_trans hle h.le_self)
      fun root' hroot' => BitVec.le_trans hle (h.le_retained hroot')
  incumbent f hf hroot := by
    obtain ⟨ks, hcand, -⟩ := mem_offers_iff.mp hf
    cases h with
    | own => exact absurd hroot hcand.root_ne
    | path => rfl
  same f hf hparent hle := by
    obtain ⟨ks, hcand, hcost⟩ := mem_offers_iff.mp hf
    have hretained : self.Retained f.root := (hparent ▸ hcand).retained hbook
    have hroot : f.root = cur.root := BitVec.le_antisymm hle (h.le_retained hretained)
    cases h with
    | own => exact absurd hroot hcand.root_ne
    | path _ _ hascent =>
      have hascent' := hcand.2.1
      rw [hparent] at hascent' hcost
      obtain ⟨rfl, -⟩ := hascent.unique hascent'
      exact ⟨hroot, hcost⟩

/-! ## Every order -/

/-- The same router, with the peers, their connections and the responses in another order. -/
structure Reordered (r r' : FullRouter) : Prop where
  frame : r' = { r with peers := r'.peers, responses := r'.responses }
  responses : HashMap.Same r.responses r'.responses
  peers : HashMap.Same₂ r.peers r'.peers

namespace Reordered

theorem refl (r : FullRouter) : Reordered r r := ⟨rfl, HashMap.Same.refl _, HashMap.Same₂.refl _⟩

variable (h : Reordered r r')
include h

theorem infos : r'.infos = r.infos := by rw [h.frame]

theorem crypto : r'.crypto = r.crypto := by rw [h.frame]

theorem refresh : r'.refresh = r.refresh := by rw [h.frame]

theorem selfInfoParent : r'.selfInfoParent = r.selfInfoParent := by
  unfold FullRouter.selfInfoParent
  rw [h.infos, h.crypto]

theorem getRootAndDists (k : PublicKey) : r'.getRootAndDists k = r.getRootAndDists k := by
  unfold Router.getRootAndDists
  rw [h.infos]

theorem getCost (id : PeerId) : r'.getCost id = r.getCost id := by
  unfold Router.getCost
  rw [h.frame]

theorem mem_connections (k : PublicKey) {entry : PeerEntry} :
    entry ∈ ((r'.peers.lookup k).getD ∅).values ↔ entry ∈ ((r.peers.lookup k).getD ∅).values := by
  have hrel := h.peers k
  generalize r.peers.lookup k = conns at hrel ⊢
  generalize r'.peers.lookup k = conns' at hrel ⊢
  cases hrel with
  | none => exact Iff.rfl
  | some hsame => exact hsame.mem_values

theorem lowestCost (k : PublicKey) (hops : UInt64) : r'.lowestCost k hops = r.lowestCost k hops := by
  have hiff : ∀ n, (r'.lowestCost k hops).toNat < n ↔ (r.lowestCost k hops).toNat < n := by
    intro n
    rw [lowestCost_lt, lowestCost_lt]
    simp only [h.getCost, h.mem_connections]
  have hle := (hiff _).mpr (lt_succ_self _)
  have hge := (hiff _).mp (lt_succ_self _)
  apply UInt64.toNat.inj
  omega

theorem offer (k : PublicKey) : r'.offer k = r.offer k := by
  unfold FullRouter.offer
  rw [h.getRootAndDists, h.crypto]
  simp only [h.lowestCost]

theorem mem_offers : found ∈ r'.offers ↔ found ∈ r.offers := by
  rw [FullRouter.mem_offers, FullRouter.mem_offers, h.offer, h.responses]

theorem weigh : r'.weigh = r.weigh := by
  funext best found
  unfold FullRouter.weigh
  rw [h.refresh, h.selfInfoParent]

theorem currentParent : r'.currentParent = r.currentParent := by
  have hrel := h.peers r.selfInfoParent
  unfold FullRouter.currentParent
  rw [h.selfInfoParent, h.crypto]
  simp only [h.getRootAndDists, h.lowestCost]
  generalize r.peers.lookup r.selfInfoParent = conns at hrel ⊢
  generalize r'.peers.lookup r.selfInfoParent = conns' at hrel ⊢
  cases hrel <;> rfl

theorem leading : Leading r.currentParent r.offers r'.selectParent := by
  have hlead := r'.selectParent_leading
  rw [h.currentParent] at hlead
  exact ⟨hlead.mem.imp_right h.mem_offers.mp, hlead.le_cur, fun f hf => hlead.least f (h.mem_offers.mpr hf)⟩

theorem chosen (hfair : Fair r r.currentParent r.offers) :
    Chosen r.refresh r.currentParent r'.offers r'.selectParent := by
  rw [selectParent_eq, h.currentParent, h.weigh]
  exact foldl_chosen ⟨fun f hf => hfair.fits f (h.mem_offers.mp hf), fun f hf => hfair.incumbent f (h.mem_offers.mp hf),
    fun f hf => hfair.same f (h.mem_offers.mp hf)⟩

end Reordered

def Offered (r : FullRouter) (root : PublicKey) : Prop :=
  root = r.crypto.publicKey ∨ r.Retained root ∨ ∃ pk ks, r.Candidate pk ks root

structure Selection (r : FullRouter) (best : BestParent) : Prop where
  root : IsLeast {root | r.Offered root} best.root
  cost : best.parent = r.crypto.publicKey ∧ best.root = r.crypto.publicKey ∧ best.cost = u64Max ∨
    ∃ ks, Ascent (parentOf r.infos) best.parent ks best.root ∧ (r.peers.lookup best.parent).isSome ∧
      best.cost = r.lowestCost best.parent ks.length.toUInt64
  kept : r.refresh = false → r.Retained best.root → best.parent = r.selfInfoParent
  halved : r.refresh = true → r.Retained best.root → best.parent ≠ r.selfInfoParent →
    ∃ ks, Ascent (parentOf r.infos) r.selfInfoParent ks best.root ∧
      2 * best.cost.toNat < (r.lowestCost r.selfInfoParent ks.length.toUInt64).toNat

def SelectionSound (r : FullRouter) : Prop :=
  ∀ r', Reordered r r' → r.Selection r'.selectParent ∧ r'.selectParent.cost = r.selectParent.cost

def SelectionTotal (r : FullRouter) : Prop := ∀ r', Reordered r r' → r'.selectParentChecked = some r'.selectParent

theorem Leading.isLeast (h : Leading cur self.offers w) (hstart : Start self cur) :
    IsLeast {root | self.Offered root} w.root := by
  constructor
  · rcases h.mem with rfl | hmem
    · cases hstart with
      | own => exact .inl rfl
      | path hretained => exact .inr (.inl hretained)
    obtain ⟨ks, hcand, -⟩ := mem_offers_iff.mp hmem
    exact .inr (.inr ⟨_, ks, hcand⟩)
  rintro root (rfl | hretained | ⟨pk, ks, hcand⟩)
  · exact BitVec.le_trans h.le_cur hstart.le_self
  · exact BitVec.le_trans h.le_cur (hstart.le_retained hretained)
  exact h.least { root, parent := pk, cost := self.lowestCost pk ks.length.toUInt64 }
    (mem_offers_iff.mpr ⟨ks, hcand, rfl⟩)

theorem Candidate.connected (h : self.Candidate pk ks root) (hbook : self.Bookkept) :
    (self.peers.lookup pk).isSome := by
  obtain ⟨res, hres⟩ := isSome_iff_exists.mp h.1
  obtain ⟨req, hreq, -⟩ := hbook.responses _ _ hres
  rw [hbook.requests, hreq]
  rfl

theorem Start.parent_eq (h : Start self cur) (hretained : self.Retained cur.root) :
    cur.parent = self.selfInfoParent := by
  cases h with
  | own =>
    obtain ⟨-, ks, hascent⟩ := hretained
    exact (parentOf_self hascent.parent_root).symm
  | path => rfl

theorem Chosen.selection (h : Chosen self.refresh cur fs w) (hfs : ∀ f, f ∈ fs ↔ f ∈ self.offers)
    (hlead : Leading cur self.offers w) (hstart : Start self cur) (hbook : self.Bookkept) : self.Selection w where
  root := hlead.isLeast hstart
  cost := by
    rcases hlead.mem with rfl | hmem
    · cases hstart with
      | own => exact .inl ⟨rfl, rfl, rfl⟩
      | @path ks root hretained _ hascent => exact .inr ⟨ks, hascent, hretained.1, rfl⟩
    obtain ⟨ks, hcand, hcost⟩ := mem_offers_iff.mp hmem
    exact .inr ⟨ks, hcand.2.1, hcand.connected hbook, hcost⟩
  kept hrefresh hretained := by
    cases h with
    | kept hw =>
      subst hw
      exact hstart.parent_eq hretained
    | halved hrefresh' =>
      rw [hrefresh] at hrefresh'
      cases hrefresh'
    | lower _ hlt => exact absurd (root_lt_of_lt_of_le hlt (hstart.le_retained hretained)) (BitVec.lt_irrefl _)
  halved hrefresh hretained hne := by
    cases h with
    | kept hw =>
      subst hw
      exact absurd (hstart.parent_eq hretained) hne
    | halved _ hmem hroot hhalf =>
      obtain ⟨ks, hcand, -⟩ := mem_offers_iff.mp ((hfs w).mp hmem)
      cases hstart with
      | own => exact absurd hroot hcand.root_ne
      | @path ks root _ _ hascent => exact ⟨ks, hroot ▸ hascent, hhalf⟩
    | lower _ hlt => exact absurd (root_lt_of_lt_of_le hlt (hstart.le_retained hretained)) (BitVec.lt_irrefl _)

theorem considerParent_le (self : FullRouter) (best : BestParent) (pk : PublicKey) :
    (self.considerParent best pk).root ≤ best.root := by
  rw [considerParent_eq]
  cases self.offer pk with
  | none => exact BitVec.le_refl _
  | some found => exact (self.foldl_leading best [found]).le_cur

theorem foldlM_considerParentChecked {keys : List PublicKey}
    (hkeys : ∀ pk ∈ keys, ∀ found, self.offer pk = some found → found.root ≤ cur.root → self.refresh = true →
      CanDouble found.cost) : ∀ best : BestParent, best.root ≤ cur.root →
      keys.foldlM self.considerParentChecked best = some (keys.foldl self.considerParent best) := by
  induction keys with
  | nil => exact fun best _ => rfl
  | cons pk keys ih =>
    intro best hle
    have hfits : ¬ ∃ found, self.offer pk = some found ∧ self.refresh = true ∧ found.root ≤ best.root ∧
        ¬ CanDouble found.cost := by
      rintro ⟨found, hoffer, hrefresh, hroot, hcost⟩
      exact hcost (hkeys pk mem_cons_self found hoffer (BitVec.le_trans hroot hle) hrefresh)
    rw [foldlM_cons, considerParentChecked_eq, if_neg hfits, foldl_cons]
    exact ih (fun pk hpk => hkeys pk (mem_cons_of_mem _ hpk)) _
      (BitVec.le_trans (self.considerParent_le best pk) hle)

theorem selectParentChecked_eq (hfair : Fair self self.currentParent self.offers) :
    self.selectParentChecked = some self.selectParent := by
  refine foldlM_considerParentChecked (fun pk hpk found hoffer => ?_) _ (BitVec.le_refl _)
  exact hfair.fits found (mem_filterMap.mpr ⟨pk, hpk, hoffer⟩)

theorem costsFit_of_total (h : self.SelectionTotal) : self.CostsFit := by
  intro hrefresh pk ks root hcand hself hretained
  by_contra hcheap
  obtain ⟨res, hres⟩ := isSome_iff_exists.mp hcand.1
  have hreorder : Reordered self { self with responses := self.responses.insert pk res } :=
    ⟨rfl, same_insert hres, HashMap.Same₂.refl _⟩
  have hoffer : self.offer pk = some { root, parent := pk, cost := self.lowestCost pk ks.length.toUInt64 } :=
    offer_eq_some_iff.mpr ⟨ks, hcand.2.1, hcand.2.2, rfl, rfl⟩
  have hle : root ≤ self.currentParent.root := by
    have hstart := self.currentParent_start
    generalize self.currentParent = cur at hstart ⊢
    cases hstart with
    | own => exact hself
    | path hret => exact hretained _ hret
  have hkeys : (self.responses.insert pk res).keys = pk :: self.responses.keys.erase pk := AList.keys_insert _
  have htotal := h _ hreorder
  generalize hr : { self with responses := self.responses.insert pk res } = r at hreorder htotal
  have hfirst : r.responses.keys = pk :: self.responses.keys.erase pk := hr ▸ hkeys
  rw [selectParentChecked, hfirst, foldlM_cons, considerParentChecked_eq, if_pos] at htotal
  · cases htotal
  rw [hreorder.offer, hreorder.currentParent, hreorder.refresh]
  exact ⟨_, hoffer, hrefresh, hle, fun hcost => hcheap (canDouble_lowestCost.mp hcost)⟩

/-- **The choice of a parent is sound and independent of the order** of the maps, with and without overflow checks,
exactly if during a refresh every offer that can win costs less than `2^63`. -/
theorem selection_sound_iff {env : Env} (h : Reached env r) : r.SelectionSound ∧ r.SelectionTotal ↔ r.CostsFit := by
  refine ⟨fun hsound => costsFit_of_total hsound.2, fun hfit => ⟨fun r' hr' => ?_, fun r' hr' => ?_⟩⟩
  · have hfair := r.currentParent_start.fair h.bookkept hfit
    have hchosen := hr'.chosen hfair
    exact ⟨hchosen.selection (fun f => hr'.mem_offers) hr'.leading r.currentParent_start h.bookkept,
      ((Reordered.refl r).chosen hfair).cost_eq hchosen fun f => hr'.mem_offers⟩
  have hfair := r.currentParent_start.fair h.bookkept hfit
  refine selectParentChecked_eq ⟨fun f hf hle hrefresh => ?_, fun f hf hroot => ?_, fun f hf hparent hle => ?_⟩
  all_goals
    rw [hr'.currentParent] at *
    rw [hr'.mem_offers] at hf
  · exact hfair.fits f hf hle (hr'.refresh ▸ hrefresh)
  · rw [hr'.selfInfoParent]
    exact hfair.incumbent f hf hroot
  rw [hr'.selfInfoParent] at hparent
  exact hfair.same f hf hparent hle

/-! ## A long chain behind a slow link -/

def chainKey (i : Nat) : PublicKey := BitVec.ofNat 256 (i + 1)

def chainAnnounce (i : Nat) : RouterAnnounce :=
  { key := chainKey i, parent := chainKey (i - 1), seq := 1, nonce := 0, port := 1, psig := 0, sig := 0 }

def chainInfos : Nat → HashMap PublicKey RouterInfo
  | 0 => ∅
  | n + 1 => (chainInfos n).insert (chainKey n) (chainAnnounce n).info

theorem chainKey_inj {j : Nat} (hi : i < 2 ^ 255) (hj : j < 2 ^ 255) : chainKey i = chainKey j ↔ i = j := by
  unfold chainKey
  rw [← BitVec.toNat_inj, BitVec.toNat_ofNat, BitVec.toNat_ofNat, mod_eq_of_lt (by omega), mod_eq_of_lt (by omega)]
  omega

theorem lookup_chainInfos (hi : i < 2 ^ 255) (hn : n ≤ 2 ^ 255) :
    (chainInfos n).lookup (chainKey i) = if i < n then some (chainAnnounce i).info else none := by
  induction n with
  | zero => rfl
  | succ n ih =>
    rw [chainInfos, lookup_insert, ih (by omega)]
    by_cases h : i = n
    · rw [if_pos (h ▸ rfl), if_pos (by omega), h]
    rw [if_neg fun heq => h ((chainKey_inj hi (by omega)).mp heq)]
    congr 1
    exact propext ⟨fun _ => by omega, fun _ => by omega⟩

theorem ascent_chain (h : i < n) (hn : n ≤ 2 ^ 255) : ∃ ks, ks.length = i + 1 ∧ (∀ x ∈ ks, ∃ j ≤ i, x = chainKey j) ∧
      Ascent (parentOf (chainInfos n)) (chainKey i) ks (chainKey 0) := by
  have hparent : ∀ j < n, parentOf (chainInfos n) (chainKey j) = some (chainKey (j - 1)) := by
    intro j hj
    rw [parentOf, lookup_chainInfos (by omega) hn, if_pos hj]
    rfl
  induction i with
  | zero => exact ⟨[chainKey 0], rfl, fun x hx => ⟨0, le_refl 0, mem_singleton.mp hx⟩, Ascent.root (hparent 0 h)⟩
  | succ i ih =>
    obtain ⟨ks, hlength, hmem, hascent⟩ := ih (by omega)
    have hne : chainKey i ≠ chainKey (i + 1) := fun heq => by
      have := (chainKey_inj (by omega) (by omega)).mp heq
      omega
    refine ⟨chainKey (i + 1) :: ks, by rw [length_cons, hlength], fun x hx => ?_,
      Ascent.up (hparent (i + 1) h) hne hascent⟩
    rcases mem_cons.mp hx with rfl | hx
    · exact ⟨i + 1, le_refl _, rfl⟩
    obtain ⟨j, hj, rfl⟩ := hmem x hx
    exact ⟨j, by omega, rfl⟩

def chainLength : Nat := 2 ^ 24

def chainNode : FullRouter :=
  FullRouter.new ⟨chainKey (2 ^ 255 - 1), fun _ => 0⟩ ⟨⟨0, 0, none⟩, 0, 0⟩ 0

def nearPeer : PeerEntry := ⟨1, chainKey 0, 1, 0, 0⟩

def farPeer : PeerEntry := ⟨2, chainKey (chainLength - 1), 2, 0, 1⟩

def chainMsgs : List Msg :=
  [.addPeer nearPeer, .addPeer farPeer, .handleResponse 1 (chainKey 0) ⟨1, 0, 1, 0⟩ (fromMillis 1),
    .handleResponse 2 (chainKey (chainLength - 1)) ⟨1, 0, 2, 0⟩ (fromMillis (2 ^ 38))]

def signingEnv : Env := ⟨fun _ _ _ => true, fun _ => 0⟩

def quietCall (msg : Msg) : Call := ⟨⟨0, 0⟩, fun _ => 0, msg⟩

structure Chained (n : Nat) (r : FullRouter) : Prop where
  reached : ReachedFrom signingEnv chainNode r
  crypto : r.crypto = chainNode.crypto
  infos : r.infos = chainInfos n
  peers : r.peers = ((∅ : HashMap PublicKey (HashMap PeerId PeerEntry)).insert nearPeer.key
    ((∅ : HashMap PeerId PeerEntry).insert 1 nearPeer)).insert farPeer.key
      ((∅ : HashMap PeerId PeerEntry).insert 2 farPeer)
  responses : r.responses.keys = [farPeer.key, nearPeer.key]
  lags : r.lags = ((∅ : HashMap PeerId Duration).insert 1 (fromMillis 2)).insert 2 (fromMillis (2 ^ 39))

theorem chained_zero : ∃ r, Chained 0 r := by
  obtain ⟨r, hr, -⟩ := (bookkept_new ⟨chainKey (2 ^ 255 - 1), fun _ => 0⟩ ⟨⟨0, 0, none⟩, 0, 0⟩ 0).execAll signingEnv
    (chainMsgs.map quietCall)
  refine ⟨r, ReachedFrom.start.execAll hr, Lts.read_eq (fun r => r.crypto) hr ?_, Lts.read_eq (fun r => r.infos) hr ?_,
    Lts.read_eq (fun r => r.peers) hr ?_, Lts.read_eq (fun r => r.responses.keys) hr ?_,
    Lts.read_eq (fun r => r.lags) hr ?_⟩
  · rfl
  · rfl
  · rfl
  · decide +kernel
  · rfl

theorem Chained.succ (h : Chained n r) (hn : n < 2 ^ 255 - 1) : ∃ r', Chained (n + 1) r' := by
  have hnew : r.infos.lookup (chainAnnounce n).key = none := by
    show r.infos.lookup (chainKey n) = none
    rw [h.infos, lookup_chainInfos (by omega) (by omega), if_neg (lt_irrefl n)]
  have hother : (chainAnnounce n).key ≠ (r.stored (chainAnnounce n) 0).crypto.publicKey := by
    show chainKey n ≠ r.crypto.publicKey
    rw [h.crypto]
    intro heq
    have := (chainKey_inj (by omega) (by omega)).mp heq
    omega
  have hupdate : r.update (chainAnnounce n) 0 = (true, r.stored (chainAnnounce n) 0) := by
    unfold update Router.update
    rw [hnew]
    rfl
  have hrouter : (r.handleAnnounce 1 (chainKey 0) (chainAnnounce n) 0).router =
      (r.stored (chainAnnounce n) 0).markSent (chainKey 0) (chainAnnounce n).key := by
    unfold handleAnnounce
    rw [hupdate]
    simp only [if_true, if_neg hother]
  have hexec : r.exec signingEnv (quietCall (.handleAnnounce 1 (chainKey 0) (chainAnnounce n))) =
      some (r.handleAnnounce 1 (chainKey 0) (chainAnnounce n) 0) := rfl
  have hreached := h.reached.exec hexec
  rw [hrouter] at hreached
  refine ⟨_, hreached, h.crypto, ?_, h.peers, h.responses, h.lags⟩
  show r.infos.insert _ _ = _
  rw [h.infos]
  rfl

theorem exists_chained (n : Nat) (hn : n < 2 ^ 255) : ∃ r, Chained n r := by
  induction n with
  | zero => exact chained_zero
  | succ n ih =>
    obtain ⟨r, h⟩ := ih (by omega)
    exact h.succ (by omega)

theorem Chained.pass (h : Chained n r) : Chained n ((r.forceRefresh 0).ready 0) where
  reached := (h.reached.forceRefresh 0).ready 0
  crypto := by
    rw [ready_frame]
    exact h.crypto
  infos := by
    rw [ready_frame]
    exact h.infos
  peers := by
    rw [ready_frame]
    exact h.peers
  responses := by
    rw [ready_frame]
    exact h.responses
  lags := by
    rw [ready_frame]
    exact h.lags

theorem forced_refresh (r : FullRouter) : ((r.forceRefresh 0).ready 0).refresh = true := by
  unfold FullRouter.ready updateAncestries refreshTimer
  split <;> rfl

theorem getCost_fromMillis {r : Router} {id : PeerId} (h : r.lags.lookup id = some (Duration.fromMillis n)) :
    r.getCost id = if n.toUInt64 = 0 then 1 else n.toUInt64 := by
  have hms : fromMillis n / fromMillis 1 = n := by
    unfold fromMillis
    rw [Nat.one_mul, Nat.mul_div_cancel _ (by decide)]
  unfold getCost
  rw [h, getD_some, hms]

theorem far_ne_near : farPeer.key ≠ nearPeer.key := fun heq => by
  have := (chainKey_inj (by decide) (by decide)).mp heq
  unfold chainLength at this
  omega

theorem Chained.lowestCost_near (h : Chained n r) : r.lowestCost nearPeer.key 1 = 2 := by
  have hlag : r.lags.lookup nearPeer.id = some (fromMillis 2) := by
    rw [h.lags, lookup_insert, if_neg (by decide), lookup_insert, if_pos (by decide)]
  have hconns : r.peers.lookup nearPeer.key = some ((∅ : HashMap PeerId PeerEntry).insert 1 nearPeer) := by
    rw [h.peers, lookup_insert, if_neg far_ne_near.symm, lookup_insert, if_pos rfl]
  unfold FullRouter.lowestCost
  rw [hconns, getD_some, show HashMap.values _ = [nearPeer] from rfl, foldl_cons, foldl_nil, getCost_fromMillis hlag]
  decide

theorem Chained.lowestCost_far (h : Chained n r) :
    r.lowestCost farPeer.key chainLength.toUInt64 = 0x8000000000000000 := by
  have hlag : r.lags.lookup farPeer.id = some (fromMillis (2 ^ 39)) := by
    rw [h.lags, lookup_insert, if_pos (by decide)]
  have hconns : r.peers.lookup farPeer.key = some ((∅ : HashMap PeerId PeerEntry).insert 2 farPeer) := by
    rw [h.peers, lookup_insert, if_pos rfl]
  unfold FullRouter.lowestCost
  rw [hconns, getD_some, show HashMap.values _ = [farPeer] from rfl, foldl_cons, foldl_nil, getCost_fromMillis hlag]
  decide +kernel

theorem Chained.offer_of_lt (h : Chained n r) (hi : i < n) (hn : n < 2 ^ 255) : r.offer (chainKey i) =
    some { root := chainKey 0, parent := chainKey i, cost := r.lowestCost (chainKey i) (i + 1).toUInt64 } := by
  obtain ⟨ks, hlength, hmem, hascent⟩ := ascent_chain hi (by omega)
  rw [← h.infos] at hascent
  rw [offer_of_ascent hascent, if_neg, hlength]
  intro hself
  obtain ⟨j, hj, heq⟩ := hmem _ hself
  rw [h.crypto] at heq
  have := (chainKey_inj (by omega) (by omega)).mp heq
  omega

def ownOffer : BestParent :=
  { root := chainNode.crypto.publicKey, parent := chainNode.crypto.publicKey, cost := u64Max }

theorem Chained.currentParent (h : Chained n r) (hn : n < 2 ^ 255) : r.currentParent = ownOffer := by
  have hinfo : r.infos.lookup chainNode.crypto.publicKey = none := by
    show r.infos.lookup (chainKey (2 ^ 255 - 1)) = none
    rw [h.infos, lookup_chainInfos (by omega) (by omega), if_neg (by omega)]
  have hparent : r.selfInfoParent = chainNode.crypto.publicKey := by
    unfold selfInfoParent
    rw [h.crypto, hinfo]
    rfl
  have hpeers : r.peers.lookup chainNode.crypto.publicKey = none := by
    rw [h.peers, lookup_insert, if_neg, lookup_insert, if_neg, lookup_empty]
    · intro heq
      have := (chainKey_inj (by omega) (by omega)).mp heq
      omega
    intro heq
    have := (chainKey_inj (by omega) (by decide)).mp heq
    unfold chainLength at this
    omega
  unfold FullRouter.currentParent
  rw [hparent, hpeers, h.crypto]
  rfl

def nearOffer : BestParent := { root := chainKey 0, parent := nearPeer.key, cost := 2 }

def farOffer : BestParent := { root := chainKey 0, parent := farPeer.key, cost := 0x8000000000000000 }

theorem Chained.offers (h : Chained chainLength r) : r.offer nearPeer.key = some nearOffer ∧
    r.offer farPeer.key = some farOffer := by
  have hlt : chainLength < 2 ^ 255 := by decide
  have hnear := h.offer_of_lt (i := 0) (by decide) hlt
  have hfar := h.offer_of_lt (i := chainLength - 1) (by decide) hlt
  constructor
  · rw [show nearPeer.key = chainKey 0 from rfl, hnear]
    exact congrArg some (congrArg (BestParent.mk _ _) h.lowestCost_near)
  rw [show farPeer.key = chainKey (chainLength - 1) from rfl, hfar]
  exact congrArg some (congrArg (BestParent.mk _ _) h.lowestCost_far)

theorem Chained.weigh (h : Chained chainLength r) (hrefresh : r.refresh = true) :
    [farOffer, nearOffer].foldl r.weigh r.currentParent = nearOffer ∧
      [nearOffer, farOffer].foldl r.weigh r.currentParent = farOffer := by
  have hroot : chainKey 0 < ownOffer.root := by decide +kernel
  have hfar : r.weigh ownOffer farOffer = farOffer := weigh_of_lt hroot
  have hnear : r.weigh ownOffer nearOffer = nearOffer := weigh_of_lt hroot
  have hroots : nearOffer.root = farOffer.root := rfl
  have hback : r.weigh farOffer nearOffer = nearOffer := by
    rw [weigh_of_eq hroots, if_pos (.inl ⟨hrefresh, by decide⟩)]
  have hforth : r.weigh nearOffer farOffer = farOffer := by
    rw [weigh_of_eq hroots.symm, if_pos (.inl ⟨hrefresh, by decide⟩)]
  rw [h.currentParent (by decide)]
  simp only [foldl_cons, foldl_nil, hfar, hnear, hback, hforth, and_self]

theorem Chained.lags_lt (h : Chained n r) (id : PeerId) (lag : Duration) (hlag : r.lags.lookup id = some lag) :
    lag < fromMillis (2 ^ 40) := by
  rw [h.lags, lookup_insert, lookup_insert, lookup_empty] at hlag
  split at hlag
  · cases hlag
    decide
  split at hlag
  · cases hlag
    decide
  · cases hlag

theorem Chained.costsFit (h : Chained 1 r) : r.CostsFit := by
  intro _ pk ks root hcand _ _
  have hascent := hcand.2.1
  rw [h.infos] at hascent
  have hkey : pk ∈ [farPeer.key, nearPeer.key] := by
    rw [← h.responses]
    exact mem_keys_iff.mpr (isSome_iff_exists.mp hcand.1)
  rw [mem_cons, mem_singleton] at hkey
  rcases hkey with rfl | rfl
  · have hsome := hascent.isSome_of_mem _ hascent.mem_start
    cases hsome
  obtain ⟨ks', hlength, -, hascent'⟩ := ascent_chain (i := 0) (n := 1) (by decide) (by decide)
  obtain ⟨rfl, -⟩ := hascent.unique hascent'
  have hone : ks.length.toUInt64 = 1 := by
    rw [hlength]
    rfl
  rw [← canDouble_lowestCost, hone, h.lowestCost_near]
  decide

theorem selection_sound_near : ∃ r, Reached signingEnv r ∧ r.refresh = true ∧
    r.responses.keys = [farPeer.key, nearPeer.key] ∧ r.CostsFit ∧ r.SelectionSound ∧ r.SelectionTotal := by
  obtain ⟨r, h⟩ := exists_chained 1 (by decide)
  exact ⟨_, ⟨_, _, _, h.pass.reached⟩, forced_refresh r, h.pass.responses, h.pass.costsFit,
    (selection_sound_iff ⟨_, _, _, h.pass.reached⟩).mpr h.pass.costsFit⟩

theorem selection_overflows : ¬ ∀ env r, Reached env r →
    (∀ id lag, r.lags.lookup id = some lag → lag < Duration.fromMillis (2 ^ 40)) → r.SelectionSound := by
  intro hclaim
  obtain ⟨r₀, h₀⟩ := exists_chained chainLength (by decide)
  have hrefresh := forced_refresh r₀
  have h := h₀.pass
  generalize (r₀.forceRefresh 0).ready 0 = r at h hrefresh
  obtain ⟨hnear, hfar⟩ := h.offers
  obtain ⟨res, hres⟩ : ∃ res, r.responses.lookup nearPeer.key = some res := by
    rw [← mem_keys_iff, h.responses]
    exact mem_cons_of_mem _ mem_cons_self
  have hreorder : Reordered r { r with responses := r.responses.insert nearPeer.key res } :=
    ⟨rfl, same_insert hres, HashMap.Same₂.refl _⟩
  have hkeys : (r.responses.insert nearPeer.key res).keys = [nearPeer.key, farPeer.key] := by
    refine (AList.keys_insert _).trans ?_
    rw [h.responses]
    exact congrArg (List.cons nearPeer.key) (by decide +kernel)
  have hcost := (hclaim signingEnv r ⟨_, _, _, h.reached⟩ h.lags_lt _ hreorder).2
  rw [selectParent_eq, selectParent_eq, hreorder.weigh, hreorder.currentParent] at hcost
  unfold FullRouter.offers at hcost
  rw [funext hreorder.offer, hkeys, h.responses, filterMap_cons_some hnear, filterMap_cons_some hfar,
    filterMap_cons_some hfar, filterMap_cons_some hnear, filterMap_nil, (h.weigh hrefresh).1,
    (h.weigh hrefresh).2] at hcost
  exact absurd hcost (by decide)

end Yggdrasil.FullRouter
