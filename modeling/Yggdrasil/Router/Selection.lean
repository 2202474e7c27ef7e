import Yggdrasil.Router.Walks

/-!
# Choice of a parent: the loop

`select_parent` goes once through the peers that have answered and keeps the best root, the parent and its cost
together.
-/

namespace Yggdrasil
open Nat List Option UInt64

def checkedMul (a b : UInt64) : Option UInt64 := if a.toNat * b.toNat < UInt64.size then some (a * b) else none

def CanDouble (a : UInt64) : Prop := a.toNat < 2 ^ 63

instance (a : UInt64) : Decidable (CanDouble a) := inferInstanceAs (Decidable (a.toNat < 2 ^ 63))

theorem checkedMul_two (a : UInt64) : checkedMul a 2 = if CanDouble a then some (a * 2) else none := by
  have htwo : (2 : UInt64).toNat = 2 := rfl
  unfold checkedMul CanDouble UInt64.size
  rw [htwo]
  congr 1
  exact propext ⟨fun h => by omega, fun h => by omega⟩

theorem CanDouble.toNat_mul_two {a : UInt64} (h : CanDouble a) : (a * 2).toNat = 2 * a.toNat := by
  have htwo : (2 : UInt64).toNat = 2 := rfl
  unfold CanDouble at h
  rw [UInt64.toNat_mul, htwo, mod_eq_of_lt] <;> omega

namespace FullRouter

/-! ## States of the router task -/

variable (self : FullRouter)

def ready (now : Instant) : FullRouter :=
  let self := self.refreshTimer now
  updateAncestries { self with doRoot2 := self.doRoot2 || self.doRoot1, cache := ∅ }

def afterFix (env : Env) (clk : Clock) (fixed : Outcome) : Option Outcome :=
  match fixed.router.sendAnnounces with
  | none => none
  | some announced =>
    match announced.router.bloomsMaintenance env with
    | none => none
    | some bloomed =>
      let paths := bloomed.router.lift (Router.maintainPaths env clk bloomed.router.toRouter)
      some { paths with actions := fixed.actions ++ announced.actions ++ bloomed.actions ++ paths.actions }

theorem doMaintenance_eq (env : Env) (self : FullRouter) (clk : Clock) (rand : Nat → UInt64) :
    self.doMaintenance env clk rand = afterFix env clk ((self.ready clk.now).fix rand clk.now) := rfl

/-- The later states of a router: between two messages, and in a maintenance pass up to the choice of a parent. -/
inductive ReachedFrom (env : Env) (start : FullRouter) : FullRouter → Prop
  | start : ReachedFrom env start start
  | exec {r : FullRouter} {call : Call} {o : Outcome} : ReachedFrom env start r → r.exec env call = some o →
      ReachedFrom env start o.router
  | forceRefresh {r : FullRouter} (now : Instant) : ReachedFrom env start r → ReachedFrom env start (r.forceRefresh now)
  | expireInfos {r : FullRouter} (now : Instant) : ReachedFrom env start r → ReachedFrom env start (r.expireInfos now)
  | ready {r : FullRouter} (now : Instant) : ReachedFrom env start r → ReachedFrom env start (r.ready now)

def Reached (env : Env) (r : FullRouter) : Prop :=
  ∃ crypto config now, ReachedFrom env (FullRouter.new crypto config now) r

theorem ready_frame (now : Instant) : self.ready now = { self with
      refresh := (self.ready now).refresh, lastRefresh := (self.ready now).lastRefresh
      doRoot2 := (self.ready now).doRoot2, cache := ∅, ancs := (self.ready now).ancs } := by
  unfold ready updateAncestries refreshTimer
  split <;> rfl

theorem Bookkept.ready {self : FullRouter} (h : self.Bookkept) (now : Instant) : (self.ready now).Bookkept := by
  rw [ready_frame]
  exact h.of_same rfl (HashMap.SameKeys.refl _) (HashMap.SameKeys.refl _) rfl rfl

theorem ReachedFrom.bookkept {env : Env} {start r : FullRouter} (h : ReachedFrom env start r)
    (hstart : start.Bookkept) :
    r.Bookkept := by
  induction h with
  | start => exact hstart
  | @exec r call o _ ho ih =>
    obtain ⟨o', ho', hbook⟩ := ih.exec env call
    obtain rfl := some.inj (ho.symm.trans ho')
    exact hbook
  | forceRefresh now _ ih => exact ih.forceRefresh now
  | expireInfos now _ ih => exact expireInfos_induct ih (fun r k hr => hr.expire k) now
  | ready now _ ih => exact ih.ready now

theorem ReachedFrom.execAll {env : Env} {start r r' : FullRouter} (h : ReachedFrom env start r) {calls : List Call}
    (hr : r.execAll env calls = some r') : ReachedFrom env start r' := by
  induction calls generalizing r with
  | nil =>
    cases hr
    exact h
  | cons call calls ih =>
    unfold FullRouter.execAll at hr
    rw [foldlM_cons, bind_eq_bind, bind_eq_some_iff] at hr
    obtain ⟨r₁, hr₁, hrest⟩ := hr
    obtain ⟨o, ho, rfl⟩ := map_eq_some_iff.mp hr₁
    exact ih (h.exec ho) hrest

theorem Reached.bookkept {env : Env} {r : FullRouter} (h : Reached env r) : r.Bookkept := by
  obtain ⟨crypto, config, now, h⟩ := h
  exact h.bookkept (bookkept_new crypto config now)

/-! ## One turn of the loop -/

variable {self r r' : FullRouter} {best found : BestParent} {pk root : PublicKey} {ks : List PublicKey}

def offer (self : FullRouter) (pk : PublicKey) : Option BestParent :=
  let (pRoot, pDists, valid) := self.getRootAndDists pk
  if valid ∧ pDists.lookup self.crypto.publicKey = none then
    some { root := pRoot, parent := pk, cost := self.lowestCost pk (((pDists.lookup pRoot).map (· + 1)).getD u64Max) }
  else none

def weigh (self : FullRouter) (best found : BestParent) : BestParent :=
  if found.root < best.root then found
  else if found.root ≠ best.root then best
  else if self.refresh ∧ found.cost * 2 < best.cost ∨ best.parent ≠ self.selfInfoParent ∧
    found.cost < best.cost then found
  else best

def considerParentChecked (self : FullRouter) (best : BestParent) (pk : PublicKey) : Option BestParent :=
  if (self.infos.lookup pk).isNone then some best
  else
    let (pRoot, pDists, valid) := self.getRootAndDists pk
    if !valid then some best
    else if (pDists.lookup self.crypto.publicKey).isSome then some best
    else
      let cost := self.lowestCost pk (((pDists.lookup pRoot).map (· + 1)).getD u64Max)
      let found : BestParent := { root := pRoot, parent := pk, cost }
      let better := fun best : BestParent =>
        if self.refresh then
          (checkedMul cost 2).map fun doubled =>
            if doubled < best.cost ∨ best.parent ≠ self.selfInfoParent ∧ cost < best.cost then found else best
        else some (if best.parent ≠ self.selfInfoParent ∧ cost < best.cost then found else best)
      if pRoot < best.root then better found
      else if pRoot ≠ best.root then some best
      else better best

def selectParentChecked (self : FullRouter) : Option BestParent :=
  self.responses.keys.foldlM self.considerParentChecked self.currentParent

theorem offer_of_ascent (h : Ascent (parentOf self.infos) pk ks root) : self.offer pk =
    if self.crypto.publicKey ∈ ks then none
    else some { root, parent := pk, cost := self.lowestCost pk ks.length.toUInt64 } := by
  have hpos := h.length_pos
  have hlength : (0 + (ks.length - 1).toUInt64 + 1 : UInt64) = ks.length.toUInt64 := by
    rw [UInt64.zero_add, ← Nat.sub_add_cancel hpos, Nat.add_sub_cancel]
    simp only [toUInt64_eq, ofNat_add]
    rfl
  have hmem := isSome_lookup_numbered (k := self.crypto.publicKey) ks 0 ∅
  unfold offer
  rw [Router.getRootAndDists_of_ascent h]
  simp only [lookup_numbered_root h, map_some, getD_some, hlength, true_and]
  by_cases hself : self.crypto.publicKey ∈ ks
  · rw [if_pos hself, if_neg]
    intro hnone
    rw [hnone] at hmem
    exact absurd (hmem.mpr (.inl hself)) (by simp)
  rw [if_neg hself, if_pos]
  rw [← not_isSome_iff_eq_none, hmem]
  simp [hself]

theorem offer_of_not_ascent (h : ¬ ∃ ks root, Ascent (parentOf self.infos) pk ks root) : self.offer pk = none := by
  have hinvalid : ¬ (self.getRootAndDists pk).2.2 = true := fun hvalid => h (Router.getRootAndDists_valid_iff.mp hvalid)
  exact if_neg fun hvalid => hinvalid hvalid.1

theorem offer_eq_some_iff : self.offer pk = some found ↔ ∃ ks, Ascent (parentOf self.infos) pk ks found.root ∧
    self.crypto.publicKey ∉ ks ∧ found.parent = pk ∧ found.cost = self.lowestCost pk ks.length.toUInt64 := by
  by_cases h : ∃ ks root, Ascent (parentOf self.infos) pk ks root
  · obtain ⟨ks, root, h⟩ := h
    rw [offer_of_ascent h]
    constructor
    · intro hfound
      rw [ite_none_left_eq_some] at hfound
      obtain ⟨hself, hfound⟩ := hfound
      cases hfound
      exact ⟨ks, h, hself, rfl, rfl⟩
    rintro ⟨ks', h', hself, hparent, hcost⟩
    obtain ⟨rfl, hroot⟩ := h.unique h'
    rw [if_neg hself, hroot, ← hcost, ← hparent]
  rw [offer_of_not_ascent h]
  constructor
  · intro hfound
    cases hfound
  rintro ⟨ks, h', -⟩
  exact absurd ⟨ks, found.root, h'⟩ h

theorem offer_of_unknown (h : self.infos.lookup pk = none) : self.offer pk = none := by
  refine offer_of_not_ascent ?_
  rintro ⟨ks, root, hascent⟩
  have hsome := hascent.isSome_of_mem pk hascent.mem_start
  rw [parentOf, h] at hsome
  cases hsome

theorem considerParent_eq (self : FullRouter) (best : BestParent) (pk : PublicKey) :
    self.considerParent best pk = ((self.offer pk).map (self.weigh best)).getD best := by
  unfold considerParent
  by_cases hinfo : self.infos.lookup pk = none
  · rw [offer_of_unknown hinfo, hinfo]
    rfl
  rw [if_neg (by simpa using hinfo), offer]
  obtain ⟨pRoot, pDists, valid⟩ := self.getRootAndDists pk
  cases valid with
  | false => simp
  | true =>
    cases hself : pDists.lookup self.crypto.publicKey with
    | some d => simp [hself]
    | none =>
      simp only [hself, Bool.not_true, Bool.false_eq_true, if_false, isSome_none, true_and, if_true,
        map_some, getD_some, weigh]
      split
      · split <;> rfl
      · rfl

theorem considerParentChecked_eq (self : FullRouter) (best : BestParent) (pk : PublicKey) :
    self.considerParentChecked best pk =
      if ∃ found, self.offer pk = some found ∧ self.refresh = true ∧ found.root ≤ best.root ∧
        ¬ CanDouble found.cost then none
      else some (self.considerParent best pk) := by
  rw [considerParent_eq]
  unfold considerParentChecked
  by_cases hinfo : self.infos.lookup pk = none
  · rw [offer_of_unknown hinfo, hinfo]
    simp
  rw [if_neg (by simpa using hinfo), offer]
  obtain ⟨pRoot, pDists, valid⟩ := self.getRootAndDists pk
  cases valid with
  | false => simp
  | true =>
    cases hself : pDists.lookup self.crypto.publicKey with
    | some d => simp [hself]
    | none =>
      simp only [hself, Bool.not_true, Bool.false_eq_true, if_false, isSome_none, true_and, if_true,
        map_some, getD_some, weigh, some.injEq, exists_eq_left', checkedMul_two]
      generalize self.lowestCost pk _ = cost
      by_cases hlt : pRoot < best.root
      · have hle : pRoot ≤ best.root := BitVec.le_of_lt hlt
        by_cases hrefresh : self.refresh = true
        · by_cases hcost : CanDouble cost <;> simp [hlt, hle, hrefresh, hcost]
        · simp [hlt, hrefresh]
      by_cases heq : pRoot = best.root
      · subst heq
        by_cases hrefresh : self.refresh = true
        · by_cases hcost : CanDouble cost <;> simp [hlt, hrefresh, hcost]
        · simp [hlt, hrefresh]
      have hle : ¬ pRoot ≤ best.root := fun hle => heq (BitVec.le_antisymm hle (BitVec.not_lt.mp hlt))
      simp [hlt, heq, hle]

/-! ## The loop -/

def offers (self : FullRouter) : List BestParent := self.responses.keys.filterMap self.offer

theorem selectParent_eq (self : FullRouter) : self.selectParent = self.offers.foldl self.weigh self.currentParent := by
  unfold selectParent offers
  rw [foldl_filterMap]
  congr 1
  funext best pk
  rw [considerParent_eq]
  cases self.offer pk <;> rfl

theorem mem_offers : found ∈ self.offers ↔ (self.responses.lookup found.parent).isSome ∧
    self.offer found.parent = some found := by
  rw [offers, mem_filterMap, isSome_iff_exists, ← HashMap.mem_keys_iff]
  constructor
  · rintro ⟨pk, hpk, hoffer⟩
    obtain ⟨ks, -, -, rfl, -⟩ := offer_eq_some_iff.mp hoffer
    exact ⟨hpk, hoffer⟩
  rintro ⟨hpk, hoffer⟩
  exact ⟨found.parent, hpk, hoffer⟩

theorem root_cases (a b : PublicKey) : a < b ∨ a = b ∨ b < a := by
  rw [BitVec.lt_def, BitVec.lt_def, ← BitVec.toNat_inj]
  omega

theorem root_lt_of_lt_of_le {a b c : PublicKey} (h : a < b) (h' : b ≤ c) : a < c := by
  rw [BitVec.lt_def] at h ⊢
  rw [BitVec.le_def] at h'
  omega

theorem root_lt_of_le_of_lt {a b c : PublicKey} (h : a ≤ b) (h' : b < c) : a < c := by
  rw [BitVec.lt_def] at h' ⊢
  rw [BitVec.le_def] at h
  omega

theorem weigh_of_lt (h : found.root < best.root) : self.weigh best found = found := if_pos h

theorem weigh_of_gt (h : best.root < found.root) : self.weigh best found = best := by
  unfold weigh
  rw [if_neg (BitVec.lt_asymm h), if_pos (BitVec.ne_of_lt h).symm]

theorem weigh_of_eq (h : found.root = best.root) : self.weigh best found =
    if self.refresh ∧ found.cost * 2 < best.cost ∨ best.parent ≠ self.selfInfoParent ∧ found.cost < best.cost then found
    else best := by
  unfold weigh
  rw [if_neg (h ▸ BitVec.lt_irrefl _), if_neg (not_not.mpr h)]

structure Leading (cur : BestParent) (fs : List BestParent) (w : BestParent) : Prop where
  mem : w = cur ∨ w ∈ fs
  le_cur : w.root ≤ cur.root
  least : ∀ f ∈ fs, w.root ≤ f.root

theorem foldl_leading (self : FullRouter) (cur : BestParent) (fs : List BestParent) :
    Leading cur fs (fs.foldl self.weigh cur) := by
  induction fs using List.reverseRecOn with
  | nil => exact ⟨.inl rfl, BitVec.le_refl _, fun f hf => absurd hf not_mem_nil⟩
  | append_singleton fs f ih =>
    rw [foldl_append, foldl_cons, foldl_nil]
    generalize fs.foldl self.weigh cur = w at ih ⊢
    have hkeep : w.root ≤ f.root → Leading cur (fs ++ [f]) w := fun hle =>
      ⟨ih.mem.imp_right (mem_append_left _), ih.le_cur,
        forall_mem_append.mpr ⟨ih.least, forall_mem_singleton.mpr hle⟩⟩
    have hmove : f.root ≤ w.root → Leading cur (fs ++ [f]) f := fun hle =>
      ⟨.inr (mem_append_right _ mem_cons_self), BitVec.le_trans hle ih.le_cur,
        forall_mem_append.mpr ⟨fun g hg => BitVec.le_trans hle (ih.least g hg),
          forall_mem_singleton.mpr (BitVec.le_refl _)⟩⟩
    rcases root_cases f.root w.root with hlt | heq | hgt
    · rw [weigh_of_lt hlt]
      exact hmove (BitVec.le_of_lt hlt)
    · rw [weigh_of_eq heq]
      split
      · exact hmove (heq ▸ BitVec.le_refl _)
      · exact hkeep (heq ▸ BitVec.le_refl _)
    rw [weigh_of_gt hgt]
    exact hkeep (BitVec.le_of_lt hgt)

/-- The least root wins in any order. -/
theorem selectParent_leading (self : FullRouter) : Leading self.currentParent self.offers self.selectParent := by
  rw [selectParent_eq]
  exact self.foldl_leading _ _

inductive Chosen (refresh : Bool) (cur : BestParent) (fs : List BestParent) (w : BestParent) : Prop
  | kept : w = cur → (∀ f ∈ fs, cur.root ≤ f.root) →
      (∀ f ∈ fs, f.root = cur.root → refresh = true → cur.cost.toNat ≤ 2 * f.cost.toNat) → Chosen refresh cur fs w
  | halved : refresh = true → w ∈ fs → w.root = cur.root → 2 * w.cost.toNat < cur.cost.toNat →
      (∀ f ∈ fs, w.root ≤ f.root) → (∀ f ∈ fs, f.root = w.root → w.cost.toNat ≤ f.cost.toNat) → Chosen refresh cur fs w
  | lower : w ∈ fs → w.root < cur.root → (∀ f ∈ fs, w.root ≤ f.root) →
      (∀ f ∈ fs, f.root = w.root → w.cost.toNat ≤ f.cost.toNat) → Chosen refresh cur fs w

/-- No cost overflows, only the current parent is challenged at its own root, and it offers the node's path. -/
structure Fair (r : FullRouter) (cur : BestParent) (fs : List BestParent) : Prop where
  fits : ∀ f ∈ fs, f.root ≤ cur.root → r.refresh = true → CanDouble f.cost
  incumbent : ∀ f ∈ fs, f.root = cur.root → cur.parent = r.selfInfoParent
  same : ∀ f ∈ fs, f.parent = r.selfInfoParent → f.root ≤ cur.root → f.root = cur.root ∧ f.cost = cur.cost

variable {cur w w' : BestParent} {fs fs' : List BestParent}

theorem Fair.init (h : Fair self cur (fs ++ [found])) : Fair self cur fs where
  fits f hf := h.fits f (mem_append_left _ hf)
  incumbent f hf := h.incumbent f (mem_append_left _ hf)
  same f hf := h.same f (mem_append_left _ hf)

theorem Fair.challenger (h : Fair self cur fs) (hmem : w ∈ fs)
    (hw : w.root = cur.root ∧ 2 * w.cost.toNat < cur.cost.toNat ∨ w.root < cur.root) :
    w.parent ≠ self.selfInfoParent := by
  intro hparent
  rcases hw with ⟨hroot, hcost⟩ | hlt
  · obtain ⟨-, heq⟩ := h.same w hmem hparent (hroot ▸ BitVec.le_refl _)
    rw [heq] at hcost
    omega
  obtain ⟨heq, -⟩ := h.same w hmem hparent (BitVec.le_of_lt hlt)
  exact BitVec.lt_irrefl _ (heq ▸ hlt)

theorem weigh_challenger (hroot : found.root = best.root) (hbest : best.parent ≠ self.selfInfoParent)
    (hfits : self.refresh = true → CanDouble found.cost) :
    self.weigh best found = if found.cost.toNat < best.cost.toNat then found else best := by
  rw [weigh_of_eq hroot]
  congr 1
  rw [lt_iff_toNat_lt, lt_iff_toNat_lt]
  refine propext ⟨?_, fun h => .inr ⟨hbest, h⟩⟩
  rintro (⟨hrefresh, hlt⟩ | ⟨-, hlt⟩)
  · rw [(hfits hrefresh).toNat_mul_two] at hlt
    omega
  · exact hlt

theorem Leading.chosen (h : Leading cur fs w) (hlt : found.root < w.root) (refresh : Bool) :
    Chosen refresh cur (fs ++ [found]) found := by
  refine Chosen.lower (mem_append_right _ mem_cons_self) (root_lt_of_lt_of_le hlt h.le_cur) ?_ ?_
  · exact forall_mem_append.mpr ⟨fun g hg => BitVec.le_of_lt (root_lt_of_lt_of_le hlt (h.least g hg)),
      forall_mem_singleton.mpr (BitVec.le_refl _)⟩
  refine forall_mem_append.mpr ⟨fun g hg hroot => ?_, forall_mem_singleton.mpr fun _ => le_refl _⟩
  have hgt := root_lt_of_lt_of_le hlt (h.least g hg)
  rw [hroot] at hgt
  exact absurd hgt (BitVec.lt_irrefl _)

theorem Chosen.outranked {refresh : Bool} (h : Chosen refresh cur fs w) (hlead : Leading cur fs w)
    (hgt : w.root < found.root) : Chosen refresh cur (fs ++ [found]) w := by
  have hroots : ∀ g ∈ fs ++ [found], w.root ≤ g.root :=
    forall_mem_append.mpr ⟨hlead.least, forall_mem_singleton.mpr (BitVec.le_of_lt hgt)⟩
  have hne : found.root ≠ w.root := (BitVec.ne_of_lt hgt).symm
  cases h with
  | kept hw _ hcost =>
    subst hw
    exact Chosen.kept rfl hroots (forall_mem_append.mpr ⟨hcost, forall_mem_singleton.mpr
      fun heq => absurd heq hne⟩)
  | halved hrefresh hmem hroot hhalf _ hcost =>
    exact Chosen.halved hrefresh (mem_append_left _ hmem) hroot hhalf hroots (forall_mem_append.mpr ⟨hcost,
      forall_mem_singleton.mpr fun heq => absurd heq hne⟩)
  | lower hmem hlt _ hcost =>
    exact Chosen.lower (mem_append_left _ hmem) hlt hroots (forall_mem_append.mpr ⟨hcost,
      forall_mem_singleton.mpr fun heq => absurd heq hne⟩)

theorem weigh_cheapest {P : BestParent → Prop} (heq : found.root = w.root) (hparent : w.parent ≠ self.selfInfoParent)
    (hfits : self.refresh = true → CanDouble found.cost) (hmem : w ∈ fs)
    (hcost : ∀ g ∈ fs, g.root = w.root → w.cost.toNat ≤ g.cost.toNat)
    (make : ∀ x ∈ fs ++ [found], x.root = w.root → x.cost.toNat ≤ w.cost.toNat →
      (∀ g ∈ fs ++ [found], g.root = x.root → x.cost.toNat ≤ g.cost.toNat) → P x) : P (self.weigh w found) := by
  rw [weigh_challenger heq hparent hfits]
  split
  next hlt =>
    refine make found (mem_append_right _ mem_cons_self) heq (le_of_lt hlt)
      (forall_mem_append.mpr ⟨fun g hg hroot => ?_, forall_mem_singleton.mpr fun _ => le_refl _⟩)
    exact le_trans (le_of_lt hlt) (hcost g hg (hroot.trans heq))
  next hge =>
    exact make w (mem_append_left _ hmem) rfl (le_refl _) (forall_mem_append.mpr ⟨hcost,
      forall_mem_singleton.mpr fun _ => not_lt.mp hge⟩)

theorem Chosen.matched (h : Chosen self.refresh cur fs w) (hlead : Leading cur fs w)
    (hfair : Fair self cur (fs ++ [found])) (heq : found.root = w.root) :
    Chosen self.refresh cur (fs ++ [found]) (self.weigh w found) := by
  have hlast : found ∈ fs ++ [found] := mem_append_right _ mem_cons_self
  have hroots : ∀ g ∈ fs ++ [found], w.root ≤ g.root :=
    forall_mem_append.mpr ⟨hlead.least, forall_mem_singleton.mpr (heq ▸ BitVec.le_refl _)⟩
  have hfits : self.refresh = true → CanDouble found.cost := hfair.fits found hlast (heq ▸ hlead.le_cur)
  cases h with
  | kept hw _ hcost =>
    subst hw
    rw [weigh_of_eq heq]
    split
    next hcond =>
      rcases hcond with ⟨hrefresh, hlt⟩ | ⟨hne, -⟩
      · rw [lt_iff_toNat_lt, (hfits hrefresh).toNat_mul_two] at hlt
        refine Chosen.halved hrefresh hlast heq hlt (heq ▸ hroots) (forall_mem_append.mpr ⟨fun g hg hroot => ?_,
          forall_mem_singleton.mpr fun _ => le_refl _⟩)
        have := hcost g hg (hroot.trans heq) hrefresh
        omega
      · exact absurd (hfair.incumbent found hlast heq) hne
    next hcond =>
      refine Chosen.kept rfl hroots (forall_mem_append.mpr ⟨hcost, forall_mem_singleton.mpr
        fun _ hrefresh => ?_⟩)
      rw [not_or, not_and] at hcond
      have hge := hcond.1 hrefresh
      rw [lt_iff_toNat_lt, (hfits hrefresh).toNat_mul_two] at hge
      omega
  | halved hrefresh hmem hroot hhalf _ hcost =>
    have hparent := hfair.init.challenger hmem (.inl ⟨hroot, hhalf⟩)
    refine weigh_cheapest heq hparent hfits hmem hcost fun x hx hxroot hxle hxcost => ?_
    exact Chosen.halved hrefresh hx (hxroot.trans hroot) (by omega) (hxroot ▸ hroots) hxcost
  | lower hmem hlt _ hcost =>
    have hparent := hfair.init.challenger hmem (.inr hlt)
    refine weigh_cheapest heq hparent hfits hmem hcost fun x hx hxroot _ hxcost => ?_
    exact Chosen.lower hx (hxroot ▸ hlt) (hxroot ▸ hroots) hxcost

theorem Chosen.step (h : Chosen self.refresh cur fs w) (hlead : Leading cur fs w)
    (hfair : Fair self cur (fs ++ [found])) :
    Chosen self.refresh cur (fs ++ [found]) (self.weigh w found) := by
  rcases root_cases found.root w.root with hlt | heq | hgt
  · rw [weigh_of_lt hlt]
    exact hlead.chosen hlt self.refresh
  · exact h.matched hlead hfair heq
  rw [weigh_of_gt hgt]
  exact h.outranked hlead hgt

theorem foldl_chosen (hfair : Fair self cur fs) : Chosen self.refresh cur fs (fs.foldl self.weigh cur) := by
  induction fs using List.reverseRecOn with
  | nil => exact Chosen.kept rfl (by simp) (by simp)
  | append_singleton fs f ih =>
    rw [foldl_append, foldl_cons, foldl_nil]
    exact (ih hfair.init).step (self.foldl_leading cur fs) hfair

theorem Chosen.cost_eq {refresh : Bool} (h : Chosen refresh cur fs w) (h' : Chosen refresh cur fs' w')
    (hmem : ∀ f, f ∈ fs' ↔ f ∈ fs) : w'.cost = w.cost := by
  apply UInt64.toNat.inj
  cases h with
  | kept hw hroots hcost =>
    subst hw
    cases h' with
    | kept hw' => rw [hw']
    | halved hrefresh hin hroot hhalf =>
      have := hcost w' ((hmem w').mp hin) hroot hrefresh
      omega
    | lower hin hlt => exact absurd (root_lt_of_lt_of_le hlt (hroots w' ((hmem w').mp hin))) (BitVec.lt_irrefl _)
  | halved hrefresh hin hroot hhalf hroots hcost =>
    cases h' with
    | kept hw' _ hcost' =>
      have := hcost' w ((hmem w).mpr hin) hroot hrefresh
      omega
    | halved _ hin' hroot' _ _ hcost' =>
      have hle := hcost w' ((hmem w').mp hin') (hroot'.trans hroot.symm)
      have hge := hcost' w ((hmem w).mpr hin) (hroot.trans hroot'.symm)
      omega
    | lower hin' hlt' =>
      have hle := hroots w' ((hmem w').mp hin')
      exact absurd (root_lt_of_le_of_lt (hroot ▸ hle) hlt') (BitVec.lt_irrefl _)
  | lower hin hlt hroots hcost =>
    cases h' with
    | kept hw' hroots' =>
      exact absurd (root_lt_of_lt_of_le hlt (hroots' w ((hmem w).mpr hin))) (BitVec.lt_irrefl _)
    | halved _ hin' hroot' _ hroots' =>
      have hle := hroots' w ((hmem w).mpr hin)
      exact absurd (root_lt_of_le_of_lt (hroot' ▸ hle) hlt) (BitVec.lt_irrefl _)
    | lower hin' _ hroots' hcost' =>
      have hroot := BitVec.le_antisymm (hroots w' ((hmem w').mp hin')) (hroots' w ((hmem w).mpr hin))
      have hle := hcost w' ((hmem w').mp hin') hroot.symm
      have hge := hcost' w ((hmem w).mpr hin) hroot
      omega

end FullRouter

end Yggdrasil
