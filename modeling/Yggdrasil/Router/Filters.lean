import Yggdrasil.Router.Bloom

/-!
# Laws of the bloom filters

A filter is the set of its bits, so the functions of `bloom.rs` are described bit by bit.
-/

namespace Yggdrasil
open List HashMap

/-! ## Filters -/

namespace BloomFilter

def ofKey (env : Env) (key : Bytes) : BloomFilter := new.add env key

theorem ext_bits {a b : BloomFilter} (h : ∀ i, a.bits.getLsbD i = b.bits.getLsbD i) : a = b := by
  obtain ⟨a⟩ := a
  congr 1
  exact BitVec.eq_of_getLsbD_eq fun i _ => h i

@[simp] theorem getLsbD_merge (a b : BloomFilter) (i : Nat) :
    (a.merge b).bits.getLsbD i = (a.bits.getLsbD i || b.bits.getLsbD i) := BitVec.getLsbD_or

theorem location_lt (h : Fin 4 → UInt64) (i : Nat) : location h i BLOOM_FILTER_BITS < BLOOM_FILTER_BITS := by
  show UInt64.toNat (_ % _) < _
  exact Nat.mod_lt _ (by decide)

theorem getLsbD_foldl_setBit (locations : List Nat) : ∀ (f : BloomFilter) (i : Nat),
    (locations.foldl setBit f).bits.getLsbD i = true ↔
      f.bits.getLsbD i = true ∨ i ∈ locations ∧ i < BLOOM_FILTER_BITS := by
  induction locations with
  | nil => simp
  | cons l locations ih =>
    intro f i
    rw [foldl_cons, ih, setBit, BitVec.getLsbD_or, BitVec.getLsbD_twoPow, mem_cons]
    grind

def locations (env : Env) (key : Bytes) : List Nat :=
  (List.range BLOOM_FILTER_K).map fun i => location (baseHashes env key) i BLOOM_FILTER_BITS

theorem getLsbD_ofKey (env : Env) (key : Bytes) (i : Nat) :
    (ofKey env key).bits.getLsbD i = true ↔ i ∈ locations env key := by
  have hfold : ofKey env key = (locations env key).foldl setBit new := by
    rw [ofKey, add, locations, foldl_map]
  have hlt : i ∈ locations env key → i < BLOOM_FILTER_BITS := by
    intro hi
    obtain ⟨j, -, rfl⟩ := mem_map.mp hi
    exact location_lt _ j
  rw [hfold, getLsbD_foldl_setBit]
  simp only [new, BitVec.ofNat_eq_ofNat, BitVec.getLsbD_zero, Bool.false_eq_true, false_or]
  exact ⟨fun h => h.1, fun h => ⟨h, hlt h⟩⟩

theorem test_of_add {env : Env} {f : BloomFilter} {key : Bytes}
    (h : ∀ i, (ofKey env key).bits.getLsbD i = true → f.bits.getLsbD i = true) : f.test env key = true := by
  rw [test, all_eq_true]
  intro i hi
  exact h _ ((getLsbD_ofKey env key _).mpr (mem_map.mpr ⟨i, hi, rfl⟩))

end BloomFilter

/-! ## One peer -/

theorem getLastD_append {α : Type} (l l' : List α) (a : α) : (l ++ l').getLastD a = l'.getLastD (l.getLastD a) := by
  simp only [getLastD_eq_getLast?, getLast?_append]
  cases l'.getLast? <;> rfl

/-- What is advertised to a peer when `held` is held for it: the bits sent before are kept every other time. -/
def BloomInfo.advertised (held : BloomFilter) (info : BloomInfo) : BloomFilter :=
  if info.zDirty then held else held.merge info.send

def BloomInfo.sends (held : BloomFilter) (info : BloomInfo) : Bool :=
  decide (info.advertised held ≠ info.send) || decide (info.seq + 1 ≥ 3600)

def BloomInfo.next (held : BloomFilter) (info : BloomInfo) : BloomInfo :=
  { info with
    send := info.advertised held
    zDirty := !info.zDirty && decide (info.advertised held ≠ held)
    seq := if info.sends held then 0 else info.seq + 1 }

def ToSend.to (self : ToSend) (k : PublicKey) : List BloomFilter := (self.toSend.filter fun p => p.1 = k).map Prod.snd

namespace Blooms
variable (env : Env)

theorem foldl_merge_bits (filters : List BloomFilter) : ∀ (f : BloomFilter) (i : Nat),
    (filters.foldl BloomFilter.merge f).bits.getLsbD i = true ↔
      f.bits.getLsbD i = true ∨ ∃ g ∈ filters, g.bits.getLsbD i = true := by
  induction filters with
  | nil => simp
  | cons g filters ih =>
    intro f i
    rw [foldl_cons, ih, BloomFilter.getLsbD_merge, Bool.or_eq_true, or_assoc]
    simp

variable (self : Blooms)

theorem getLsbD_heldFor (key ourKey : PublicKey) (transform : Option (PublicKey → PublicKey))
    (i : Nat) : (self.heldFor env key ourKey transform).bits.getLsbD i = true ↔
      (BloomFilter.ofKey env (keyBytes (xKey ourKey transform))).bits.getLsbD i = true ∨
        ∃ k info, self.blooms.lookup k = some info ∧ info.onTree = true ∧ k ≠ key ∧
          info.recv.bits.getLsbD i = true := by
  rw [heldFor, foldl_merge_bits]
  refine or_congr Iff.rfl ?_
  constructor
  · rintro ⟨g, hg, hbit⟩
    obtain ⟨⟨k, info⟩, hmem, rfl⟩ := mem_map.mp hg
    obtain ⟨hmem, hfilter⟩ := mem_filter.mp hmem
    rw [Bool.and_eq_true, bne_iff_ne] at hfilter
    exact ⟨k, info, mem_toList.mp hmem, hfilter.1, hfilter.2, hbit⟩
  rintro ⟨k, info, hlookup, htree, hne, hbit⟩
  refine ⟨info.recv, mem_map.mpr ⟨(k, info), mem_filter.mpr ⟨mem_toList.mpr hlookup, ?_⟩, rfl⟩, hbit⟩
  rw [Bool.and_eq_true, bne_iff_ne]
  exact ⟨htree, hne⟩

variable {self : Blooms} {selfKey : PublicKey} {o : ToSend}

theorem heldFor_congr {self' : Blooms} (h : ∀ k, (self.blooms.lookup k).map (fun info => (info.recv, info.onTree)) =
      (self'.blooms.lookup k).map fun info => (info.recv, info.onTree))
    (key ourKey : PublicKey) (transform : Option (PublicKey → PublicKey)) :
    self.heldFor env key ourKey transform = self'.heldFor env key ourKey transform := by
  have himp : ∀ {b b' : Blooms}, (∀ k, (b.blooms.lookup k).map (fun info => (info.recv, info.onTree)) =
      (b'.blooms.lookup k).map fun info => (info.recv, info.onTree)) →
      ∀ i, (b.heldFor env key ourKey transform).bits.getLsbD i = true →
        (b'.heldFor env key ourKey transform).bits.getLsbD i = true := by
    intro b b' hb i hi
    rw [getLsbD_heldFor] at hi ⊢
    refine hi.imp_right ?_
    rintro ⟨k, info, hlookup, htree, hne, hbit⟩
    have hk := hb k
    rw [hlookup, Option.map_some] at hk
    obtain ⟨info', hlookup', heq⟩ := Option.map_eq_some_iff.mp hk.symm
    rw [Prod.mk.injEq] at heq
    exact ⟨k, info', hlookup', heq.2.trans htree, hne, heq.1 ▸ hbit⟩
  refine BloomFilter.ext_bits fun i => ?_
  rw [Bool.eq_iff_iff]
  exact ⟨himp h i, himp (fun k => (h k).symm) i⟩

/-! ## A maintenance pass -/

structure Advertised (b : Blooms) (selfKey : PublicKey) (transform : Option (PublicKey → PublicKey))
    (keys : List PublicKey) (o : ToSend) : Prop where
  lookup : ∀ k, o.blooms.blooms.lookup k = (b.blooms.lookup k).map fun info =>
    if k ∈ keys then info.next (b.heldFor env k selfKey transform) else info
  toSend : ∀ k info, b.blooms.lookup k = some info → o.to k =
    if k ∈ keys ∧ info.sends (b.heldFor env k selfKey transform) = true then
      [info.advertised (b.heldFor env k selfKey transform)]
    else []

theorem getBloomFor_eq (self : Blooms) {key : PublicKey} {info : BloomInfo} (ourKey : PublicKey)
    (transform : Option (PublicKey → PublicKey)) (h : self.blooms.lookup key = some info) :
    self.getBloomFor env key ourKey (!info.zDirty) transform =
      some { filter := info.advertised (self.heldFor env key ourKey transform)
             isNew := decide (info.advertised (self.heldFor env key ourKey transform) ≠ info.send)
             blooms := { blooms := self.blooms.modify key fun _ =>
               { info.next (self.heldFor env key ourKey transform) with seq := info.seq } } } := by
  simp only [getBloomFor, h]
  generalize self.heldFor env key ourKey transform = held
  cases hdirty : info.zDirty with
  | true =>
    by_cases hsend : held = info.send <;> simp [BloomInfo.advertised, BloomInfo.next, hdirty, hsend]
  | false =>
    by_cases hsend : held.merge info.send = info.send <;> simp [BloomInfo.advertised, BloomInfo.next, hdirty, hsend]

theorem advertise_cons (self : Blooms) {k : PublicKey} {info : BloomInfo} (selfKey : PublicKey)
    (transform : Option (PublicKey → PublicKey)) (keys : List PublicKey) (h : self.blooms.lookup k = some info) :
    ∃ b : Blooms, (∀ k', b.blooms.lookup k' =
        if k' = k then some (info.next (self.heldFor env k selfKey transform)) else self.blooms.lookup k') ∧
      advertise env selfKey transform (k :: keys) self = (advertise env selfKey transform keys b).map fun rest =>
        { rest with toSend := (if info.sends (self.heldFor env k selfKey transform) then
            [(k, info.advertised (self.heldFor env k selfKey transform))] else []) ++ rest.toSend } := by
  simp only [advertise, h, self.getBloomFor_eq env selfKey transform h, lookup_modify, Option.map_some, if_true]
  generalize self.heldFor env k selfKey transform = held
  refine ⟨{ blooms := (self.blooms.modify k fun _ => { info.next held with seq := info.seq }).modify k fun _ =>
    info.next held }, fun k' => ?_, ?_⟩
  · simp only [lookup_modify]
    split
    next hk =>
      rw [hk, h]
      rfl
    · simp
  split
  next hrest => exact (congrArg (Option.map _) hrest).symm
  next rest hrest =>
    refine Eq.trans ?_ (congrArg (Option.map _) hrest).symm
    rfl

theorem advertise_advertised (selfKey : PublicKey) (transform : Option (PublicKey → PublicKey))
    (keys : List PublicKey) :
    ∀ self : Blooms, keys.Nodup → (∀ k ∈ keys, (self.blooms.lookup k).isSome) →
      ∃ o, advertise env selfKey transform keys self = some o ∧ Advertised env self selfKey transform keys o := by
  induction keys with
  | nil => exact fun self _ _ => ⟨_, rfl, fun k => by simp, fun k info h => by simp [ToSend.to]⟩
  | cons k keys ih =>
    intro self hnodup hsome
    rw [nodup_cons] at hnodup
    obtain ⟨info, hinfo⟩ := Option.isSome_iff_exists.mp (hsome k mem_cons_self)
    obtain ⟨b, hb, heq⟩ := self.advertise_cons env selfKey transform keys hinfo
    -- neither marks nor received filters change in a turn
    have hheld : ∀ k', b.heldFor env k' selfKey transform = self.heldFor env k' selfKey transform := by
      refine fun k' => heldFor_congr env (fun k'' => ?_) k' selfKey transform
      rw [hb]
      split
      next hk => rw [hk, hinfo]; rfl
      · rfl
    obtain ⟨o, ho, hadv⟩ := ih b hnodup.2 fun k' hk' => by
      rw [hb]
      split
      · rfl
      · exact hsome k' (mem_cons_of_mem _ hk')
    refine ⟨_, by rw [heq, ho, Option.map_some], fun k' => ?_, fun k' info' hinfo' => ?_⟩
    · rw [hadv.lookup, hb, hheld]
      by_cases hk : k' = k
      · rw [if_pos hk, hk, hinfo]
        simp [hnodup.1]
      simp [hk]
    have hrest : (ToSend.mk ((if info.sends (self.heldFor env k selfKey transform) then
        [(k, info.advertised (self.heldFor env k selfKey transform))] else []) ++ o.toSend) o.blooms).to k' =
        (if k = k' ∧ info.sends (self.heldFor env k selfKey transform) = true then
          [info.advertised (self.heldFor env k selfKey transform)] else []) ++ o.to k' := by
      simp only [ToSend.to, filter_append, map_append]
      split
      next hsends =>
        by_cases hk : k = k'
        · simp [← hk, hsends]
        · simp [hk]
      next hsends => simp [hsends]
    rw [hrest]
    by_cases hk : k' = k
    · subst hk
      rw [hinfo, Option.some.injEq] at hinfo'
      subst hinfo'
      have hlast := hadv.toSend k' _ (by rw [hb, if_pos rfl])
      rw [hlast]
      simp [hnodup.1]
    have hlast := hadv.toSend k' info' (by rw [hb, if_neg hk, hinfo'])
    rw [hlast, hheld]
    simp [hk, Ne.symm hk]

def onTreeKeys (self : Blooms) : List PublicKey := (self.blooms.toList.filter fun entry => entry.2.onTree).map Prod.fst

theorem mem_onTreeKeys {k : PublicKey} :
    k ∈ self.onTreeKeys ↔ ∃ info, self.blooms.lookup k = some info ∧ info.onTree = true := by
  simp only [onTreeKeys, mem_map, mem_filter, Prod.exists, exists_and_right, exists_eq_right]
  exact exists_congr fun info => and_congr_left fun _ => mem_toList

theorem doMaintenance_advertised (self : Blooms) (selfKey selfParent : PublicKey) (infos : HashMap PublicKey PublicKey)
    (transform : Option (PublicKey → PublicKey)) :
    ∃ o, self.doMaintenance env selfKey selfParent infos transform =
        some { o with toSend := (self.fixOnTree selfKey selfParent infos).toSend ++ o.toSend } ∧
      Advertised env (self.fixOnTree selfKey selfParent infos).blooms selfKey transform
        (self.fixOnTree selfKey selfParent infos).blooms.onTreeKeys o := by
  generalize hfixed : self.fixOnTree selfKey selfParent infos = fixed
  obtain ⟨o, ho, hadv⟩ := advertise_advertised env selfKey transform fixed.blooms.onTreeKeys fixed.blooms
    (nodup_filter_toList _ _) fun k hk => by
      obtain ⟨info, hinfo, -⟩ := mem_onTreeKeys.mp hk
      rw [hinfo]
      rfl
  rw [onTreeKeys] at ho
  exact ⟨o, by simp only [doMaintenance, hfixed, ho], hadv⟩

theorem Advertised.sent {b : Blooms} {transform : Option (PublicKey → PublicKey)}
    {keys : List PublicKey} (h : Advertised env b selfKey transform keys o) (k : PublicKey) :
    (o.blooms.blooms.lookup k).map (fun info => (info.recv, info.send)) =
      (b.blooms.lookup k).map fun info => (info.recv, (o.to k).getLastD info.send) := by
  rw [h.lookup]
  cases hinfo : b.blooms.lookup k with
  | none => rfl
  | some info =>
    rw [h.toSend k info hinfo]
    by_cases hk : k ∈ keys
    · by_cases hsends : info.sends (b.heldFor env k selfKey transform) = true
      · simp [hk, hsends, BloomInfo.next]
      have hsend : info.advertised (b.heldFor env k selfKey transform) = info.send := by
        rw [BloomInfo.sends, Bool.or_eq_true, not_or] at hsends
        simpa using hsends.1
      simp [hk, hsends, BloomInfo.next, hsend]
    · simp [hk]

theorem fixOnTree_sent (self : Blooms) (selfKey selfParent : PublicKey) (infos : HashMap PublicKey PublicKey)
    (k : PublicKey) :
    ((self.fixOnTree selfKey selfParent infos).blooms.blooms.lookup k).map (fun info => (info.recv, info.send)) =
      (self.blooms.lookup k).map fun info =>
        (info.recv, ((self.fixOnTree selfKey selfParent infos).to k).getLastD info.send) := by
  have hblank : ∀ f, f ∈ (self.fixOnTree selfKey selfParent infos).to k ↔ f = BloomFilter.new ∧
      ∃ info, self.blooms.lookup k = some info ∧ (info.onTree && !onTree selfKey selfParent infos k) = true := by
    simp only [ToSend.to, fixOnTree, mem_map, mem_filter, mem_filterMap, Prod.exists, mem_toList]
    grind
  have hlookup : (self.fixOnTree selfKey selfParent infos).blooms.blooms.lookup k = _ := lookup_mapValues ..
  rw [hlookup]
  cases hinfo : self.blooms.lookup k with
  | none => rfl
  | some info =>
    rw [hinfo] at hblank
    generalize (self.fixOnTree selfKey selfParent infos).to k = sent at hblank
    simp only [Option.map_some, getLastD_eq_getLast?]
    cases hlast : sent.getLast? with
    | none =>
      rw [getLast?_eq_none_iff] at hlast
      have hkept := hblank BloomFilter.new
      simp only [hlast, not_mem_nil, true_and, false_iff, not_exists, not_and] at hkept
      rw [if_neg (hkept info rfl)]
      rfl
    | some f =>
      obtain ⟨rfl, _, hinfo', hdropped⟩ := (hblank f).mp (mem_of_getLast? hlast)
      rw [Option.some.injEq] at hinfo'
      subst hinfo'
      rw [if_pos hdropped]
      rfl

theorem ToSend.to_append (sent : List (PublicKey × BloomFilter)) (o : ToSend) (k : PublicKey) :
    (ToSend.mk (sent ++ o.toSend) o.blooms).to k = (ToSend.mk sent o.blooms).to k ++ o.to k := by
  simp [ToSend.to]

theorem doMaintenance_sent {selfParent : PublicKey} {infos : HashMap PublicKey PublicKey}
    {transform : Option (PublicKey → PublicKey)}
    (ho : self.doMaintenance env selfKey selfParent infos transform = some o) (k : PublicKey) :
    (o.blooms.blooms.lookup k).map (fun info => (info.recv, info.send)) =
      (self.blooms.lookup k).map fun info => (info.recv, (o.to k).getLastD info.send) := by
  obtain ⟨adv, hadv, h⟩ := self.doMaintenance_advertised env selfKey selfParent infos transform
  rw [hadv, Option.some.injEq] at ho
  subst ho
  have hsent := h.sent env k
  have hfix := self.fixOnTree_sent selfKey selfParent infos k
  rw [ToSend.to_append, hsent]
  have hmap : ∀ (g : BloomFilter × BloomFilter → BloomFilter × BloomFilter) (info : Option BloomInfo),
      (info.map fun info => g (info.recv, info.send)) = (info.map fun info => (info.recv, info.send)).map g := by
    intro g info
    rw [Option.map_map]
    rfl
  rw [hmap (fun p => (p.1, (adv.to k).getLastD p.2)), hfix, Option.map_map]
  refine congrArg (fun f => Option.map f _) (funext fun info => ?_)
  rw [Function.comp_apply, getLastD_append]
  rfl

structure Steady (b : Blooms) (selfKey : PublicKey) (transform : Option (PublicKey → PublicKey)) (o : ToSend) :
    Prop where
  lookup : ∀ k, o.blooms.blooms.lookup k = (b.blooms.lookup k).map fun info =>
    if info.onTree then info.next (b.heldFor env k selfKey transform) else info
  toSend : ∀ k info, b.blooms.lookup k = some info → info.onTree = true → o.to k =
    if info.sends (b.heldFor env k selfKey transform) then [info.advertised (b.heldFor env k selfKey transform)] else []

theorem doMaintenance_steady {selfParent : PublicKey} {infos : HashMap PublicKey PublicKey}
    (transform : Option (PublicKey → PublicKey))
    (hmarks : ∀ k info, self.blooms.lookup k = some info → onTree selfKey selfParent infos k = info.onTree)
    (ho : self.doMaintenance env selfKey selfParent infos transform = some o) :
    Steady env self selfKey transform o := by
  obtain ⟨adv, hadv, h⟩ := self.doMaintenance_advertised env selfKey selfParent infos transform
  generalize hfixed : self.fixOnTree selfKey selfParent infos = fixed at hadv h
  have hlookup : ∀ k, fixed.blooms.blooms.lookup k = self.blooms.lookup k := by
    intro k
    rw [← hfixed, fixOnTree, lookup_mapValues]
    cases hinfo : self.blooms.lookup k with
    | none => rfl
    | some info =>
      rw [Option.map_some, hmarks k info hinfo]
      simp
  have hblank : fixed.toSend = [] := by
    rw [← hfixed, fixOnTree, filterMap_eq_nil_iff]
    rintro ⟨k, info⟩ hmem
    have hmark := hmarks k info (mem_toList.mp hmem)
    simp [hmark]
  have hheld : ∀ k, fixed.blooms.heldFor env k selfKey transform = self.heldFor env k selfKey transform := fun k =>
    heldFor_congr env (fun k' => by rw [hlookup]) k selfKey transform
  have hmem : ∀ k info, self.blooms.lookup k = some info → (k ∈ fixed.blooms.onTreeKeys ↔ info.onTree = true) := by
    intro k info hinfo
    rw [mem_onTreeKeys, hlookup, hinfo]
    simp
  rw [hadv, hblank, nil_append, Option.some.injEq] at ho
  subst ho
  refine ⟨fun k => ?_, fun k info hinfo htree => ?_⟩
  · rw [h.lookup, hlookup, hheld]
    cases hinfo : self.blooms.lookup k with
    | none => rfl
    | some info =>
      rw [Option.map_some, Option.map_some]
      simp only [hmem k info hinfo]
  have hto := h.toSend k info (by rw [hlookup, hinfo])
  rw [hheld] at hto
  have hk := (hmem k info hinfo).mpr htree
  simp only [hk, true_and] at hto
  exact hto

end Blooms

end Yggdrasil
