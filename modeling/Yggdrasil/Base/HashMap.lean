import Mathlib.Algebra.GroupWithZero.Nat
import Mathlib.Algebra.Order.BigOperators.Group.List
import Mathlib.Algebra.Order.Group.Nat
import Mathlib.Data.List.AList

/-!
# Hash maps

A hash map is an association list without repeated keys; its order is the order of iteration, about which nothing is
known. The operations are those of `AList`, at a value type that does not depend on the key, and three that act on
values in place.
-/

abbrev HashMap (K V : Type*) := AList fun _ : K => V

namespace HashMap
open List
variable {K V W : Type*}

def toList (m : HashMap K V) : List (K × V) := m.entries.map fun e => (e.1, e.2)

def values (m : HashMap K V) : List V := m.entries.map fun e => e.2

def mapValues (f : K → V → W) (m : HashMap K V) : HashMap K W where
  entries := m.entries.map fun e => ⟨e.1, f e.1 e.2⟩
  nodupKeys := by
    have h := m.nodupKeys
    rw [List.NodupKeys, List.keys] at h ⊢
    rwa [List.map_map]

def retain (p : K → V → Bool) (m : HashMap K V) : HashMap K V where
  entries := m.entries.filter fun e => p e.1 e.2
  nodupKeys := m.nodupKeys.sublist List.filter_sublist

variable [DecidableEq K]

def lookup (m : HashMap K V) (k : K) : Option V := AList.lookup k m

def insert (m : HashMap K V) (k : K) (v : V) : HashMap K V := AList.insert k v m

def remove (m : HashMap K V) (k : K) : HashMap K V := AList.erase k m

def modify (m : HashMap K V) (k : K) (f : V → V) : HashMap K V := m.mapValues fun k' v => if k' = k then f v else v

variable {m : HashMap K V} {k : K} {v : V}

theorem lookup_eq_some_iff : m.lookup k = some v ↔ ⟨k, v⟩ ∈ m.entries :=
  AList.mem_lookup_iff

theorem mem_toList : (k, v) ∈ m.toList ↔ m.lookup k = some v := by
  rw [lookup_eq_some_iff, toList, mem_map]
  constructor
  · rintro ⟨⟨k', v'⟩, hmem, h⟩
    obtain ⟨rfl, rfl⟩ := Prod.mk.inj h
    exact hmem
  intro h
  exact ⟨⟨k, v⟩, h, rfl⟩

omit [DecidableEq K] in
theorem nodup_filter_toList (m : HashMap K V) (p : K × V → Bool) : ((m.toList.filter p).map Prod.fst).Nodup := by
  have hkeys : m.toList.map Prod.fst = m.keys := by
    rw [toList, map_map]
    rfl
  refine List.Nodup.sublist (filter_sublist.map Prod.fst) ?_
  rw [hkeys]
  exact m.keys_nodup

theorem lookup_of_toList (h : m.toList = [(k, v)]) (k' : K) : m.lookup k' = if k' = k then some v else none := by
  refine Option.ext fun v' => ?_
  rw [← mem_toList, h, mem_singleton, Prod.mk.injEq]
  split
  next hk => simp [hk, eq_comm]
  next hk => simp [hk]

theorem mem_values : v ∈ m.values ↔ ∃ k, m.lookup k = some v := by
  rw [values, mem_map]
  constructor
  · rintro ⟨⟨k, v'⟩, hmem, rfl⟩
    exact ⟨k, lookup_eq_some_iff.mpr hmem⟩
  rintro ⟨k, h⟩
  exact ⟨⟨k, v⟩, lookup_eq_some_iff.mp h, rfl⟩

theorem mem_keys_iff : k ∈ m.keys ↔ ∃ v, m.lookup k = some v := by
  rw [← AList.mem_keys, ← AList.lookup_isSome, Option.isSome_iff_exists]
  rfl

@[simp] theorem lookup_empty (k : K) : (∅ : HashMap K V).lookup k = none := rfl

theorem lookup_insert (m : HashMap K V) (k k' : K) (v : V) :
    (m.insert k v).lookup k' = if k' = k then some v else m.lookup k' := by
  split
  next h =>
    rw [h]
    exact AList.lookup_insert m
  next h => exact AList.lookup_insert_ne h

theorem keys_insert_of_new (h : m.lookup k = none) (v : V) : (m.insert k v).keys = k :: m.keys := by
  have hnotMem : k ∉ m := AList.lookup_eq_none.mp h
  rw [insert, AList.keys_insert, erase_of_not_mem]
  exact hnotMem

theorem values_insert_eq (m : HashMap K V) (k : K) (v : V) : (m.insert k v).values = v :: (m.remove k).values := rfl

theorem keys_insert_eq (m : HashMap K V) (k : K) (v : V) : (m.insert k v).keys = k :: (m.remove k).keys := rfl

theorem lookup_remove (m : HashMap K V) (k k' : K) :
    (m.remove k).lookup k' = if k' = k then none else m.lookup k' := by
  split
  next h =>
    rw [h]
    exact AList.lookup_erase k m
  next h => exact AList.lookup_erase_ne h

@[simp] theorem lookup_mapValues (f : K → V → W) (m : HashMap K V) (k : K) :
    (m.mapValues f).lookup k = (m.lookup k).map (f k) := by
  refine Option.ext fun w => ?_
  rw [lookup_eq_some_iff, Option.map_eq_some_iff]
  constructor
  · intro h
    obtain ⟨⟨k', v⟩, hmem, heq⟩ := mem_map.mp h
    cases heq
    exact ⟨v, lookup_eq_some_iff.mpr hmem, rfl⟩
  rintro ⟨v, hv, rfl⟩
  exact mem_map.mpr ⟨⟨k, v⟩, lookup_eq_some_iff.mp hv, rfl⟩

@[simp] theorem lookup_retain (p : K → V → Bool) (m : HashMap K V) (k : K) :
    (m.retain p).lookup k = (m.lookup k).filter (p k) := by
  refine Option.ext fun v => ?_
  rw [Option.filter_eq_some_iff, lookup_eq_some_iff, lookup_eq_some_iff]
  simp [retain]

theorem lookup_modify (m : HashMap K V) (k k' : K) (f : V → V) :
    (m.modify k f).lookup k' = (m.lookup k').map fun v => if k' = k then f v else v := lookup_mapValues ..

theorem modify_modify (m : HashMap K V) (k : K) (f g : V → V) :
    (m.modify k f).modify k g = m.modify k fun v => g (f v) := by
  apply AList.ext
  simp only [modify, mapValues, map_map]
  refine map_congr_left fun e _ => ?_
  simp only [Function.comp_apply]
  split <;> rfl

theorem modify_of_lookup_eq_none (h : m.lookup k = none) (f : V → V) : m.modify k f = m := by
  apply AList.ext
  simp only [modify, mapValues]
  refine (map_congr_left fun e he => ?_).trans (map_id m.entries)
  rw [if_neg]
  · rfl
  intro hk
  rw [← hk, lookup_eq_some_iff.mpr he] at h
  exact absurd h nofun

theorem modify_congr (h : m.lookup k = some v) {f g : V → V} (hfg : f v = g v) : m.modify k f = m.modify k g := by
  apply AList.ext
  simp only [modify, mapValues]
  refine map_congr_left fun e he => ?_
  split
  next hk =>
    rw [← hk, lookup_eq_some_iff.mpr he] at h
    rw [Option.some.inj h, hfg]
  · rfl

/-! ### What holds of every entry -/

section Forall
variable {m : HashMap K V} {P : K → V → Prop}

section
variable (h : ∀ k v, m.lookup k = some v → P k v)
include h

theorem forall_insert {k : K} {v : V} (hkv : P k v) : ∀ k' v', (m.insert k v).lookup k' = some v' → P k' v' := by
  intro k' v' hk'
  rw [lookup_insert] at hk'
  split at hk'
  next heq =>
    rw [heq, ← Option.some.inj hk']
    exact hkv
  · exact h k' v' hk'

theorem forall_remove (k : K) : ∀ k' v, (m.remove k).lookup k' = some v → P k' v := by
  intro k' v hk'
  rw [lookup_remove, Option.ite_none_left_eq_some] at hk'
  exact h k' v hk'.2

theorem forall_retain (p : K → V → Bool) : ∀ k v, (m.retain p).lookup k = some v → P k v := by
  intro k v hk
  rw [lookup_retain, Option.filter_eq_some_iff] at hk
  exact h k v hk.1

theorem forall_modify {k : K} {f : V → V}
    (hf : ∀ v, m.lookup k = some v → P k (f v)) : ∀ k' v, (m.modify k f).lookup k' = some v → P k' v := by
  intro k' v hk'
  rw [lookup_modify, Option.map_eq_some_iff] at hk'
  obtain ⟨v', hv', rfl⟩ := hk'
  split
  next heq =>
    rw [heq] at hv' ⊢
    exact hf v' hv'
  · exact h k' v' hv'

end

end Forall

theorem filterMap_values_modify (m : HashMap K V) (k : K) (f : V → V) {g : V → Option W} (h : ∀ v, g (f v) = g v) :
    (m.modify k f).values.filterMap g = m.values.filterMap g := by
  simp only [values, modify, mapValues, map_map, filterMap_map]
  refine filterMap_congr fun e _ => ?_
  simp only [Function.comp_apply]
  split
  · exact h _
  · rfl

theorem values_modify_perm (h : m.lookup k = some v) :
    ∃ rest, m.values.Perm (v :: rest) ∧ ∀ f, (m.modify k f).values.Perm (f v :: rest) := by
  obtain ⟨l₁, l₂, hl⟩ := append_of_mem (lookup_eq_some_iff.mp h)
  have hnodup := m.nodupKeys
  rw [hl, List.NodupKeys, keys, map_append, map_cons, nodup_middle, nodup_cons,
    ← map_append] at hnodup
  refine ⟨(l₁ ++ l₂).map fun e => e.2, ?_, fun f => ?_⟩
  · rw [values, hl, map_append, map_cons, map_append]
    exact perm_middle
  have hother : ∀ e ∈ l₁ ++ l₂, (if e.1 = k then f e.2 else e.2) = e.2 := fun e he =>
    if_neg fun hk => hnodup.1 (mem_map.mpr ⟨e, he, hk⟩)
  have hvalues : (m.modify k f).values = m.entries.map fun e => if e.1 = k then f e.2 else e.2 := by
    simp only [values, modify, mapValues, map_map]
    rfl
  rw [hvalues, hl, map_append, map_cons, if_pos rfl, ← map_congr_left hother, map_append]
  exact perm_middle

theorem filterMap_values_take (h : m.lookup k = some v) (g : V → Option W) {f : V → V} (hf : g (f v) = none) :
    ((g v).toList ++ (m.modify k f).values.filterMap g).Perm (m.values.filterMap g) := by
  obtain ⟨rest, hvalues, hmodify⟩ := values_modify_perm h
  have hafter := (hmodify f).filterMap g
  have hbefore := hvalues.filterMap g
  rw [filterMap_cons_none hf] at hafter
  refine ((hafter.append_left _).trans ?_).trans hbefore.symm
  cases hg : g v with
  | none => rw [filterMap_cons_none hg]; rfl
  | some t => rw [filterMap_cons_some hg]; rfl

theorem values_insert (h : m.lookup k = none) (v : V) : (m.insert k v).values = v :: m.values := by
  rw [values, insert, AList.entries_insert_of_notMem (AList.lookup_eq_none.mp h)]
  rfl

theorem values_remove_perm (h : m.lookup k = some v) : m.values.Perm (v :: (m.remove k).values) := by
  obtain ⟨v', l₁, l₂, -, hsplit, herase⟩ :=
    exists_of_kerase (mem_keys_of_mem (lookup_eq_some_iff.mp h))
  have hremove : (m.remove k).entries = l₁ ++ l₂ := herase
  have hv : v' = v := by
    have hmem : (⟨k, v'⟩ : Sigma fun _ : K => V) ∈ m.entries := by
      rw [hsplit]
      exact mem_append_right _ mem_cons_self
    rw [lookup_eq_some_iff.mpr hmem] at h
    exact Option.some.inj h
  rw [values, values, hsplit, hremove, map_append, map_cons, map_append, hv]
  exact perm_middle

/-! ### Sums over the values -/

def total (f : V → Nat) (m : HashMap K V) : Nat := (m.values.map f).sum

section Total
variable {m : HashMap K V} {k : K} {v : V} (f : V → Nat)

theorem total_insert (h : m.lookup k = none) (v : V) : (m.insert k v).total f = f v + m.total f := by
  rw [total, values_insert h, map_cons, sum_cons, total]

theorem total_remove (h : m.lookup k = some v) : m.total f = f v + (m.remove k).total f := by
  rw [total, ((values_remove_perm h).map f).sum_nat, map_cons, sum_cons, total]

theorem total_modify (h : m.lookup k = some v) (g : V → V) : (m.modify k g).total f + f v = m.total f + f (g v) := by
  obtain ⟨rest, hvalues, hmodify⟩ := values_modify_perm h
  rw [total, total, ((hmodify g).map f).sum_nat, (hvalues.map f).sum_nat, map_cons, map_cons, sum_cons,
    sum_cons]
  omega

theorem le_total (h : m.lookup k = some v) : f v ≤ m.total f := by
  rw [total_remove f h]
  exact Nat.le_add_right _ _

theorem total_le {c : Nat} (h : ∀ k v, m.lookup k = some v → f v ≤ c) {ks : List K} (hks : m.keys ⊆ ks) :
    m.total f ≤ ks.length * c := by
  have hsum : m.total f ≤ m.values.length * c := by
    rw [total, ← length_map f]
    refine sum_le_card_nsmul _ _ fun n hn => ?_
    obtain ⟨v, hv, rfl⟩ := mem_map.mp hn
    obtain ⟨k, hk⟩ := mem_values.mp hv
    exact h k v hk
  have hlength : m.values.length = m.keys.length := by
    rw [values, AList.keys, keys, length_map, length_map]
  rw [hlength] at hsum
  exact Nat.le_trans hsum (Nat.mul_le_mul_right _ (subperm_of_subset m.keys_nodup hks).length_le)

theorem exists_pos_of_total_pos (h : 0 < m.total f) : ∃ k v, m.lookup k = some v ∧ 0 < f v := by
  obtain ⟨n, hn, hpos⟩ := List.sum_pos_iff_exists_pos_nat.mp h
  obtain ⟨v, hv, rfl⟩ := mem_map.mp hn
  obtain ⟨k, hk⟩ := mem_values.mp hv
  exact ⟨k, v, hk, hpos⟩

theorem total_modify_same {g : V → V} (hg : ∀ v, f (g v) = f v) : (m.modify k g).total f = m.total f := by
  cases h : m.lookup k with
  | some v =>
    have hsum := total_modify f h g
    rw [hg v] at hsum
    omega
  | none =>
    rw [total, total, values, values, modify, mapValues, map_map, map_map, map_map]
    congr 1
    refine map_congr_left fun e _ => ?_
    simp only [Function.comp_apply]
    split
    · exact hg _
    · rfl

end Total

/-! ## Other orders -/

/-- Maps that hold the same. -/
def Same (m m' : HashMap K V) : Prop := ∀ k, m'.lookup k = m.lookup k

theorem Same.refl (m : HashMap K V) : Same m m := fun _ => rfl

theorem Same.mem_values {m' : HashMap K V} (h : Same m m') : v ∈ m'.values ↔ v ∈ m.values := by
  simp only [HashMap.mem_values, h _]

theorem same_insert (h : m.lookup k = some v) : Same m (m.insert k v) := by
  intro k'
  rw [lookup_insert]
  split
  next hk => rw [hk, h]
  · rfl

/-! ## Maps with the same keys -/

def SameKeys (m : HashMap K V) (m' : HashMap K W) : Prop := ∀ k, (m.lookup k).isSome = (m'.lookup k).isSome

namespace SameKeys
variable {X : Type*} {m : HashMap K V} {m' : HashMap K W} {m'' : HashMap K X}

theorem refl (m : HashMap K V) : SameKeys m m := fun _ => rfl

theorem symm (h : SameKeys m m') : SameKeys m' m := fun k => (h k).symm

theorem trans (h : SameKeys m m') (h' : SameKeys m' m'') : SameKeys m m'' := fun k => (h k).trans (h' k)

theorem mapValues (m : HashMap K V) (f : K → V → W) : SameKeys m (m.mapValues f) := by
  intro k
  rw [lookup_mapValues, Option.isSome_map]

theorem modify (m : HashMap K V) (k : K) (f : V → V) : SameKeys m (m.modify k f) := mapValues m _

theorem insert (h : SameKeys m m') (k : K) (v : V) (w : W) : SameKeys (m.insert k v) (m'.insert k w) := by
  intro k'
  rw [lookup_insert, lookup_insert]
  split
  · rfl
  · exact h k'

theorem remove (h : SameKeys m m') (k : K) : SameKeys (m.remove k) (m'.remove k) := by
  intro k'
  rw [lookup_remove, lookup_remove]
  split
  · rfl
  · exact h k'

theorem overwrite {k : K} (h : (m.lookup k).isSome) (v : V) : SameKeys m (m.insert k v) := by
  intro k'
  rw [lookup_insert]
  split
  next hk => rw [hk, h, Option.isSome_some]
  · rfl

theorem exists_of_some (h : SameKeys m m') {k : K} {v : V} (hk : m.lookup k = some v) : ∃ w, m'.lookup k = some w := by
  have := h k
  rw [hk, Option.isSome_some] at this
  exact Option.isSome_iff_exists.mp this.symm

end SameKeys

/-! ## Maps of maps -/

section Nested
variable {I : Type*} [DecidableEq I] {m : HashMap K (HashMap I V)} {k : K} {i : I}

/-- The same map of maps, with all of them in another order. -/
def Same₂ (m m' : HashMap K (HashMap I V)) : Prop := ∀ k, Option.Rel Same (m.lookup k) (m'.lookup k)

theorem Same₂.refl (m : HashMap K (HashMap I V)) : Same₂ m m := by
  intro k
  cases m.lookup k with
  | none => exact Option.Rel.none
  | some g => exact Option.Rel.some (Same.refl g)

theorem same₂_insert {g g' : HashMap I V} (h : m.lookup k = some g) (hg : Same g g') :
    Same₂ m (m.insert k g') := by
  intro k'
  rw [lookup_insert]
  split
  next hk =>
    rw [hk, h]
    exact Option.Rel.some hg
  · exact Same₂.refl m k'

def lookup₂ (m : HashMap K (HashMap I V)) (k : K) (i : I) : Option V := (m.lookup k).bind fun g => g.lookup i

def remove₂ (m : HashMap K (HashMap I V)) (k : K) (i : I) : HashMap K (HashMap I V) :=
  match m.lookup k with
  | none => m
  | some g => if (g.remove i).keys.isEmpty then m.remove k else m.modify k fun _ => g.remove i

theorem lookup₂_insert {g : HashMap I V} (hg : ∀ i, g.lookup i = m.lookup₂ k i) (i : I) (v : V) (k' : K) (i' : I) :
    (m.insert k (g.insert i v)).lookup₂ k' i' = if k' = k ∧ i' = i then some v else m.lookup₂ k' i' := by
  rw [lookup₂, lookup_insert]
  by_cases hk : k' = k
  · simp [hk, lookup_insert, hg]
  · simp [hk, lookup₂]

theorem lookup_remove₂ (m : HashMap K (HashMap I V)) (k k' : K) (i : I) : (m.remove₂ k i).lookup k' =
    if k' = k then ((m.lookup k).map fun g => g.remove i).filter fun g => !g.keys.isEmpty else m.lookup k' := by
  rw [remove₂]
  cases hg : m.lookup k with
  | none =>
    by_cases hk : k' = k
    · simpa [hk] using hg
    · simp [hk]
  | some g =>
    rw [Option.map_some, Option.filter_some]
    dsimp only
    by_cases hk : k' = k
    · split <;> simp_all [lookup_remove, lookup_modify]
    · split <;> simp [hk, lookup_remove, lookup_modify]

theorem lookup₂_remove₂ (m : HashMap K (HashMap I V)) (k k' : K) (i i' : I) :
    (m.remove₂ k i).lookup₂ k' i' = if k' = k ∧ i' = i then none else m.lookup₂ k' i' := by
  rw [lookup₂, lookup_remove₂]
  by_cases hk : k' = k
  · subst hk
    cases hg : m.lookup k' with
    | none => simp [lookup₂, hg]
    | some g =>
      rw [if_pos rfl, Option.map_some, Option.filter_some]
      have hleft := lookup_remove g i i'
      by_cases hempty : (g.remove i).keys.isEmpty
      · have hnone : (g.remove i).lookup i' = none := by
          refine Option.eq_none_iff_forall_ne_some.mpr fun v hv => ?_
          simpa [isEmpty_iff.mp hempty] using mem_keys_iff.mpr ⟨v, hv⟩
        simpa [lookup₂, hg, hempty, hnone] using hleft
      · simpa [lookup₂, hg, hempty] using hleft
  · simp [hk, lookup₂]

end Nested

end HashMap
