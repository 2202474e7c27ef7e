import Mathlib.Data.List.Sort
import Mathlib.Data.Nat.Bitwise

/-!
# Inclusive ranges of natural numbers

A range is a pair of its first and its last number.
-/

namespace Ranges
open Nat List
variable {r s : Nat × Nat} {rs ss : List (Nat × Nat)} {x : Nat}

def Covers (rs : List (Nat × Nat)) (x : Nat) : Prop := ∃ r ∈ rs, r.1 ≤ x ∧ x ≤ r.2

instance (rs : List (Nat × Nat)) (x : Nat) : Decidable (Covers rs x) :=
  inferInstanceAs (Decidable (∃ r ∈ rs, r.1 ≤ x ∧ x ≤ r.2))

@[simp] theorem not_covers_nil (x : Nat) : ¬ Covers [] x := fun ⟨_, hr, _⟩ => absurd hr List.not_mem_nil

theorem covers_cons : Covers (r :: rs) x ↔ (r.1 ≤ x ∧ x ≤ r.2) ∨ Covers rs x := by
  unfold Covers
  simp only [mem_cons, exists_eq_or_imp]

theorem covers_append : Covers (rs ++ ss) x ↔ Covers rs x ∨ Covers ss x := by
  unfold Covers
  simp only [mem_append, or_and_right, exists_or]

theorem covers_singleton : Covers [r] x ↔ r.1 ≤ x ∧ x ≤ r.2 := by
  unfold Covers
  simp only [mem_singleton, exists_eq_left]

theorem covers_perm (h : rs.Perm ss) : Covers rs x ↔ Covers ss x := by
  unfold Covers
  simp only [h.mem_iff]

theorem covers_join (hle : r.1 ≤ s.1) (htouch : s.1 ≤ r.2 + 1) :
    Covers [(r.1, max r.2 s.2)] x ↔ Covers [r] x ∨ Covers [s] x := by
  simp only [covers_singleton]
  omega

/-- Nonempty ranges that ascend and do not overlap. -/
structure Separated (rs : List (Nat × Nat)) : Prop where
  nonempty : ∀ r ∈ rs, r.1 ≤ r.2
  ascending : rs.Pairwise fun r s => r.2 < s.1

theorem Separated.nil : Separated [] := ⟨nofun, List.Pairwise.nil⟩

theorem Separated.tail (h : Separated (r :: rs)) : Separated rs :=
  ⟨fun s hs => h.nonempty s (mem_cons_of_mem _ hs), (pairwise_cons.mp h.ascending).2⟩

theorem Separated.lt_of_mem (h : Separated (r :: rs)) (hs : s ∈ rs) : r.2 < s.1 :=
  (pairwise_cons.mp h.ascending).1 s hs

theorem Separated.sublist (h : Separated rs) (hs : ss.Sublist rs) : Separated ss :=
  ⟨fun r hr => h.nonempty r (hs.subset hr), h.ascending.sublist hs⟩

theorem Separated.concat (h : Separated rs) (hr : r.1 ≤ r.2) (hbehind : ∀ s ∈ rs, s.2 < r.1) :
    Separated (rs ++ [r]) := by
  constructor
  · intro s hs
    rcases mem_append.mp hs with hs | hs
    · exact h.nonempty s hs
    rw [mem_singleton.mp hs]
    exact hr
  rw [pairwise_append]
  refine ⟨h.ascending, pairwise_singleton _ _, fun s hs t ht => ?_⟩
  rw [mem_singleton.mp ht]
  exact hbehind s hs

theorem Separated.le_of_mem_dropWhile (h : Separated rs) (n : Nat) :
    ∀ r ∈ rs.dropWhile fun r => decide (r.2 < n), n ≤ r.2 := by
  induction rs with
  | nil => exact nofun
  | cons s rs ih =>
    rw [dropWhile_cons]
    split
    · exact ih h.tail
    next hs =>
      have hn : n ≤ s.2 := not_lt.mp fun hlt => hs (decide_eq_true hlt)
      intro r hr
      rcases mem_cons.mp hr with rfl | hr
      · exact hn
      have := h.lt_of_mem hr
      have := h.nonempty r (mem_cons_of_mem _ hr)
      omega

theorem covers_dropWhile {n : Nat} (hx : n ≤ x) :
    Covers (rs.dropWhile fun r => decide (r.2 < n)) x ↔ Covers rs x := by
  induction rs with
  | nil => exact Iff.rfl
  | cons s rs ih =>
    rw [dropWhile_cons]
    split
    next hs =>
      have hlt := of_decide_eq_true hs
      rw [ih, covers_cons, or_iff_right (by omega)]
    · exact Iff.rfl

/-! ## Aligned blocks -/

theorem mem_block_iff {k start : Nat} (h : 2 ^ k ∣ start) :
    x / 2 ^ k = start / 2 ^ k ↔ start ≤ x ∧ x ≤ start + (2 ^ k - 1) := by
  obtain ⟨m, rfl⟩ := h
  have hpos := Nat.two_pow_pos k
  rw [Nat.mul_div_cancel_left _ hpos, Nat.div_eq_iff hpos]
  rw [mul_comm m]
  omega

theorem two_pow_dvd_of_testBit {k : Nat} (h : ∀ i < k, x.testBit i = false) : 2 ^ k ∣ x := by
  apply dvd_of_mod_eq_zero
  apply eq_of_testBit_eq
  intro i
  rw [testBit_mod_two_pow, zero_testBit]
  by_cases hi : i < k
  · rw [h i hi, Bool.and_false]
  · rw [decide_eq_false hi, Bool.false_and]

/-! ### Covers by blocks -/

/-- An aligned block: its length is a power of two, which divides its start. -/
def IsBlock (r : Nat × Nat) : Prop := ∃ k, 2 ^ k ∣ r.1 ∧ r.2 = r.1 + (2 ^ k - 1)

def Within (S : Nat → Prop) (r : Nat × Nat) : Prop := ∀ x, r.1 ≤ x → x ≤ r.2 → S x

structure Maximal (S : Nat → Prop) (r : Nat × Nat) : Prop where
  block : IsBlock r
  within : Within S r
  largest : ∀ s, IsBlock s → Within S s → s.1 ≤ r.1 → r.2 ≤ s.2 → s.2 ≤ r.2 ∧ r.1 ≤ s.1

theorem IsBlock.le (h : IsBlock r) : r.1 ≤ r.2 := by
  obtain ⟨k, -, hr⟩ := h
  omega

theorem IsBlock.nested (hr : IsBlock r) (hs : IsBlock s) (hxr : r.1 ≤ x ∧ x ≤ r.2) (hxs : s.1 ≤ x ∧ x ≤ s.2) :
    (s.1 ≤ r.1 ∧ r.2 ≤ s.2) ∨ (r.1 ≤ s.1 ∧ s.2 ≤ r.2) := by
  have hlarger : ∀ {r s : Nat × Nat} {k l : Nat}, k ≤ l → 2 ^ k ∣ r.1 → r.2 = r.1 + (2 ^ k - 1) → 2 ^ l ∣ s.1 →
      s.2 = s.1 + (2 ^ l - 1) → r.1 ≤ x ∧ x ≤ r.2 → s.1 ≤ x ∧ x ≤ s.2 → s.1 ≤ r.1 ∧ r.2 ≤ s.2 := by
    intro r s k l hkl hrd hr hsd hs hxr hxs
    obtain ⟨d, rfl⟩ := Nat.exists_eq_add_of_le hkl
    rw [hr] at hxr
    rw [hs] at hxs
    -- every number of the smaller block has the quotient of `x` by the larger length
    have hmem : ∀ y, r.1 ≤ y ∧ y ≤ r.1 + (2 ^ k - 1) → s.1 ≤ y ∧ y ≤ s.1 + (2 ^ (k + d) - 1) := by
      intro y hy
      rw [← mem_block_iff hsd] at hxs ⊢
      rw [← mem_block_iff hrd] at hy hxr
      rw [← hxs, Nat.pow_add, ← Nat.div_div_eq_div_mul, ← Nat.div_div_eq_div_mul, hy, hxr]
    have hfirst := hmem r.1 (by omega)
    have hlast := hmem (r.1 + (2 ^ k - 1)) (by omega)
    omega
  obtain ⟨k, hrd, hr⟩ := hr
  obtain ⟨l, hsd, hs⟩ := hs
  rcases le_total k l with hkl | hlk
  · exact Or.inl (hlarger hkl hrd hr hsd hs hxr hxs)
  · exact Or.inr (hlarger hlk hsd hs hrd hr hxs hxr)

/-- No block of `S` reaches from below `cur` beyond it. -/
def Cut (S : Nat → Prop) (cur : Nat) : Prop := ∀ r, IsBlock r → Within S r → r.1 < cur → r.2 < cur

/-- The maximal blocks of `S` from `cur` to `hi`, in ascending order. -/
structure Tiles (S : Nat → Prop) (cur hi : Nat) (rs : List (Nat × Nat)) : Prop where
  maximal : ∀ r ∈ rs, Maximal S r ∧ cur ≤ r.1 ∧ r.2 ≤ hi
  ascending : rs.Pairwise fun r s => r.2 < s.1
  covers : ∀ x, cur ≤ x → x ≤ hi → S x → Covers rs x

section
variable {S : Nat → Prop} {cur mid hi : Nat}

theorem cut_of_not (h : ∀ x, x + 1 = cur → ¬ S x) : Cut S cur := by
  intro r _ hr hlt
  by_contra hge
  exact h (cur - 1) (by omega) (hr _ (by omega) (by omega))

theorem Maximal.cut (h : Maximal S r) : Cut S (r.2 + 1) := by
  intro s hs hS hlt
  by_contra hge
  -- the block would contain this one
  have hnested := h.block.nested (x := r.2) hs ⟨h.block.le, le_rfl⟩ (by omega)
  have hlargest := h.largest s hs hS
  omega

theorem Tiles.covers_iff (h : Tiles S cur hi rs) : Covers rs x ↔ (cur ≤ x ∧ x ≤ hi) ∧ S x := by
  refine ⟨?_, fun hx => h.covers x hx.1.1 hx.1.2 hx.2⟩
  rintro ⟨r, hr, hx⟩
  obtain ⟨hmaximal, hcur, hhi⟩ := h.maximal r hr
  exact ⟨by omega, hmaximal.within x hx.1 hx.2⟩

theorem Tiles.nil (h : ∀ x, cur ≤ x → x ≤ hi → ¬ S x) : Tiles S cur hi [] :=
  ⟨nofun, Pairwise.nil, fun x hx hx' hS => absurd hS (h x hx hx')⟩

theorem Tiles.single (h : Maximal S r) : Tiles S r.1 r.2 [r] := by
  refine ⟨fun s hs => ?_, pairwise_singleton _ _, fun x hx hx' _ => covers_singleton.mpr ⟨hx, hx'⟩⟩
  obtain rfl := mem_singleton.mp hs
  exact ⟨h, le_rfl, le_rfl⟩

theorem Tiles.append (h : Tiles S cur mid rs) (h' : Tiles S (mid + 1) hi ss) (hcur : cur ≤ mid + 1) (hhi : mid ≤ hi) :
    Tiles S cur hi (rs ++ ss) := by
  refine ⟨fun r hr => ?_, pairwise_append.mpr ⟨h.ascending, h'.ascending, fun r hr s hs => ?_⟩, fun x hx hx' hS => ?_⟩
  · rcases mem_append.mp hr with hr | hr
    · have := h.maximal r hr
      exact ⟨this.1, this.2.1, by omega⟩
    have := h'.maximal r hr
    exact ⟨this.1, by omega, this.2.2⟩
  · have := h.maximal r hr
    have := h'.maximal s hs
    omega
  rw [covers_append]
  by_cases hmid : x ≤ mid
  · exact .inl (h.covers x hx hmid hS)
  · exact .inr (h'.covers x (by omega) hx' hS)

end

theorem length_le_of_injOn {α β : Type} {P : α → β → Prop} {as : List α} {bs : List β}
    (h : ∀ a ∈ as, ∃ b ∈ bs, P a b) (hne : as.Pairwise fun a a' => ∀ b, P a b → ¬ P a' b) :
    as.length ≤ bs.length := by
  by_cases hnil : as = []
  · simp [hnil]
  obtain ⟨a, ha⟩ := exists_mem_of_ne_nil as hnil
  obtain ⟨b, -⟩ := h a ha
  have : Nonempty β := ⟨b⟩
  choose! f hf using h
  have hnodup : (as.map f).Nodup := by
    rw [List.Nodup, pairwise_map]
    refine hne.imp_of_mem fun ha ha' hdisjoint heq => ?_
    exact hdisjoint _ (hf _ ha).2 (heq ▸ (hf _ ha').2)
  have hsub : as.map f ⊆ bs := by
    intro b hb
    obtain ⟨a, ha, rfl⟩ := mem_map.mp hb
    exact (hf a ha).1
  simpa using (subperm_of_subset hnodup hsub).length_le

end Ranges
