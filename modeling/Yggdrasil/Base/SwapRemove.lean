import Mathlib.Data.List.Nodup
import Mathlib.Data.List.Perm.Basic

/-!
# Removal by swapping
-/

namespace List
variable {α : Type*} {xs : List α} {i j : Nat} {a b : α}

/-- The list without its element at `i`, the last element in its place, as `Vec::swap_remove` does. -/
def swapRemove (xs : List α) (i : Nat) : List α :=
  match xs.getLast? with
  | some last => (xs.set i last).dropLast
  | none => xs

theorem swapRemove_concat (ys : List α) (last : α) (i : Nat) :
    (ys ++ [last]).swapRemove i = ((ys ++ [last]).set i last).dropLast := by
  unfold swapRemove
  rw [getLast?_concat]

@[simp] theorem length_swapRemove (xs : List α) (i : Nat) : (xs.swapRemove i).length = xs.length - 1 := by
  rcases eq_nil_or_concat xs with rfl | ⟨ys, last, rfl⟩
  · rfl
  · rw [concat_eq_append, swapRemove_concat, length_dropLast, length_set]

theorem getElem?_swapRemove (xs : List α) (i j : Nat) (hj : j + 1 < xs.length) :
    (xs.swapRemove i)[j]? = if j = i then xs.getLast? else xs[j]? := by
  rcases eq_nil_or_concat xs with rfl | ⟨ys, last, rfl⟩
  · exact absurd hj (Nat.not_lt_zero _)
  rw [concat_eq_append] at hj ⊢
  rw [swapRemove_concat, getElem?_dropLast, length_set, if_pos (by omega), getElem?_set, getLast?_concat]
  split
  next h =>
    have : i < (ys ++ [last]).length := by omega
    rw [if_pos h.symm, if_pos this]
  next h => rw [if_neg fun h' => h h'.symm]

theorem swapRemove_perm (hi : i < xs.length) : (xs.swapRemove i).Perm (xs.eraseIdx i) := by
  rcases eq_nil_or_concat xs with rfl | ⟨ys, last, rfl⟩
  · exact absurd hi (Nat.not_lt_zero _)
  rw [concat_eq_append] at hi ⊢
  rw [length_append, length_singleton] at hi
  rw [swapRemove_concat]
  rcases Nat.lt_succ_iff_lt_or_eq.mp hi with hlt | rfl
  · rw [set_append_left _ _ hlt, dropLast_concat, eraseIdx_append_of_lt_length hlt]
    exact (set_perm_cons_eraseIdx hlt last).trans (perm_append_singleton last _).symm
  rw [set_append_right _ _ (Nat.le_refl _), Nat.sub_self, set_cons_zero, dropLast_concat,
    eraseIdx_append_of_length_le (Nat.le_refl _), Nat.sub_self, eraseIdx_cons_zero, append_nil]

theorem Nodup.swapRemove (h : xs.Nodup) (hi : i < xs.length) : (xs.swapRemove i).Nodup :=
  (swapRemove_perm hi).nodup_iff.mpr (h.sublist (eraseIdx_sublist xs i))

theorem Nodup.mem_swapRemove_iff (h : xs.Nodup) (hi : xs[i]? = some a) : b ∈ xs.swapRemove i ↔ b ∈ xs ∧ b ≠ a := by
  obtain ⟨hlt, rfl⟩ := getElem?_eq_some_iff.mp hi
  have hperm := getElem_cons_eraseIdx_perm hlt
  have hnodup := (hperm.nodup_iff.mpr h)
  rw [(swapRemove_perm hlt).mem_iff, ← hperm.mem_iff, mem_cons]
  constructor
  · intro hb
    exact ⟨Or.inr hb, fun heq => (nodup_cons.mp hnodup).1 (heq ▸ hb)⟩
  rintro ⟨rfl | hb, hne⟩
  · exact absurd rfl hne
  · exact hb

end List
