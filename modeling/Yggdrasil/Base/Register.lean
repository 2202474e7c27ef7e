import Mathlib.Data.List.Perm.Basic
import Mathlib.Order.Lattice
import Mathlib.Order.WithBot

/-!
# A register that keeps the best value offered to it

Values carry a rank in a linear order; an offer replaces the stored value only if its rank is strictly larger.
-/

namespace Register
variable {α β : Type*} (rank : α → β)

def level (stored : Option α) : WithBot β := stored.elim ⊥ fun a => (rank a : WithBot β)

@[simp] theorem level_none : level rank (none : Option α) = ⊥ := rfl

@[simp] theorem level_some (a : α) : level rank (some a) = (rank a : WithBot β) := rfl

variable [LinearOrder β]

def offer (stored : Option α) (x : α) : Option α :=
  if stored.all fun a => decide (rank a < rank x) then some x else stored

variable {stored : Option α} {x : α} {xs : List α}

theorem all_lt_iff : (stored.all fun a => decide (rank a < rank x)) = true ↔ level rank stored < rank x := by
  cases stored with
  | none | some a => simp

theorem offer_of_lt (h : level rank stored < rank x) : offer rank stored x = some x := by
  rw [offer, if_pos ((all_lt_iff rank).mpr h)]

theorem offer_of_le (h : (rank x : WithBot β) ≤ level rank stored) : offer rank stored x = stored := by
  rw [offer, if_neg fun hlt => not_lt.mpr h ((all_lt_iff rank).mp hlt)]

theorem level_offer (stored : Option α) (x : α) :
    level rank (offer rank stored x) = max (level rank stored) (rank x) := by
  rcases lt_or_ge (level rank stored) (rank x) with h | h
  · rw [offer_of_lt rank h, level_some, max_eq_right h.le]
  · rw [offer_of_le rank h, max_eq_left h]

def offers (stored : Option α) (xs : List α) : Option α := xs.foldl (offer rank) stored

@[simp] theorem offers_cons (stored : Option α) (x : α) (xs : List α) :
    offers rank stored (x :: xs) = offers rank (offer rank stored x) xs := rfl

theorem level_offers (xs : List α) (stored : Option α) :
    level rank (offers rank stored xs) = xs.foldl (fun l x => max l (rank x : WithBot β)) (level rank stored) := by
  induction xs generalizing stored with
  | nil => rfl
  | cons x xs ih => rw [offers_cons, ih, List.foldl_cons, level_offer]

theorem level_le_offers (xs : List α) (stored : Option α) : level rank stored ≤ level rank (offers rank stored xs) := by
  induction xs generalizing stored with
  | nil => exact le_rfl
  | cons x xs ih => exact ((le_max_left _ _).trans_eq (level_offer rank stored x).symm).trans (ih _)

theorem rank_le_offers (h : x ∈ xs) (stored : Option α) :
    (rank x : WithBot β) ≤ level rank (offers rank stored xs) := by
  induction xs generalizing stored with
  | nil => exact absurd h List.not_mem_nil
  | cons y ys ih =>
    rcases List.mem_cons.mp h with rfl | hmem
    · exact ((le_max_right _ _).trans_eq (level_offer rank stored x).symm).trans (level_le_offers rank ys _)
    · exact ih hmem _

theorem offers_cases (xs : List α) (stored : Option α) :
    offers rank stored xs = stored ∨ ∃ x ∈ xs, offers rank stored xs = some x ∧ level rank stored < rank x := by
  induction xs generalizing stored with
  | nil => exact .inl rfl
  | cons x xs ih =>
    rw [offers_cons]
    rcases lt_or_ge (level rank stored) (rank x) with h | h
    · rw [offer_of_lt rank h]
      rcases ih (some x) with heq | ⟨y, hmem, heq, hlt⟩
      · exact .inr ⟨x, List.mem_cons_self, heq, h⟩
      · exact .inr ⟨y, List.mem_cons_of_mem x hmem, heq, h.trans hlt⟩
    rw [offer_of_le rank h]
    rcases ih stored with heq | ⟨y, hmem, heq, hlt⟩
    · exact .inl heq
    · exact .inr ⟨y, List.mem_cons_of_mem x hmem, heq, hlt⟩

theorem level_offers_perm {ys : List α} (h : xs.Perm ys) (stored : Option α) :
    level rank (offers rank stored xs) = level rank (offers rank stored ys) := by
  rw [level_offers, level_offers]
  exact h.foldl_eq' (fun x _ y _ l => sup_right_comm l (rank x : WithBot β) (rank y)) _

theorem offers_perm {ys : List α} (h : xs.Perm ys) (hinj : ∀ x ∈ xs, ∀ y ∈ xs, rank x = rank y → x = y)
    (stored : Option α) : offers rank stored xs = offers rank stored ys := by
  have hlevel := level_offers_perm rank h stored
  rcases offers_cases rank xs stored with hx | ⟨x, hmemx, hx, hltx⟩ <;>
    rcases offers_cases rank ys stored with hy | ⟨y, hmemy, hy, hlty⟩
  · rw [hx, hy]
  · rw [hx, hy] at hlevel
    exact absurd hlevel hlty.ne
  · rw [hx, hy] at hlevel
    exact absurd hlevel.symm hltx.ne
  rw [hx, hy] at hlevel
  rw [hx, hy, hinj x hmemx y (h.mem_iff.mpr hmemy) (WithBot.coe_injective hlevel)]

end Register
