import Mathlib.Logic.Function.Basic

/-!
# Programs over words, one lane or many

A program that only adds, xors and rotates words is written once.
-/

/-- The operations of an add-rotate-xor cipher. -/
structure WordOps (ρ α : Type) where
  add : α → α → α
  xor : α → α → α
  rotl : ρ → α → α

namespace WordOps
variable {ρ α β ι : Type}

def lanes (n : Nat) (ops : WordOps ρ α) : WordOps ρ (Fin n → α) where
  add x y := fun j => ops.add (x j) (y j)
  xor x y := fun j => ops.xor (x j) (y j)
  rotl r x := fun j => ops.rotl r (x j)

structure Hom (A : WordOps ρ α) (B : WordOps ρ β) (f : α → β) : Prop where
  add : ∀ x y, f (A.add x y) = B.add (f x) (f y)
  xor : ∀ x y, f (A.xor x y) = B.xor (f x) (f y)
  rotl : ∀ r x, f (A.rotl r x) = B.rotl r (f x)

theorem lanes_hom (n : Nat) (ops : WordOps ρ α) (j : Fin n) : Hom (ops.lanes n) ops fun x => x j :=
  ⟨fun _ _ => rfl, fun _ _ => rfl, fun _ _ => rfl⟩

def set [DecidableEq ι] (v : ι → α) (i : ι) (x : α) : ι → α := Function.update v i x

theorem map_set [DecidableEq ι] (f : α → β) (v : ι → α) (i : ι) (x : α) :
    (fun k => f (set v i x k)) = set (fun k => f (v k)) i (f x) := by
  funext k
  unfold set
  rw [Function.update_apply, Function.update_apply, apply_ite f]

end WordOps
