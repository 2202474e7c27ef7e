import Mathlib.Data.List.Basic

/-!
# Programs that read from the front of a list

A `Cursor` reads items one after the other and may fail. Its laws are stated for a program as a whole and composed along
`>>=`.
-/

/-- A program that consumes a list from the front. -/
abbrev Cursor (ε β α : Type) := StateT (List β) (Except ε) α

namespace Cursor
open List
variable {ε β α γ : Type}

def take (e : ε) (n : Nat) : Cursor ε β (List β) := do
  let data ← get
  if data.length < n then throw e
  set (data.drop n)
  return data.take n

def finish (e : ε) : Cursor ε β Unit := do
  if !(← get).isEmpty then throw e

variable (p : Cursor ε β α)

def Reads (xs : List β) (a : α) : Prop := ∀ rest, p.run (xs ++ rest) = .ok (a, rest)

def Completes (xs : List β) (a : α) : Prop := p.run' xs = .ok a

def Exhausts (xs : List β) (e : ε) (a : α) : Prop :=
  p.run' xs = .ok a ∧ ∀ rest, rest ≠ [] → p.run' (xs ++ rest) = .error e

def Returns (P : α → Prop) : Prop := ∀ xs a rest, p.run xs = .ok (a, rest) → P a

variable {p : Cursor ε β α} {f : α → Cursor ε β γ} {xs ys : List β} {a : α} {c : γ} {P : α → Prop} {Q : γ → Prop}

/-! ## Reading a prefix -/

theorem Reads.pure (a : α) : Reads (Pure.pure a : Cursor ε β α) [] a := fun _ => rfl

theorem Reads.bind (hp : Reads p xs a) (hf : Reads (f a) ys c) : Reads (p >>= f) (xs ++ ys) c := by
  intro rest
  rw [StateT.run_bind, append_assoc, hp]
  exact hf rest

theorem Reads.bind_pure (hp : Reads p xs a) (g : α → γ) : Reads (p >>= fun a => Pure.pure (g a)) xs (g a) := by
  intro rest
  rw [StateT.run_bind, hp]
  rfl

theorem Reads.completes (hp : Reads p xs a) : Completes p xs a := by
  have h := hp []
  rw [append_nil] at h
  rw [Completes, StateT.run'_eq, h]
  rfl

theorem Reads.mapM {δ : Type} {f : δ → Cursor ε β γ} {enc : δ → List β} {g : δ → γ} {ds : List δ}
    (h : ∀ d ∈ ds, Reads (f d) (enc d) (g d)) : Reads (ds.mapM f) (ds.flatMap enc) (ds.map g) := by
  induction ds with
  | nil => exact Reads.pure []
  | cons d ds ih =>
    rw [mapM_cons, flatMap_cons, map_cons]
    have hrest := ih fun d' hd' => h d' (mem_cons_of_mem _ hd')
    exact (h d mem_cons_self).bind (hrest.bind_pure fun cs => g d :: cs)

theorem reads_take (e : ε) (xs : List β) : Reads (take e xs.length) xs xs := by
  intro rest
  have hlen : ¬ (xs ++ rest).length < xs.length := by
    rw [length_append]
    omega
  show (if (xs ++ rest).length < xs.length then _ else _ : Cursor ε β _).run _ = _
  rw [if_neg hlen]
  show Except.ok ((xs ++ rest).take xs.length, (xs ++ rest).drop xs.length) = _
  rw [take_left, drop_left]

/-! ## Reading to the end -/

theorem Completes.bind (hp : Reads p xs a) (hf : Completes (f a) ys c) : Completes (p >>= f) (xs ++ ys) c := by
  rw [Completes, StateT.run'_eq] at hf ⊢
  rw [StateT.run_bind, hp]
  exact hf

theorem Exhausts.bind {e : ε} (hp : Reads p xs a) (hf : Exhausts (f a) ys e c) : Exhausts (p >>= f) (xs ++ ys) e c := by
  refine ⟨Completes.bind hp hf.1, fun rest hrest => ?_⟩
  have hfail := hf.2 rest hrest
  rw [StateT.run'_eq] at hfail ⊢
  rw [append_assoc, StateT.run_bind, hp]
  exact hfail

theorem Exhausts.finish (hp : Reads p xs a) (e : ε) (g : α → γ) :
    Exhausts (p >>= fun a => Cursor.finish e >>= fun _ => Pure.pure (g a)) xs e (g a) := by
  have hlast : Exhausts (Cursor.finish e >>= fun _ => Pure.pure (g a) : Cursor ε β γ) [] e (g a) := by
    refine ⟨rfl, fun rest hrest => ?_⟩
    obtain ⟨b, rest, rfl⟩ := exists_cons_of_ne_nil hrest
    rfl
  have h := Exhausts.bind (f := fun a => Cursor.finish e >>= fun _ => Pure.pure (g a)) hp hlast
  rwa [append_nil] at h

/-! ## Results -/

theorem Returns.pure (h : P a) : Returns (Pure.pure a : Cursor ε β α) P := by
  intro xs a' rest hrun
  cases hrun
  exact h

theorem Returns.bind (hp : Returns p P) (hf : ∀ a, P a → Returns (f a) Q) : Returns (p >>= f) Q := by
  intro xs c rest hrun
  rw [StateT.run_bind] at hrun
  cases hread : p.run xs with
  | error e =>
    rw [hread] at hrun
    cases hrun
  | ok ret =>
    rw [hread] at hrun
    exact hf ret.1 (hp xs ret.1 ret.2 hread) ret.2 c rest hrun

theorem Returns.run' (hp : Returns p P) (h : p.run' xs = .ok a) : P a := by
  rw [StateT.run'_eq] at h
  cases hread : p.run xs with
  | error e =>
    rw [hread] at h
    cases h
  | ok ret =>
    rw [hread] at h
    cases h
    exact hp xs ret.1 ret.2 hread

theorem returns_any (p : Cursor ε β α) : Returns p fun _ => True := fun _ _ _ _ => trivial

end Cursor
