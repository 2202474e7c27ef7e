import Mathlib.Data.List.GetD
import Yggdrasil.Base.Cursor

/-!
# Programs that may panic

A program in `Cursor (Fault ε)` fails with an error of its own or panics: an index or a slice out of range, a shift by
the width or more, a loop that does not end. It is compared with a program without such operations.
-/

inductive Fault (ε : Type) where
  | error (e : ε)
  | panic
deriving DecidableEq

namespace Fault
variable {ε β : Type} {m : Type → Type} [Monad m] [MonadExcept (Fault ε) m]
variable (data : List β)

def sliceFrom (n : Nat) : m (List β) := if n ≤ data.length then pure (data.drop n) else throw .panic

def sliceTo (n : Nat) : m (List β) := if n ≤ data.length then pure (data.take n) else throw .panic

def index (i : Nat) : m β :=
  match data[i]? with
  | some b => pure b
  | none => throw .panic

def assign (i : Nat) (b : β) : m (List β) :=
  if i < data.length then pure (data.set i b) else throw .panic

def shl (a : UInt64) (n : Nat) : m UInt64 := if n < 64 then pure (a <<< UInt64.ofNat n) else throw .panic

variable {data : List β} {n : Nat}

theorem sliceFrom_eq (h : n ≤ data.length) : sliceFrom data n = (pure (data.drop n) : m _) :=
  if_pos h

theorem sliceTo_eq (h : n ≤ data.length) : sliceTo data n = (pure (data.take n) : m _) :=
  if_pos h

theorem assign_eq {i : Nat} (h : i < data.length) (b : β) : assign data i b = (pure (data.set i b) : m _) := if_pos h

theorem shl_eq (h : n < 64) (a : UInt64) : shl a n = (pure (a <<< UInt64.ofNat n) : m _) := if_pos h

theorem index_eq {i : Nat} (h : i < data.length) (b : β) : index data i = (pure (data.getD i b) : m _) := by
  rw [index, List.getElem?_eq_getElem h, List.getD_eq_getElem _ _ h]

/-- On every input `p` returns a value or fails with `e`, and `c`, which may panic, does the same. -/
def Total {α σ : Type} (c : σ → Except (Fault ε) α) (p : σ → Except ε α) (e : ε) : Prop :=
  ∀ xs, c xs = (p xs).mapError .error ∧ ((∃ a, p xs = .ok a) ∨ p xs = .error e)

end Fault

namespace Cursor
variable {ε β α γ : Type}

def takeSlice (e : ε) (n : Nat) : Cursor (Fault ε) β (List β) := do
  let data ← get
  if data.length < n then throw (.error e)
  let out ← Fault.sliceTo data n
  set (← Fault.sliceFrom data n)
  return out

/-- Both programs return the same, which meets `P`, or both fail with `e`. -/
def Mirrors (c : Cursor (Fault ε) β α) (p : Cursor ε β α) (e : ε) (P : α → Prop) : Prop :=
  ∀ xs, (∃ a rest, c.run xs = .ok (a, rest) ∧ p.run xs = .ok (a, rest) ∧ P a) ∨
    c.run xs = .error (.error e) ∧ p.run xs = .error e

variable {c : Cursor (Fault ε) β α} {p : Cursor ε β α} {f : α → Cursor (Fault ε) β γ} {g : α → Cursor ε β γ} {e : ε}
  {P : α → Prop} {Q : γ → Prop} {a : α}

theorem Mirrors.pure (h : P a) : Mirrors (Pure.pure a : Cursor (Fault ε) β α) (Pure.pure a) e P :=
  fun xs => .inl ⟨a, xs, rfl, rfl, h⟩

theorem Mirrors.throw : Mirrors (throw (.error e) : Cursor (Fault ε) β α) (throw e) e P := fun _ => .inr ⟨rfl, rfl⟩

theorem Mirrors.bind (h : Mirrors c p e P) (hf : ∀ a, P a → Mirrors (f a) (g a) e Q) :
    Mirrors (c >>= f) (p >>= g) e Q := by
  intro xs
  rw [StateT.run_bind, StateT.run_bind]
  rcases h xs with ⟨a, rest, hc, hp, ha⟩ | ⟨hc, hp⟩
  · rw [hc, hp]
    exact hf a ha rest
  rw [hc, hp]
  exact .inr ⟨rfl, rfl⟩

theorem Mirrors.bind_pure {q : Cursor ε β γ} (hc : c = Pure.pure a) (hf : Mirrors (f a) q e Q) :
    Mirrors (c >>= f) q e Q := by
  rwa [hc, pure_bind]

theorem Mirrors.get : Mirrors (get : Cursor (Fault ε) β (List β)) (get : Cursor ε β (List β)) e fun _ => True :=
  fun xs => .inl ⟨xs, xs, rfl, rfl, trivial⟩

theorem Mirrors.finish : Mirrors (finish (.error e) : Cursor (Fault ε) β Unit) (finish e) e fun _ => True := by
  intro xs
  cases xs with
  | nil => exact .inl ⟨(), [], rfl, rfl, trivial⟩
  | cons x xs => exact .inr ⟨rfl, rfl⟩

theorem takeSlice_mirrors (e : ε) (n : Nat) :
    Mirrors (takeSlice e n) (take e n : Cursor ε β (List β)) e fun bs => bs.length = n := by
  intro xs
  simp only [takeSlice, take, StateT.run_bind, StateT.run_get, pure_bind]
  by_cases hn : xs.length < n
  · simp only [if_pos hn]
    exact .inr ⟨rfl, rfl⟩
  simp only [if_neg hn]
  rw [Fault.sliceTo_eq (by omega), Fault.sliceFrom_eq (by omega)]
  refine .inl ⟨xs.take n, xs.drop n, rfl, rfl, ?_⟩
  show (xs.take n).length = n
  rw [List.length_take]
  omega

theorem Mirrors.total (h : Mirrors c p e P) : Fault.Total c.run p.run e := by
  intro xs
  rcases h xs with ⟨a, rest, hc, hp, -⟩ | ⟨hc, hp⟩
  · rw [hc, hp]
    exact ⟨rfl, .inl ⟨_, rfl⟩⟩
  rw [hc, hp]
  exact ⟨rfl, .inr rfl⟩

theorem Mirrors.total_run' (h : Mirrors c p e P) : Fault.Total c.run' p.run' e := by
  intro xs
  obtain ⟨heq, hres⟩ := h.total xs
  rw [StateT.run'_eq, StateT.run'_eq, heq]
  rcases hres with ⟨ret, hok⟩ | herror
  · rw [hok]
    exact ⟨rfl, .inl ⟨_, rfl⟩⟩
  rw [herror]
  exact ⟨rfl, .inr rfl⟩

end Cursor
