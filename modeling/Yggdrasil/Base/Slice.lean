import Mathlib.Data.List.Basic

/-!
# Checked access to a list

Indexing, slicing and writing that fail outside the list, as programs in `Option`.
-/

universe u

namespace Option
variable {α β : Type u} {P : α → Prop} {Q : β → Prop}

def Yields (o : Option α) (P : α → Prop) : Prop := ∃ a, o = some a ∧ P a

theorem yields_some {a : α} (h : P a) : (some a).Yields P := ⟨a, rfl, h⟩

theorem Yields.bind {o : Option α} {f : α → Option β} (ho : o.Yields P) (hf : ∀ a, P a → (f a).Yields Q) :
    (o >>= f).Yields Q := by
  obtain ⟨a, rfl, ha⟩ := ho
  exact hf a ha

end Option

def Nat.checkedSub (a b : Nat) : Option Nat := if b ≤ a then some (a - b) else none

theorem Nat.checkedSub_of_le {a b : Nat} (h : b ≤ a) : Nat.checkedSub a b = some (a - b) := if_pos h

namespace List
variable {α : Type*} {xs src : List α} {i j n : Nat}

def slice? (xs : List α) (i j : Nat) : Option (List α) :=
  if i ≤ j ∧ j ≤ xs.length then some ((xs.drop i).take (j - i)) else none

def set? (xs : List α) (i : Nat) (a : α) : Option (List α) := if i < xs.length then some (xs.set i a) else none

def copyAt? (xs : List α) (i : Nat) (src : List α) : Option (List α) :=
  if i + src.length ≤ xs.length then some (xs.take i ++ src ++ xs.drop (i + src.length)) else none

theorem yields_getElem? (h : i < xs.length) : xs[i]?.Yields fun _ => True :=
  ⟨xs[i], List.getElem?_eq_getElem h, trivial⟩

theorem slice?_of_le (hij : i ≤ j) (hj : j ≤ xs.length) : xs.slice? i j = some ((xs.drop i).take (j - i)) :=
  if_pos ⟨hij, hj⟩

theorem length_of_slice? {ys : List α} (h : xs.slice? i j = some ys) : ys.length = j - i := by
  unfold slice? at h
  split at h
  next hle =>
    cases h
    rw [length_take, length_drop]
    omega
  · cases h

theorem yields_slice? (hij : i ≤ j) (hj : j ≤ xs.length) : (xs.slice? i j).Yields fun ys => ys.length = j - i :=
  ⟨_, slice?_of_le hij hj, length_of_slice? (slice?_of_le hij hj)⟩

variable {as bs cs : List α}

theorem slice?_append (hi : as.length = i) (hj : i + bs.length = j) : (as ++ (bs ++ cs)).slice? i j = some bs := by
  subst hi hj
  rw [slice?, if_pos (by simp), drop_left, Nat.add_sub_cancel_left, take_left]

theorem copyAt?_append (h : as.length = i) (hsrc : bs.length = src.length) :
    (as ++ (bs ++ cs)).copyAt? i src = some (as ++ (src ++ cs)) := by
  subst h
  simp [copyAt?, ← hsrc]

end List

namespace Vector
variable {α : Type*} [Inhabited α] {xs : List α} {i n : Nat}

def ofSlice (n : Nat) (xs : List α) (i : Nat) : Vector α n := ofFn fun k => xs.getD (i + k) default

def ofSlice? (n : Nat) (xs : List α) (i : Nat) : Option (Vector α n) :=
  if i + n ≤ xs.length then some (ofSlice n xs i) else none

theorem ofSlice?_of_le (h : i + n ≤ xs.length) : ofSlice? n xs i = some (ofSlice n xs i) := if_pos h

theorem yields_ofSlice? (h : i + n ≤ xs.length) : (ofSlice? n xs i).Yields fun _ => True :=
  ⟨_, ofSlice?_of_le h, trivial⟩

end Vector
