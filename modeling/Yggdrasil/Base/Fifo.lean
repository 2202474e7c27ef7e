import Yggdrasil.Base.Run

/-!
# A family of queues

Each value belongs to the queue of its key. The order between different queues is left open.
-/

namespace Fifo
open List
variable {κ α φ : Type}

/-- A value enters its queue, or leaves it with a mark. -/
inductive Move (φ α : Type) where
  | put (a : α)
  | take (mark : φ) (a : α)

namespace Move

def put? : Move φ α → Option α
  | put a => some a
  | take _ _ => none

def taken? : Move φ α → Option (φ × α)
  | put _ => none
  | take mark a => some (mark, a)

end Move

def puts (ms : List (Move φ α)) : List α := ms.filterMap Move.put?

def taken (ms : List (Move φ α)) : List (φ × α) := ms.filterMap Move.taken?

@[simp] theorem puts_append (ms ms' : List (Move φ α)) : puts (ms ++ ms') = puts ms ++ puts ms' := List.filterMap_append

@[simp] theorem taken_append (ms ms' : List (Move φ α)) : taken (ms ++ ms') = taken ms ++ taken ms' :=
  filterMap_append

variable [DecidableEq κ] (key : α → κ)

def lane (k : κ) (as : List α) : List α := as.filter fun a => key a = k

@[simp] theorem lane_append (k : κ) (as bs : List α) : lane key k (as ++ bs) = lane key k as ++ lane key k bs :=
  filter_append ..

theorem lane_sublist {as bs : List α} (h : as.Sublist bs) (k : κ) :
    (lane key k as).Sublist (lane key k bs) := h.filter _

theorem lane_singleton (k : κ) (a : α) : lane key k [a] = if key a = k then [a] else [] := by
  unfold lane
  by_cases h : key a = k <;> simp [h]

/-- A value is appended to its queue, or the head of a queue is taken. -/
def Step (s : κ → List α) (m : Move φ α) (t : κ → List α) : Prop :=
  match m with
  | .put a => (∀ k, k ≠ key a → t k = s k) ∧ t (key a) = s (key a) ++ [a]
  | .take _ a => (∀ k, k ≠ key a → t k = s k) ∧ s (key a) = a :: t (key a)

variable {key} {s t : κ → List α} {ms : List (Move φ α)}

theorem Step.conserved {m : Move φ α} (h : Step key s m t) (k : κ) :
    s k ++ lane key k (puts [m]) = lane key k ((taken [m]).map Prod.snd) ++ t k := by
  cases m with
  | put a =>
    obtain ⟨hothers, hown⟩ := h
    show s k ++ lane key k [a] = lane key k [] ++ t k
    rw [lane_singleton]
    by_cases hk : key a = k
    · subst hk
      rw [if_pos rfl, hown]
      rfl
    rw [if_neg hk, hothers k (Ne.symm hk), append_nil]
    rfl
  | take mark a =>
    obtain ⟨hothers, hown⟩ := h
    show s k ++ lane key k [] = lane key k [a] ++ t k
    rw [lane_singleton]
    by_cases hk : key a = k
    · subst hk
      rw [if_pos rfl, hown]
      exact append_nil _
    rw [if_neg hk, hothers k (Ne.symm hk)]
    exact append_nil _

theorem run_conserved (h : Lts.Run (Step (φ := φ) key) s ms t) (k : κ) :
    s k ++ lane key k (puts ms) = lane key k ((taken ms).map Prod.snd) ++ t k := by
  induction h with
  | nil => exact append_nil _
  | @snoc u v ms m _ hstep ih =>
    rw [puts_append, taken_append, map_append, lane_append, lane_append, ← append_assoc, ih,
      append_assoc, hstep.conserved k, append_assoc]

theorem marked_sublist (h : Lts.Run (Step (φ := φ) key) (fun _ => []) ms t) (p : φ → Bool) (k : κ) :
    (lane key k (((taken ms).filter fun e => p e.1).map Prod.snd)).Sublist (lane key k (puts ms)) := by
  have hall := run_conserved h k
  rw [nil_append] at hall
  rw [hall]
  refine List.Sublist.trans ?_ (sublist_append_left _ _)
  exact lane_sublist key (filter_sublist.map Prod.snd) k

end Fifo
