import Mathlib.SetTheory.Cardinal.Finite
import Yggdrasil.Base.TreeSides

/-!
# Flooding a tree

A node starts a flood by sending to some of its neighbours; a node that a message reaches sends it on to some of its
other neighbours. Messages are taken in any order, and nothing remembers who has been visited.
-/

namespace SimpleGraph
open List

/-- The messages on their way, with sender and receiver, and the nodes visited so far. -/
structure Flood (V : Type*) where
  flight : List (V × V)
  visited : List V

namespace Flood
variable {V : Type*} {G : SimpleGraph V} {s : Flood V} {o u v t : V} {rest : List (V × V)} {targets : List V}

def start (o : V) (targets : List V) : Flood V := { flight := targets.map (o, ·), visited := [o] }

def visit (s : Flood V) (v : V) (rest : List (V × V)) (targets : List V) : Flood V :=
  { flight := rest ++ targets.map (v, ·), visited := s.visited ++ [v] }

def Apart (G : SimpleGraph V) (m m' : V × V) : Prop := m'.2 ∈ G.side m.1 m.2 ∧ m.2 ∈ G.side m'.1 m'.2

theorem Apart.symm {m m' : V × V} (h : Apart G m m') : Apart G m' m := ⟨h.2, h.1⟩

structure Outward (G : SimpleGraph V) (s : Flood V) : Prop where
  nodup : s.visited.Nodup
  adj : ∀ m ∈ s.flight, G.Adj m.1 m.2
  sender : ∀ m ∈ s.flight, m.1 ∈ s.visited
  behind : ∀ m ∈ s.flight, ∀ x ∈ s.visited, x ∈ G.side m.1 m.2
  apart : s.flight.Pairwise (Apart G)

theorem apart_targets (hnodup : targets.Nodup) (hadj : ∀ w ∈ targets, G.Adj v w) :
    (targets.map (v, ·)).Pairwise (Apart G) := by
  rw [pairwise_map]
  refine hnodup.imp_of_mem fun {w w'} hw hw' hne => ?_
  exact ⟨adj_mem_side (hadj w' hw') hne.symm, adj_mem_side (hadj w hw) hne⟩

theorem outward_start (hnodup : targets.Nodup) (hadj : ∀ w ∈ targets, G.Adj o w) : Outward G (start o targets) where
  nodup := nodup_singleton o
  adj m hm := by
    obtain ⟨w, hw, rfl⟩ := mem_map.mp hm
    exact hadj w hw
  sender m hm := by
    obtain ⟨w, -, rfl⟩ := mem_map.mp hm
    exact mem_singleton_self o
  behind m hm x hx := by
    obtain ⟨w, -, rfl⟩ := mem_map.mp hm
    rw [mem_singleton.mp hx]
    exact self_mem_side G o w
  apart := apart_targets hnodup hadj

theorem Outward.notMem (hG : G.IsAcyclic) (h : Outward G s) (hm : (u, v) ∈ s.flight) : v ∉ s.visited :=
  fun hv => notMem_side hG (h.adj _ hm) (h.behind _ hm v hv)

theorem mem_flight_visit {m : V × V} (h : m ∈ (s.visit v rest targets).flight) :
    m ∈ rest ∨ ∃ w ∈ targets, m = (v, w) := by
  rcases mem_append.mp h with hm | hm
  · exact .inl hm
  obtain ⟨w, hw, rfl⟩ := mem_map.mp hm
  exact .inr ⟨w, hw, rfl⟩

theorem Outward.visit (hG : G.IsAcyclic) (h : Outward G s) (hflight : s.flight.Perm ((u, v) :: rest))
    (hnodup : targets.Nodup) (hadj : ∀ w ∈ targets, G.Adj v w) (hne : ∀ w ∈ targets, w ≠ u) :
    Outward G (s.visit v rest targets) := by
  have hm : (u, v) ∈ s.flight := hflight.mem_iff.mpr mem_cons_self
  have hrest : ∀ m ∈ rest, m ∈ s.flight := fun m hm => hflight.mem_iff.mpr (mem_cons_of_mem _ hm)
  have hv := h.notMem hG hm
  have hapart : ((u, v) :: rest).Pairwise (Apart G) := h.apart.perm hflight fun {_ _} => Apart.symm
  rw [pairwise_cons] at hapart
  -- what is behind the message that arrived is behind those that `v` sends
  have hside : ∀ w ∈ targets, G.side u v ⊆ G.side v w := fun w hw => side_subset hG (h.adj _ hm) (hne w hw).symm
  refine ⟨?_, fun m hm' => ?_, fun m hm' => ?_, fun m hm' x hx => ?_, ?_⟩
  · exact nodup_append'.mpr ⟨h.nodup, nodup_singleton v, disjoint_singleton.mpr hv⟩
  · rcases mem_flight_visit hm' with hm' | ⟨w, hw, rfl⟩
    · exact h.adj m (hrest m hm')
    · exact hadj w hw
  · rcases mem_flight_visit hm' with hm' | ⟨w, -, rfl⟩
    · exact mem_append_left _ (h.sender m (hrest m hm'))
    · exact mem_append_right _ (mem_singleton_self v)
  · rcases mem_flight_visit hm' with hm' | ⟨w, hw, rfl⟩
    · rcases mem_append.mp hx with hx | hx
      · exact h.behind m (hrest m hm') x hx
      rw [mem_singleton.mp hx]
      exact (hapart.1 m hm').2
    rcases mem_append.mp hx with hx | hx
    · exact hside w hw (h.behind _ hm x hx)
    rw [mem_singleton.mp hx]
    exact self_mem_side G v w
  refine pairwise_append.mpr ⟨hapart.2, apart_targets hnodup hadj, fun m hm' n hn => ?_⟩
  obtain ⟨w, hw, rfl⟩ := mem_map.mp hn
  have hsender : v ≠ m.1 := fun heq => hv (heq ▸ h.sender m (hrest m hm'))
  exact ⟨mem_side_of_adj hG (h.adj m (hrest m hm')) (hapart.1 m hm').2 hsender (hadj w hw),
    hside w hw (hapart.1 m hm').1⟩

/-- No node is visited twice. -/
theorem Outward.length_le [Finite V] (h : Outward G s) : s.visited.length ≤ Nat.card V := by
  have := Fintype.ofFinite V
  rw [Nat.card_eq_fintype_card]
  exact h.nodup.length_le_card

/-! ## Reaching a node -/

def Covers (G : SimpleGraph V) (t : V) (s : Flood V) : Prop := t ∈ s.visited ∨ ∃ m ∈ s.flight, t ∈ G.side m.2 m.1

theorem covers_start (hG : G.Connected) (htargets : ∀ w, G.Adj o w → t ∈ G.side w o → w ∈ targets) :
    Covers G t (start o targets) := by
  by_cases hne : t = o
  · exact .inl (mem_singleton.mpr hne)
  obtain ⟨w, hadj, ht⟩ := exists_adj_mem_side hG hne
  exact .inr ⟨(o, w), mem_map.mpr ⟨w, htargets w hadj ht, rfl⟩, ht⟩

theorem Covers.visit (hG : G.IsAcyclic) (h : Covers G t s) (hflight : s.flight.Perm ((u, v) :: rest))
    (htargets : ∀ w, G.Adj v w → w ≠ u → t ∈ G.side w v → w ∈ targets) : Covers G t (s.visit v rest targets) := by
  rcases h with hvisited | ⟨m, hm, ht⟩
  · exact .inl (mem_append_left _ hvisited)
  rcases mem_cons.mp (hflight.mem_iff.mp hm) with rfl | hm
  · rcases (mem_side_iff hG).mp ht with rfl | ⟨w, hadj, hne, hw⟩
    · exact .inl (mem_append_right _ (mem_singleton_self _))
    · exact .inr ⟨(v, w), mem_append_right _ (mem_map.mpr ⟨w, htargets w hadj.symm hne hw, rfl⟩), hw⟩
  · exact .inr ⟨m, mem_append_left _ hm, ht⟩

end Flood

end SimpleGraph
