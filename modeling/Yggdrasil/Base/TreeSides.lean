import Mathlib.Combinatorics.SimpleGraph.Acyclic

/-!
# The two sides of an edge of a tree
-/

namespace SimpleGraph
variable {V : Type*} {G : SimpleGraph V} {u v w x : V}

/-- The nodes on the side of `u` when the edge between `u` and `v` is cut. -/
def side (G : SimpleGraph V) (u v : V) : Set V := {w | (G.deleteEdges {s(u, v)}).Reachable u w}

theorem self_mem_side (G : SimpleGraph V) (u v : V) : u ∈ G.side u v := Reachable.refl _

theorem notMem_side (hG : G.IsAcyclic) (h : G.Adj u v) : v ∉ G.side u v :=
  isBridge_iff.mp (isAcyclic_iff_forall_adj_isBridge.mp hG h)

theorem side_subset (hG : G.IsAcyclic) (hwu : G.Adj w u) (hne : w ≠ v) : G.side w u ⊆ G.side u v := by
  intro x hx
  obtain ⟨p, hp⟩ := reachable_deleteEdges_iff_exists_walk.mp hx
  refine reachable_deleteEdges_iff_exists_walk.mpr ⟨Walk.cons hwu.symm p, ?_⟩
  rw [Walk.edges_cons, List.mem_cons, not_or]
  constructor
  · intro heq
    rw [Sym2.eq_iff] at heq
    rcases heq with ⟨-, rfl⟩ | ⟨rfl, -⟩
    · exact hne rfl
    · exact hwu.ne rfl
  -- a walk that takes the edge from `u` to `v` has been at `u`
  intro hedge
  classical
  have hu : u ∈ p.support := p.fst_mem_support_of_mem_edges hedge
  refine notMem_side hG hwu (reachable_deleteEdges_iff_exists_walk.mpr ⟨p.takeUntil u hu, fun hmem => hp ?_⟩)
  exact p.edges_takeUntil_subset_edges hu hmem

theorem mem_side_of_walk (p : G.Walk w x) (hu : u ∉ p.support) : x ∈ G.side w u :=
  reachable_deleteEdges_iff_exists_walk.mpr ⟨p, fun hedge => hu (p.snd_mem_support_of_mem_edges hedge)⟩

theorem mem_side_iff (hG : G.IsAcyclic) : x ∈ G.side u v ↔ x = u ∨ ∃ w, G.Adj w u ∧ w ≠ v ∧ x ∈ G.side w u := by
  constructor
  · intro hx
    obtain ⟨p, hpath⟩ := hx.exists_isPath
    cases p with
    | nil => exact .inl rfl
    | @cons _ w _ hadj p =>
      rw [deleteEdges_adj, Set.mem_singleton_iff] at hadj
      rw [Walk.cons_isPath_iff] at hpath
      refine .inr ⟨w, hadj.1.symm, fun hw => hadj.2 (by rw [hw]), ?_⟩
      refine mem_side_of_walk (p.map (.ofLE (deleteEdges_le _))) ?_
      rw [Walk.support_map, Hom.coe_ofLE, List.map_id]
      exact hpath.2
  rintro (rfl | ⟨w, hwu, hne, hx⟩)
  · exact self_mem_side G x v
  · exact side_subset hG hwu hne hx

theorem exists_adj_mem_side (hG : G.Connected) (hne : x ≠ u) : ∃ w, G.Adj u w ∧ x ∈ G.side w u := by
  obtain ⟨p, hpath⟩ := (hG.preconnected u x).exists_isPath
  cases p with
  | nil => exact absurd rfl hne
  | cons hadj p => exact ⟨_, hadj, mem_side_of_walk p ((Walk.cons_isPath_iff hadj p).mp hpath).2⟩

theorem adj_mem_side (hadj : G.Adj u w) (hne : w ≠ v) : w ∈ G.side u v := by
  refine (deleteEdges_adj.mpr ⟨hadj, fun hedge => ?_⟩ : (G.deleteEdges {s(u, v)}).Adj u w).reachable
  rcases Sym2.eq_iff.mp (Set.mem_singleton_iff.mp hedge) with ⟨-, rfl⟩ | ⟨rfl, rfl⟩
  · exact hne rfl
  · exact hadj.ne rfl

theorem mem_side_of_adj (hG : G.IsAcyclic) (huv : G.Adj u v) (hx : x ∈ G.side u v) (hne : x ≠ u) (hadj : G.Adj x w) :
    w ∈ G.side u v := by
  refine hx.trans (deleteEdges_adj.mpr ⟨hadj, fun hedge => ?_⟩ : (G.deleteEdges {s(u, v)}).Adj x w).reachable
  rcases Sym2.eq_iff.mp (Set.mem_singleton_iff.mp hedge) with ⟨rfl, -⟩ | ⟨rfl, -⟩
  · exact hne rfl
  · exact notMem_side hG huv hx

theorem side_induct [Finite V] (hG : G.IsAcyclic) {P : V → V → Prop}
    (h : ∀ u v, G.Adj u v → (∀ w, G.Adj w u → w ≠ v → P w u) → P u v) : ∀ u v, G.Adj u v → P u v := by
  have hcard : ∀ n u v, (G.side u v).ncard = n → G.Adj u v → P u v := by
    intro n
    induction n using Nat.strongRecOn with
    | ind n ih =>
      intro u v hn huv
      refine h u v huv fun w hwu hne => ih _ ?_ w u rfl hwu
      -- the side behind lacks `u`
      rw [← hn]
      refine Set.ncard_lt_ncard ⟨side_subset hG hwu hne, fun hsub => ?_⟩ (Set.toFinite _)
      exact notMem_side hG hwu (hsub (self_mem_side G u v))
  exact fun u v => hcard _ u v rfl

theorem iff_exists_mem_side [Finite V] (hG : G.IsAcyclic) {own : V → Prop} {P : V → V → Prop}
    (h : ∀ u v, G.Adj u v → (P u v ↔ own u ∨ ∃ w, G.Adj w u ∧ w ≠ v ∧ P w u)) (huv : G.Adj u v) :
    P u v ↔ ∃ w ∈ G.side u v, own w := by
  refine side_induct hG (P := fun u v => P u v ↔ ∃ w ∈ G.side u v, own w) (fun u v huv ih => ?_) u v huv
  rw [h u v huv]
  constructor
  · rintro (hown | ⟨w, hwu, hne, hw⟩)
    · exact ⟨u, self_mem_side G u v, hown⟩
    obtain ⟨x, hx, hown⟩ := (ih w hwu hne).mp hw
    exact ⟨x, side_subset hG hwu hne hx, hown⟩
  rintro ⟨x, hx, hown⟩
  rcases (mem_side_iff hG).mp hx with rfl | ⟨w, hwu, hne, hx⟩
  · exact .inl hown
  · exact .inr ⟨w, hwu, hne, (ih w hwu hne).mpr ⟨x, hx, hown⟩⟩

end SimpleGraph
