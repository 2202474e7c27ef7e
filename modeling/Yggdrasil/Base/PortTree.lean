import Mathlib.Combinatorics.SimpleGraph.Metric
import Mathlib.Order.Lattice.Nat

/-!
# Rooted trees with ports

A finite set of nodes, each with a parent and the port its parent knows it by. The ports on the way from the root down
to a node are its coordinates.
-/

def pathDist {P : Type*} [DecidableEq P] : List P → List P → Nat
  | a :: x, b :: y => if a = b then pathDist x y else x.length + y.length + 2
  | x, y => x.length + y.length

section PathDist
variable {P : Type*} [DecidableEq P]

theorem pathDist_nil_left (y : List P) : pathDist [] y = y.length := by
  cases y with
  | nil => rfl
  | cons b y => simp [pathDist]

theorem pathDist_nil_right (x : List P) : pathDist x [] = x.length := by
  cases x with
  | nil => rfl
  | cons a x => simp [pathDist]

theorem pathDist_self (x : List P) : pathDist x x = 0 := by
  induction x with
  | nil => rfl
  | cons a x ih => rw [pathDist, if_pos rfl, ih]

theorem pathDist_le (x y : List P) : pathDist x y ≤ x.length + y.length := by
  induction x generalizing y with
  | nil => rw [pathDist_nil_left, List.length_nil, zero_add]
  | cons a x ih =>
    cases y with
    | nil => rw [pathDist_nil_right, List.length_nil, add_zero]
    | cons b y =>
      have := ih y
      simp only [pathDist, List.length_cons]
      split <;> omega

def commonPrefix : List P → List P → List P
  | a :: x, b :: y => if a = b then a :: commonPrefix x y else []
  | _, _ => []

theorem pathDist_add_commonPrefix (x y : List P) :
    pathDist x y + 2 * (commonPrefix x y).length = x.length + y.length := by
  fun_induction commonPrefix x y with
  | case1 a x y ih =>
    rw [pathDist, if_pos rfl, List.length_cons, List.length_cons, List.length_cons]
    omega
  | case2 a x b y hne =>
    rw [pathDist, if_neg hne, List.length_cons, List.length_cons, List.length_nil]
    omega
  | case3 x y h => cases x with
    | nil => rw [pathDist_nil_left, List.length_nil, mul_zero, add_zero, zero_add]
    | cons a x => cases y with
      | nil => rw [pathDist_nil_right, List.length_nil, mul_zero]
      | cons b y => exact absurd rfl (h a x b y rfl)

theorem pathDist_append_toward {x y : List P} {p : P} (h : x ++ [p] <+: y) :
    pathDist x y = pathDist (x ++ [p]) y + 1 := by
  induction x generalizing y with
  | nil =>
    obtain ⟨y, rfl⟩ := h
    rw [List.nil_append, List.singleton_append, pathDist_nil_left, pathDist, if_pos rfl, pathDist_nil_left,
      List.length_cons]
  | cons a x ih =>
    obtain ⟨z, rfl⟩ := h
    rw [List.cons_append, List.cons_append, pathDist, if_pos rfl, pathDist, if_pos rfl]
    exact ih ⟨z, rfl⟩

theorem pathDist_append_away {x y : List P} {p : P} (h : ¬ x ++ [p] <+: y) :
    pathDist (x ++ [p]) y = pathDist x y + 1 := by
  induction x generalizing y with
  | nil =>
    cases y with
    | nil => rfl
    | cons b y =>
      have hne : p ≠ b := by
        rintro rfl
        exact h ⟨y, rfl⟩
      rw [List.nil_append, pathDist, if_neg hne, pathDist_nil_left, List.length_nil, List.length_cons]
      omega
  | cons a x ih =>
    cases y with
    | nil => rw [pathDist_nil_right, pathDist_nil_right, List.length_append, List.length_singleton]
    | cons b y =>
      rw [List.cons_append, pathDist, pathDist]
      split
      next hab =>
        refine ih fun hpre => h ?_
        rw [hab, List.cons_append]
        exact List.cons_prefix_cons.mpr ⟨rfl, hpre⟩
      rw [List.length_append, List.length_singleton]
      omega

theorem pathDist_append_le (x y : List P) (p : P) :
    pathDist (x ++ [p]) y ≤ pathDist x y + 1 ∧ pathDist x y ≤ pathDist (x ++ [p]) y + 1 := by
  by_cases h : x ++ [p] <+: y
  · have := pathDist_append_toward h
    omega
  have := pathDist_append_away h
  omega

end PathDist

/-- A finite rooted tree, with the port of each node at its parent. -/
structure PortTree (V P : Type*) where
  nodes : Finset V
  root : V
  parent : V → V
  port : V → P
  root_mem : root ∈ nodes
  parent_root : parent root = root
  parent_mem : ∀ v ∈ nodes, parent v ∈ nodes
  reaches : ∀ v ∈ nodes, ∃ n, parent^[n] v = root
  port_inj : ∀ u ∈ nodes, ∀ v ∈ nodes, u ≠ root → v ≠ root → parent u = parent v → port u = port v → u = v

namespace PortTree
open Nat List
variable {V P : Type*} (T : PortTree V P)

noncomputable def depth (v : V) : Nat := sInf {n | T.parent^[n] v = T.root}

def portsUp : Nat → V → List P
  | 0, _ => []
  | n + 1, v => portsUp n (T.parent v) ++ [T.port v]

noncomputable def coords (v : V) : List P := T.portsUp (T.depth v) v

variable {T} {u v d : V}

theorem depth_root : T.depth T.root = 0 := Nat.sInf_eq_zero.mpr (.inl rfl)

theorem depth_of_ne_root (hv : v ∈ T.nodes) (hne : v ≠ T.root) : T.depth v = T.depth (T.parent v) + 1 := by
  have hup : T.parent^[T.depth v] v = T.root := sInf_mem (T.reaches v hv)
  have hparent : T.parent^[T.depth (T.parent v)] (T.parent v) = T.root :=
    sInf_mem (T.reaches _ (T.parent_mem v hv))
  have hle : T.depth v ≤ T.depth (T.parent v) + 1 := Nat.sInf_le hparent
  cases hd : T.depth v with
  | zero =>
    rw [hd] at hup
    exact absurd hup hne
  | succ n =>
    rw [hd] at hup
    have hge : T.depth (T.parent v) ≤ n := Nat.sInf_le hup
    omega

theorem induct {motive : V → Prop} (hroot : motive T.root)
    (hstep : ∀ v ∈ T.nodes, v ≠ T.root → motive (T.parent v) → motive v) : ∀ v ∈ T.nodes, motive v := by
  have h : ∀ n, ∀ v ∈ T.nodes, T.depth v = n → motive v := by
    intro n
    induction n with
    | zero =>
      intro v hv hd
      by_cases hne : v = T.root
      · exact hne ▸ hroot
      rw [depth_of_ne_root hv hne] at hd
      omega
    | succ n ih =>
      intro v hv hd
      by_cases hne : v = T.root
      · exact hne ▸ hroot
      rw [depth_of_ne_root hv hne] at hd
      exact hstep v hv hne (ih _ (T.parent_mem v hv) (by omega))
  exact fun v hv => h _ v hv rfl

theorem coords_root : T.coords T.root = [] := by
  rw [coords, depth_root]
  rfl

theorem coords_of_ne_root (hv : v ∈ T.nodes) (hne : v ≠ T.root) : T.coords v = T.coords (T.parent v) ++ [T.port v] := by
  rw [coords, depth_of_ne_root hv hne]
  rfl

theorem eq_root_of_coords (hv : v ∈ T.nodes) (h : T.coords v = []) : v = T.root := by
  by_contra hne
  rw [coords_of_ne_root hv hne] at h
  exact absurd h (by simp)

theorem coords_injective (hu : u ∈ T.nodes) : ∀ v ∈ T.nodes, T.coords u = T.coords v → u = v := by
  refine T.induct (motive := fun u => ∀ v ∈ T.nodes, T.coords u = T.coords v → u = v) ?_ ?_ u hu
  · intro v hv h
    rw [coords_root] at h
    exact (eq_root_of_coords hv h.symm).symm
  intro u hu hne ih v hv h
  by_cases hroot : v = T.root
  · rw [hroot, coords_root] at h
    exact absurd (eq_root_of_coords hu h) hne
  rw [coords_of_ne_root hu hne, coords_of_ne_root hv hroot] at h
  obtain ⟨hparent, hport⟩ := append_inj' h rfl
  exact T.port_inj u hu v hv hne hroot (ih _ (T.parent_mem v hv) hparent) (singleton_injective hport)

theorem exists_ancestor {x : List P} (hd : d ∈ T.nodes) (h : x <+: T.coords d) : ∃ a ∈ T.nodes, T.coords a = x := by
  refine T.induct (motive := fun d => x <+: T.coords d → ∃ a ∈ T.nodes, T.coords a = x) ?_ ?_ d hd h
  · intro h
    rw [coords_root, prefix_nil] at h
    exact ⟨T.root, T.root_mem, coords_root.trans h.symm⟩
  intro v hv hne ih h
  rw [coords_of_ne_root hv hne, prefix_concat_iff] at h
  rcases h with h | h
  · exact ⟨v, hv, (coords_of_ne_root hv hne).trans h.symm⟩
  · exact ih h

variable (T) in
def graph : SimpleGraph V where
  Adj u v := u ≠ v ∧ u ∈ T.nodes ∧ v ∈ T.nodes ∧ (T.parent u = v ∨ T.parent v = u)
  symm := ⟨fun _ _ h => ⟨h.1.symm, h.2.2.1, h.2.1, h.2.2.2.symm⟩⟩
  loopless := ⟨fun _ h => h.1 rfl⟩

variable (T) in
noncomputable def treedist (u v : V) : Nat := T.graph.dist u v

theorem ne_root_of_parent_eq (hne : u ≠ v) (h : T.parent u = v) : u ≠ T.root := by
  rintro rfl
  exact hne (T.parent_root.symm.trans h)

theorem reachable_root (hv : v ∈ T.nodes) : T.graph.Reachable v T.root := by
  refine T.induct (motive := fun v => T.graph.Reachable v T.root) (SimpleGraph.Reachable.refl _) ?_ v hv
  intro v hv hne ih
  have hself : v ≠ T.parent v := by
    intro hself
    have := depth_of_ne_root hv hne
    rw [← hself] at this
    omega
  have hadj : T.graph.Adj v (T.parent v) := ⟨hself, hv, T.parent_mem v hv, .inl rfl⟩
  exact hadj.reachable.trans ih

section Dist
variable [DecidableEq P]

theorem exists_closer (hv : v ∈ T.nodes) (hd : d ∈ T.nodes) (hne : v ≠ d) :
    ∃ u ∈ T.nodes, (v ≠ T.root ∧ u = T.parent v ∨ u ≠ T.root ∧ T.parent u = v) ∧
      pathDist (T.coords v) (T.coords d) = pathDist (T.coords u) (T.coords d) + 1 := by
  by_cases hpre : T.coords v <+: T.coords d
  · -- `d` lies below `v`: the next port of its coordinates names a child of `v`
    obtain ⟨rest, hrest⟩ := hpre
    cases rest with
    | nil =>
      rw [append_nil] at hrest
      exact absurd (coords_injective hv d hd hrest) hne
    | cons p rest =>
      have hnext : T.coords v ++ [p] <+: T.coords d := ⟨rest, by rw [← hrest, append_assoc, List.singleton_append]⟩
      obtain ⟨u, hu, hcoords⟩ := exists_ancestor hd hnext
      have hroot : u ≠ T.root := by
        rintro rfl
        rw [coords_root] at hcoords
        exact absurd hcoords (by simp)
      rw [coords_of_ne_root hu hroot] at hcoords
      have hparent := coords_injective (T.parent_mem u hu) v hv (append_inj' hcoords rfl).1
      refine ⟨u, hu, .inr ⟨hroot, hparent⟩, ?_⟩
      rw [coords_of_ne_root hu hroot, hcoords]
      exact pathDist_append_toward hnext
  have hroot : v ≠ T.root := by
    rintro rfl
    rw [coords_root] at hpre
    exact hpre nil_prefix
  refine ⟨T.parent v, T.parent_mem v hv, .inl ⟨hroot, rfl⟩, ?_⟩
  rw [coords_of_ne_root hv hroot] at hpre ⊢
  exact pathDist_append_away hpre

theorem pathDist_le_of_adj (h : T.graph.Adj u v) (y : List P) :
    pathDist (T.coords u) y ≤ pathDist (T.coords v) y + 1 := by
  obtain ⟨hne, hu, hv, hparent | hparent⟩ := h
  · rw [coords_of_ne_root hu (ne_root_of_parent_eq hne hparent), hparent]
    exact (pathDist_append_le _ _ _).1
  rw [coords_of_ne_root hv (ne_root_of_parent_eq hne.symm hparent), hparent]
  exact (pathDist_append_le _ _ _).2

theorem pathDist_le_length (w : T.graph.Walk u d) : pathDist (T.coords u) (T.coords d) ≤ w.length := by
  induction w with
  | nil => rw [pathDist_self, SimpleGraph.Walk.length_nil]
  | cons h w ih => exact (pathDist_le_of_adj h _).trans (Nat.add_le_add_right ih 1)

/-- Coordinates do not overestimate the distance. -/
theorem pathDist_le_treedist (hu : u ∈ T.nodes) (hd : d ∈ T.nodes) :
    pathDist (T.coords u) (T.coords d) ≤ T.treedist u d := by
  obtain ⟨w, hw⟩ := ((reachable_root hu).trans (reachable_root hd).symm).exists_walk_length_eq_dist
  rw [treedist, ← hw]
  exact pathDist_le_length w

end Dist

end PortTree
