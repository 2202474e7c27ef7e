import Mathlib.Data.List.Infix
import Mathlib.Data.List.Nodup

/-!
# Parent chains

A map that gives some keys a parent, with loops and dead ends allowed.
-/

/-- `ks` are the keys from `k` up to the root `r`, both included. -/
inductive Ascent {K : Type*} (parent : K → Option K) : K → List K → K → Prop
  | root {k : K} : parent k = some k → Ascent parent k [k] k
  | up {k p r : K} {ks : List K} : parent k = some p → p ≠ k → Ascent parent p ks r → Ascent parent k (k :: ks) r

namespace Ascent
open List
variable {K : Type*} {parent parent' : K → Option K} {k r r' : K} {ks ks' : List K}

section
variable (h : Ascent parent k ks r)
include h

theorem parent_root : parent r = some r := by
  induction h with
  | root h => exact h
  | up _ _ _ ih => exact ih

theorem mem_start : k ∈ ks := by
  cases h with
  | root | up => exact mem_cons_self

theorem mem_root : r ∈ ks := by
  induction h with
  | root => exact mem_cons_self
  | up _ _ _ ih => exact mem_cons_of_mem _ ih

theorem length_pos : 0 < ks.length := List.length_pos_of_mem h.mem_start

theorem isSome_of_mem : ∀ x ∈ ks, (parent x).isSome := by
  induction h with
  | root h =>
    intro x hx
    rw [mem_singleton.mp hx, h]
    rfl
  | up h _ _ ih =>
    intro x hx
    rcases mem_cons.mp hx with rfl | hx
    · rw [h]
      rfl
    · exact ih x hx

theorem unique (h' : Ascent parent k ks' r') : ks = ks' ∧ r = r' := by
  induction h generalizing ks' with
  | root h =>
    cases h' with
    | root => exact ⟨rfl, rfl⟩
    | up hp hne _ => exact absurd (Option.some.inj (hp.symm.trans h)) hne
  | up hp hne _ ih =>
    cases h' with
    | root h => exact absurd (Option.some.inj (hp.symm.trans h)) hne
    | up hp' _ htail =>
      obtain rfl := Option.some.inj (hp.symm.trans hp')
      obtain ⟨rfl, rfl⟩ := ih htail
      exact ⟨rfl, rfl⟩

theorem of_mem {x : K} (hx : x ∈ ks) : ∃ ks', Ascent parent x ks' r ∧ ks' <:+ ks := by
  induction h with
  | root h =>
    obtain rfl := mem_singleton.mp hx
    exact ⟨_, Ascent.root h, suffix_rfl⟩
  | up hp hne htail ih =>
    rcases mem_cons.mp hx with rfl | hx
    · exact ⟨_, Ascent.up hp hne htail, suffix_rfl⟩
    obtain ⟨ks', hks', hsuffix⟩ := ih hx
    exact ⟨ks', hks', hsuffix.trans (suffix_cons _ _)⟩

theorem nodup : ks.Nodup := by
  induction h with
  | root => exact nodup_singleton _
  | up hp hne htail ih =>
    refine nodup_cons.mpr ⟨fun hmem => ?_, ih⟩
    -- a second chain from the same key would be shorter
    obtain ⟨ks', hks', hsuffix⟩ := htail.of_mem hmem
    have heq := (hks'.unique (Ascent.up hp hne htail)).1
    have hle := hsuffix.length_le
    rw [heq, length_cons] at hle
    omega

theorem congr (heq : ∀ x ∈ ks, parent' x = parent x) : Ascent parent' k ks r := by
  induction h with
  | root h =>
    refine Ascent.root ?_
    rw [heq _ mem_cons_self, h]
  | up hp hne _ ih =>
    refine Ascent.up ?_ hne (ih fun x hx => heq x (mem_cons_of_mem _ hx))
    rw [heq _ mem_cons_self, hp]

end

end Ascent
