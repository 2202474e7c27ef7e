import Mathlib.Data.List.Basic

/-!
# Loops that keep the best candidate

A loop over candidates that keeps one of them and replaces it by the next one that beats it. Nothing is assumed of
`beats`, which need not be transitive.
-/

def challenge {α : Type*} (beats : α → α → Bool) (best : Option α) (a : α) : Option α :=
  if best.all (beats a) then some a else best

def champion {α : Type*} (beats : α → α → Bool) (best : Option α) (as : List α) : Option α :=
  as.foldl (challenge beats) best

section Champion
variable {α : Type*} {beats : α → α → Bool} {best : Option α} {as bs : List α} {a z : α}

theorem champion_append : champion beats best (as ++ bs) = champion beats (champion beats best as) bs :=
  List.foldl_append

theorem challenge_isSome : (challenge beats best a).isSome := by
  unfold challenge
  cases best with
  | none => rfl
  | some b => split <;> rfl

theorem challenge_mem (h : challenge beats best a = some z) : best = some z ∨ a = z := by
  unfold challenge at h
  split at h
  · exact .inr (Option.some.inj h)
  · exact .inl h

theorem champion_isSome (h : as ≠ [] ∨ best.isSome) : (champion beats best as).isSome := by
  induction as generalizing best with
  | nil => exact h.resolve_left fun hne => hne rfl
  | cons a as ih => exact ih (.inr challenge_isSome)

theorem champion_mem (h : champion beats best as = some z) : best = some z ∨ z ∈ as := by
  induction as generalizing best with
  | nil => exact .inl h
  | cons a as ih =>
    rcases ih h with hfirst | hmem
    · rcases challenge_mem hfirst with hbest | rfl
      · exact .inl hbest
      · exact .inr List.mem_cons_self
    · exact .inr (List.mem_cons_of_mem a hmem)

theorem champion_of_winner (hwinner : ∀ a ∈ as, a ≠ z → beats z a = true ∧ beats a z = false)
    (h : best = some z ∨ z ∈ as ∧ ∀ b, best = some b → beats z b = true) : champion beats best as = some z := by
  induction as generalizing best with
  | nil => exact h.resolve_right fun hmem => List.not_mem_nil hmem.1
  | cons a as ih =>
    refine ih (fun a' ha' => hwinner a' (List.mem_cons_of_mem a ha')) ?_
    by_cases haz : a = z
    · -- the winner itself is met
      subst haz
      refine .inl ?_
      unfold challenge
      rcases h with rfl | ⟨-, hbest⟩
      · split <;> rfl
      rw [if_pos]
      cases best with
      | none => rfl
      | some b => exact hbest b rfl
    obtain ⟨hbeats, hbeaten⟩ := hwinner a List.mem_cons_self haz
    rcases h with rfl | ⟨hmem, hbest⟩
    · refine .inl ?_
      unfold challenge
      rw [if_neg (by simp [hbeaten])]
    refine .inr ⟨(List.mem_cons.mp hmem).resolve_left (Ne.symm haz), fun b hb => ?_⟩
    rcases challenge_mem hb with hb | rfl
    · exact hbest b hb
    · exact hbeats

theorem not_beats_of_champion (h : champion beats best (as ++ a :: bs) = some z) (hlast : z ∉ a :: bs) :
    beats a z = false := by
  rw [champion_append] at h
  have hfirst : champion beats best as = some z := (champion_mem h).resolve_right hlast
  rw [hfirst] at h
  by_contra hbeats
  -- the candidate would replace the result, which does not come again
  have hreplaced : champion beats (some a) bs = some z := by
    unfold champion at h ⊢
    rwa [List.foldl_cons, challenge, if_pos (by simpa using hbeats)] at h
  rcases champion_mem hreplaced with heq | hmem
  · exact hlast (List.mem_cons.mpr (.inl (Option.some.inj heq).symm))
  · exact hlast (List.mem_cons_of_mem a hmem)

end Champion
