import Mathlib.Data.List.Induction
import Mathlib.Algebra.GroupWithZero.Nat
import Mathlib.Order.Basic

/-!
# Runs of a labelled transition system

A step relation is any `σ → ε → σ → Prop`.
-/

namespace Lts
open List
variable {σ ε : Type*}

/-- `s` goes to `t` by the events `es`. -/
inductive Run (step : σ → ε → σ → Prop) : σ → List ε → σ → Prop
  | nil (s : σ) : Run step s [] s
  | snoc {s t u : σ} {es : List ε} {e : ε} : Run step s es t → step t e u → Run step s (es ++ [e]) u

/-- A step at which the condition holds. -/
def Guarded (step : σ → ε → σ → Prop) (cond : σ → ε → Prop) (s : σ) (e : ε) (t : σ) : Prop :=
  step s e t ∧ cond s e

variable {step : σ → ε → σ → Prop} {s t u : σ} {es : List ε} {e : ε}

theorem Run.single (h : step s e t) : Run step s [e] t := Run.snoc (Run.nil s) h

variable {I : σ → Prop}

section
variable (h : Run step s es t)
include h

theorem Run.invariant_mem (h0 : I s) (hstep : ∀ s e t, e ∈ es → I s → step s e t → I t) : I t := by
  induction h with
  | nil => exact h0
  | snoc _ he ih =>
    have hlast := ih fun s e t hmem => hstep s e t (mem_append_left _ hmem)
    exact hstep _ _ _ (mem_append_right _ mem_cons_self) hlast he

/-- What every step preserves holds at the end of a run. -/
theorem Run.invariant (h0 : I s) (hstep : ∀ s e t, I s → step s e t → I t) : I t :=
  h.invariant_mem h0 fun s e t _ => hstep s e t

theorem Run.mono {step' : σ → ε → σ → Prop} (hstep : ∀ s e t, step s e t → step' s e t) : Run step' s es t := by
  induction h with
  | nil => exact Run.nil _
  | snoc _ he ih => exact ih.snoc (hstep _ _ _ he)

theorem Run.guarded {cond : σ → ε → Prop} (hcond : ∀ s, ∀ e ∈ es, cond s e) : Run (Guarded step cond) s es t := by
  induction h with
  | nil => exact Run.nil _
  | @snoc t u es e _ he ih =>
    have hinit := ih fun s e hmem => hcond s e (mem_append_left _ hmem)
    exact hinit.snoc ⟨he, hcond _ e (mem_append_right _ mem_cons_self)⟩

/-- A measure that falls with each step bounds the run. -/
theorem Run.length_le {μ : σ → Nat} (hμ : ∀ s e t, step s e t → μ t < μ s) : es.length + μ t ≤ μ s := by
  induction h with
  | nil => simp
  | snoc _ he ih =>
    have := hμ _ _ _ he
    rw [length_append, length_singleton]
    omega

end

/-- Each step is paid for by the potential. -/
theorem Run.cost_le {Φ : σ → Nat} (cost : ε → Nat) (h : Run step s es t) (h0 : I s)
    (hstep : ∀ s e t, I s → step s e t → I t ∧ cost e + Φ t ≤ Φ s) : (es.map cost).sum + Φ t ≤ Φ s := by
  suffices hall : I t ∧ (es.map cost).sum + Φ t ≤ Φ s from hall.2
  induction h with
  | nil => exact ⟨h0, Nat.le_of_eq (Nat.zero_add _)⟩
  | snoc _ he ih =>
    obtain ⟨hI, hle⟩ := ih
    obtain ⟨hI', hpaid⟩ := hstep _ _ _ hI he
    rw [map_append, sum_append, map_singleton, sum_singleton]
    exact ⟨hI', by omega⟩

theorem no_infinite_run {μ : σ → Nat} (hμ : ∀ s e t, step s e t → μ t < μ s) (run : Nat → σ) :
    ¬ ∀ n, ∃ e, step (run n) e (run (n + 1)) := by
  intro hrun
  have hbound : ∀ n, n + μ (run n) ≤ μ (run 0) := by
    intro n
    induction n with
    | zero => exact Nat.le_of_eq (Nat.zero_add _)
    | succ n ih =>
      obtain ⟨e, he⟩ := hrun n
      have := hμ _ _ _ he
      omega
  have := hbound (μ (run 0) + 1)
  omega

theorem Run.cons (h : step s e t) (hr : Run step t es u) : Run step s (e :: es) u := by
  induction hr with
  | nil => exact Run.single h
  | snoc _ he ih => exact ih.snoc he

theorem Run.eq_of_nil (h : Run step s [] t) : s = t := by
  generalize hes : ([] : List ε) = es at h
  cases h with
  | nil => rfl
  | snoc => simp at hes

theorem Run.append {es' : List ε} (h : Run step s es t) (h' : Run step t es' u) : Run step s (es ++ es') u := by
  induction h' with
  | nil => rwa [append_nil]
  | snoc _ he ih =>
    rw [← append_assoc]
    exact ih.snoc he

theorem Run.of_concat (h : Run step s (es ++ [e]) u) : ∃ t, Run step s es t ∧ step t e u := by
  generalize hes : es ++ [e] = l at h
  cases h with
  | nil => simp at hes
  | snoc hrun he =>
    obtain ⟨rfl, heq⟩ := append_inj' hes rfl
    obtain rfl := singleton_inj.mp heq
    exact ⟨_, hrun, he⟩

theorem Run.of_append {es' : List ε} (h : Run step s (es ++ es') u) : ∃ t, Run step s es t ∧ Run step t es' u := by
  induction es' using reverseRecOn generalizing u with
  | nil =>
    rw [append_nil] at h
    exact ⟨u, h, Run.nil u⟩
  | append_singleton es' e ih =>
    rw [← append_assoc] at h
    obtain ⟨v, hv, he⟩ := h.of_concat
    obtain ⟨t, hes, hes'⟩ := ih hv
    exact ⟨t, hes, hes'.snoc he⟩

theorem Run.exists_step {pre post : List ε} (h : Run step s (pre ++ e :: post) u) :
    ∃ t t', Run step s pre t ∧ step t e t' ∧ Run step t' post u := by
  obtain ⟨t, hpre, hrest⟩ := h.of_append
  obtain ⟨t', he, hpost⟩ := Run.of_append (show Run step t ([e] ++ post) u from hrest)
  obtain ⟨v, hnil, he⟩ := Run.of_concat (show Run step t ([] ++ [e]) t' from he)
  exact ⟨t, t', hpre, by rwa [hnil.eq_of_nil], hpost⟩

theorem Run.since {J : σ → Prop} {brings : ε → Prop} {cond : σ → ε → Prop} (h : Run step s es t) (hs : ¬ J s) (ht : J t)
    (hstep : ∀ s e t, step s e t → J t → brings e ∨ J s ∧ cond s e) :
    ∃ pre e post u, es = pre ++ e :: post ∧ brings e ∧ Run step s (pre ++ [e]) u ∧
      Run (Guarded step cond) u post t := by
  induction h with
  | nil => exact absurd ht hs
  | @snoc v t es e hrun he ih =>
    rcases hstep _ _ _ he ht with hbrings | ⟨hv, hcond⟩
    · exact ⟨es, e, [], t, rfl, hbrings, hrun.snoc he, Run.nil t⟩
    obtain ⟨pre, e', post, u, rfl, hbrings, hpre, hpost⟩ := ih hv
    refine ⟨pre, e', post ++ [e], u, ?_, hbrings, hpre, hpost.snoc ⟨he, hcond⟩⟩
    rw [append_assoc, cons_append]

theorem Run.forall_of_guarded {P : ε → Prop} (h : Run (Guarded step fun _ e => P e) s es t) : ∀ e ∈ es, P e := by
  induction h with
  | nil => simp
  | snoc _ he ih => simpa using fun e => Or.rec (ih e) fun heq => heq ▸ he.2

theorem Run.pairwise {M : ε → σ → Prop} {R : ε → ε → Prop} (h : Run step s es t) (h0 : I s)
    (hstep : ∀ s e t, I s → step s e t → I t ∧ M e t ∧ ∀ d, M d s → M d t ∧ R d e) : es.Pairwise R := by
  suffices hall : I t ∧ (∀ d ∈ es, M d t) ∧ es.Pairwise R from hall.2.2
  induction h with
  | nil => simp [h0]
  | @snoc t u es e _ he ih =>
    obtain ⟨hI, hmarks, hpairs⟩ := ih
    obtain ⟨hI', hmark, hold⟩ := hstep _ _ _ hI he
    refine ⟨hI', fun d hd => ?_, ?_⟩
    · rcases mem_append.mp hd with hd | hd
      · exact (hold d (hmarks d hd)).1
      · rwa [mem_singleton.mp hd]
    rw [pairwise_append]
    refine ⟨hpairs, pairwise_singleton R e, fun d hd e' he' => ?_⟩
    rw [mem_singleton.mp he']
    exact (hold d (hmarks d hd)).2

def Timed {τ : Type*} [LE τ] (time : ε → τ) (step : σ → ε → σ → Prop) (s : σ × τ) (e : ε) (t : σ × τ) : Prop :=
  step s.1 e t.1 ∧ s.2 ≤ time e ∧ t.2 = time e

theorem Run.timed {τ : Type*} [LE τ] {time : ε → τ} {t₀ : τ} (h : Run step s es t) (h0 : ∀ e ∈ es, t₀ ≤ time e)
    (hsorted : es.Pairwise fun d e => time d ≤ time e) :
    ∃ t₁, Run (Timed time step) (s, t₀) es (t, t₁) ∧ ∀ now, t₀ ≤ now → (∀ e ∈ es, time e ≤ now) → t₁ ≤ now := by
  induction h with
  | nil => exact ⟨t₀, Run.nil _, fun now hnow _ => hnow⟩
  | @snoc t u es e _ he ih =>
    rw [pairwise_append] at hsorted
    obtain ⟨t₁, hrun, hlast⟩ := ih (fun d hd => h0 d (mem_append_left _ hd)) hsorted.1
    have he0 := h0 e (mem_append_right _ mem_cons_self)
    have hle := hlast (time e) he0 fun d hd => hsorted.2.2 d hd e mem_cons_self
    refine ⟨time e, hrun.snoc ⟨he, hle, rfl⟩, fun now _ hnow => ?_⟩
    exact hnow e (mem_append_right _ mem_cons_self)

theorem Run.untimed {τ : Type*} [LE τ] {time : ε → τ} {s t : σ × τ} (h : Run (Timed time step) s es t) :
    Run step s.1 es t.1 := by
  induction h with
  | nil => exact Run.nil _
  | snoc _ he ih => exact ih.snoc he.1

theorem Run.exists_first (h : Run step s es t) : es = [] ∧ s = t ∨ ∃ e u, step s e u := by
  induction h with
  | nil => exact Or.inl ⟨rfl, rfl⟩
  | snoc _ he ih =>
    rcases ih with ⟨-, rfl⟩ | hfirst
    · exact Or.inr ⟨_, _, he⟩
    · exact Or.inr hfirst

section Exec
variable {exec : σ → ε → σ} {ok : σ → ε → Prop}

def Admitted (exec : σ → ε → σ) (ok : σ → ε → Prop) : σ → List ε → Prop
  | _, [] => True
  | s, e :: es => ok s e ∧ Admitted exec ok (exec s e) es

instance Admitted.decidable [∀ s e, Decidable (ok s e)] : ∀ s es, Decidable (Admitted exec ok s es)
  | _, [] => inferInstanceAs (Decidable True)
  | s, e :: es =>
    haveI : Decidable (Admitted exec ok (exec s e) es) := Admitted.decidable (exec s e) es
    inferInstanceAs (Decidable (ok s e ∧ Admitted exec ok (exec s e) es))

theorem Admitted.run (hstep : ∀ s e, ok s e → step s e (exec s e)) :
    ∀ {s : σ} {es : List ε}, Admitted exec ok s es → Run step s es (es.foldl exec s)
  | _, [], _ => Run.nil _
  | _, _ :: _, ⟨h, hs⟩ => Run.cons (hstep _ _ h) (Admitted.run hstep hs)

theorem Admitted.guarded (hexec : ∀ s e t, step s e t → t = exec s e) (hok : Admitted exec ok s es)
    (h : Run step s es t) :
    Run (Guarded step ok) s es t := by
  induction es generalizing s with
  | nil => exact h.guarded (by simp)
  | cons e es ih =>
    obtain ⟨s', u, hnil, he, hrest⟩ := Run.exists_step (show Run step s ([] ++ e :: es) t from h)
    obtain rfl : s = s' := hnil.eq_of_nil
    exact Run.cons ⟨he, hok.1⟩ (ih (by rw [hexec _ _ _ he]; exact hok.2) hrest)

end Exec

theorem exists_foldlM {f : σ → ε → Option σ} (hstep : ∀ s e, I s → ∃ t, f s e = some t ∧ I t)
    (es : List ε) : ∀ s, I s → ∃ t, es.foldlM f s = some t ∧ I t := by
  induction es with
  | nil => exact fun s hs => ⟨s, rfl, hs⟩
  | cons e es ih =>
    intro s hs
    obtain ⟨t, ht, hI⟩ := hstep s e hs
    obtain ⟨u, hu, hI'⟩ := ih t hI
    exact ⟨u, by rw [foldlM_cons, ht]; exact hu, hI'⟩

theorem read_eq {α : Type*} {a : α} {o : Option σ} (f : σ → α) (h : o = some s) (hf : o.map f = some a) : f s = a := by
  rw [h] at hf
  exact Option.some.inj hf

theorem run_of_foldlM {f : σ → ε → Option σ} {es : List ε} :
    ∀ {s t : σ}, es.foldlM f s = some t → Run (fun s e t => f s e = some t) s es t := by
  induction es with
  | nil =>
    intro s t h
    cases h
    exact Run.nil s
  | cons e es ih =>
    intro s t h
    obtain ⟨u, hu, ht⟩ := Option.bind_eq_some_iff.mp h
    exact Run.cons hu (ih ht)

end Lts
