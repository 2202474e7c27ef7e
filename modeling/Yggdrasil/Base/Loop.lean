import Mathlib.Data.Nat.Notation

/-!
# Loops

A `loop` whose body goes on with a new state or returns.
-/

inductive LoopStep (σ ρ : Type*)
  | again (s : σ)
  | done (r : ρ)

def LoopStep.elim {σ ρ α : Type*} (again : σ → α) (done : ρ → α) : LoopStep σ ρ → α
  | .again s => again s
  | .done r => done r

section Loop
variable {σ ρ : Type*} {body : σ → LoopStep σ ρ}

/-- What the loop returns within so many turns. -/
def runLoop (body : σ → LoopStep σ ρ) : Nat → σ → Option ρ
  | 0, _ => none
  | fuel + 1, s =>
    match body s with
    | .again s => runLoop body fuel s
    | .done r => some r

theorem runLoop_again {s t : σ} (h : body s = .again t) (fuel : Nat) :
    runLoop body (fuel + 1) s = runLoop body fuel t := by
  simp only [runLoop, h]

theorem runLoop_done {s : σ} {r : ρ} (h : body s = .done r) (fuel : Nat) : runLoop body (fuel + 1) s = some r := by
  simp only [runLoop, h]

theorem exists_runLoop {I : σ → Prop} {μ : σ → Nat} (hstep : ∀ s t, I s → body s = .again t → I t ∧ μ t < μ s)
    {fuel : Nat} {s : σ} (hs : I s) (hfuel : μ s < fuel) : ∃ r, runLoop body fuel s = some r := by
  induction fuel generalizing s with
  | zero => omega
  | succ fuel ih =>
    cases hbody : body s with
    | again t =>
      obtain ⟨ht, hlt⟩ := hstep s t hs hbody
      rw [runLoop_again hbody]
      exact ih ht (by omega)
    | done r => exact ⟨r, runLoop_done hbody fuel⟩

theorem eq_of_runLoop (walk : Nat → σ → ρ) (hwalk : ∀ fuel s, walk (fuel + 1) s = (body s).elim (walk fuel) id)
    {fuel : Nat} {s : σ} {r : ρ} (h : runLoop body fuel s = some r) : walk fuel s = r := by
  induction fuel generalizing s with
  | zero => cases h
  | succ fuel ih =>
    rw [hwalk]
    cases hbody : body s with
    | again t =>
      rw [runLoop_again hbody] at h
      exact ih h
    | done r' =>
      rw [runLoop_done hbody] at h
      exact Option.some.inj h

end Loop
