import Mathlib.Data.List.Basic

/-!
# Calls that interleave on a shared state

A call is a program of atomic sections. Any number of calls may be in progress.
-/

universe u

structure Turn (σ ε : Type) (ρ : Type u) where
  value : ρ
  outputs : List ε
  state : σ

/-- A call that has ended with a value, has failed, or runs its next section. -/
inductive Proc (σ ι ε α : Type) : Type 1
  | done (a : α)
  | failed
  | next {ρ : Type} (run : ι → σ → Turn σ ε ρ) (rest : ρ → Proc σ ι ε α)

namespace Proc
variable {σ ι ε α β ρ : Type}

def bind : Proc σ ι ε α → (α → Proc σ ι ε β) → Proc σ ι ε β
  | done a, f => f a
  | failed, _ => failed
  | next run rest, f => next run fun r => (rest r).bind f

instance : Monad (Proc σ ι ε) where
  pure := done
  bind := bind

def read (f : ι → σ → ρ) : Proc σ ι ε ρ := next (fun input s => ⟨f input s, [], s⟩) done

def update (f : ι → σ → ρ × σ) : Proc σ ι ε ρ := next (fun input s => ⟨(f input s).1, [], (f input s).2⟩) done

def attempt (f : ι → σ → Option (ρ × σ)) : Proc σ ι ε ρ :=
  next (fun input s => ⟨(f input s).map Prod.fst, [], ((f input s).map Prod.snd).getD s⟩) fun r => r.elim failed done

def emit (f : ι → List ε) : Proc σ ι ε Unit := next (fun input s => ⟨(), f input, s⟩) done

def ofOption : Option α → Proc σ ι ε α
  | some a => done a
  | none => failed

def result? : Proc σ ι ε α → Option α
  | done a => some a
  | _ => none

def running : Proc σ ι ε α → Bool
  | next _ _ => true
  | _ => false

def alone (input : ι) : Proc σ ι ε α → σ → Option (Turn σ ε α)
  | done a, s => some ⟨a, [], s⟩
  | failed, _ => none
  | next run rest, s =>
    ((rest (run input s).value).alone input (run input s).state).map fun t =>
      { t with outputs := (run input s).outputs ++ t.outputs }

section Alone
variable {input : ι} {s : σ}

theorem alone_ofOption_bind (a : α) (f : α → Proc σ ι ε β) :
    (ofOption (some a) >>= f).alone input s = (f a).alone input s := rfl

theorem alone_read_bind (g : ι → σ → ρ) (f : ρ → Proc σ ι ε β) :
    (read g >>= f).alone input s = (f (g input s)).alone input s := by
  show ((f (g input s)).alone input s).map _ = _
  exact Option.map_id'

theorem alone_update_bind (g : ι → σ → ρ × σ) (f : ρ → Proc σ ι ε β) :
    (update g >>= f).alone input s = (f (g input s).1).alone input (g input s).2 := by
  show ((f (g input s).1).alone input (g input s).2).map _ = _
  exact Option.map_id'

theorem alone_attempt_bind {g : ι → σ → Option (ρ × σ)} {r : ρ × σ} (h : g input s = some r) (f : ρ → Proc σ ι ε β) :
    (attempt g >>= f).alone input s = (f r.1).alone input r.2 := by
  show ((Proc.bind (((g input s).map Prod.fst).elim failed done) f).alone input
    (((g input s).map Prod.snd).getD s)).map _ = _
  rw [h]
  exact Option.map_id'

theorem alone_emit_bind (g : ι → List ε) (f : Unit → Proc σ ι ε β) : (emit g >>= f).alone input s =
      ((f ()).alone input s).map fun t => { t with outputs := g input ++ t.outputs } := rfl

theorem alone_emit (g : ι → List ε) : (emit g : Proc σ ι ε Unit).alone input s = some ⟨(), g input, s⟩ := by
  show some (Turn.mk () (g input ++ []) s) = _
  rw [List.append_nil]

end Alone

/-! ## What a call guarantees -/

section Meets
variable (ok : σ → Prop) (emits : List σ → ε → Prop)

/-- Whatever the others do as long as they keep `ok`, the call keeps it, emits what is allowed and ends in `post`. -/
def Meets (post : List σ → α → Prop) : Proc σ ι ε α → List σ → Prop
  | done a, seen => post seen a
  | failed, _ => False
  | next run rest, seen => ∀ (input : ι) (s : σ) (seen' : List σ), seen ⊆ seen' → s ∈ seen' → ok s →
      ok (run input s).state ∧ (∀ e ∈ (run input s).outputs, emits seen' e) ∧
        (rest (run input s).value).Meets post ((run input s).state :: seen')

variable {ok emits} {post mid : List σ → α → Prop} {goal : List σ → β → Prop} {seen seen' : List σ}
variable {p : Proc σ ι ε α}

theorem Meets.mono (h : p.Meets ok emits post seen) (hrun : p.running) (hsub : seen ⊆ seen') :
    p.Meets ok emits post seen' := by
  cases p with
  | done a | failed => cases hrun
  | next run rest => exact fun input s seen'' hsub' => h input s seen'' (List.Subset.trans hsub hsub')

theorem Meets.bind {f : α → Proc σ ι ε β} (hp : p.Meets ok emits mid seen)
    (hf : ∀ a seen', seen ⊆ seen' → mid seen' a → (f a).Meets ok emits goal seen') :
    (p >>= f).Meets ok emits goal seen := by
  show (p.bind f).Meets ok emits goal seen
  induction p generalizing seen with
  | done a => exact hf a seen (List.Subset.refl seen) hp
  | failed => exact hp
  | next run rest ih =>
    intro input s seen' hsub hs hok
    obtain ⟨hok', hout, hrest⟩ := hp input s seen' hsub hs hok
    have hsub' : seen ⊆ (run input s).state :: seen' := List.Subset.trans hsub (List.subset_cons_self _ _)
    exact ⟨hok', hout, ih _ hrest fun a seen'' hsub'' => hf a seen'' (List.Subset.trans hsub' hsub'')⟩

theorem meets_bind {f : α → Proc σ ι ε β} (h : p.Meets ok emits (fun seen a => (f a).Meets ok emits goal seen) seen) :
    (p >>= f).Meets ok emits goal seen := h.bind fun _ _ _ hrest => hrest

theorem meets_pure {a : α} (h : post seen a) : (pure a : Proc σ ι ε α).Meets ok emits post seen := h

theorem meets_ofOption {o : Option α} {a : α} (ho : o = some a) (h : post seen a) :
    (ofOption o : Proc σ ι ε α).Meets ok emits post seen := by
  rw [ho]
  exact h

theorem meets_read {g : ι → σ → α} (h : ∀ input s seen', seen ⊆ seen' → s ∈ seen' → ok s → post seen' (g input s)) :
    (read g : Proc σ ι ε α).Meets ok emits post seen := by
  intro input s seen' hsub hs hok
  refine ⟨hok, fun e he => absurd he List.not_mem_nil, ?_⟩
  exact h input s (s :: seen') (List.Subset.trans hsub (List.subset_cons_self _ _)) List.mem_cons_self hok

theorem meets_update {g : ι → σ → α × σ}
    (h : ∀ input s seen', seen ⊆ seen' → ok s → ok (g input s).2 ∧ post seen' (g input s).1) :
    (update g : Proc σ ι ε α).Meets ok emits post seen := by
  intro input s seen' hsub hs hok
  obtain ⟨hok', hpost⟩ := h input s ((g input s).2 :: seen') (List.Subset.trans hsub (List.subset_cons_self _ _)) hok
  exact ⟨hok', fun e he => absurd he List.not_mem_nil, hpost⟩

theorem meets_attempt {g : ι → σ → Option (α × σ)}
    (h : ∀ input s, ok s → ∃ r, g input s = some r ∧ ok r.2 ∧ ∀ seen', seen ⊆ seen' → post seen' r.1) :
    (attempt g : Proc σ ι ε α).Meets ok emits post seen := by
  intro input s seen' hsub hs hok
  obtain ⟨r, hr, hok', hpost⟩ := h input s hok
  dsimp only
  rw [hr]
  exact ⟨hok', fun e he => absurd he List.not_mem_nil, hpost _ (List.Subset.trans hsub (List.subset_cons_self _ _))⟩

theorem meets_emit {g : ι → List ε} {post : List σ → Unit → Prop}
    (hg : ∀ input e seen', seen ⊆ seen' → e ∈ g input → emits seen' e)
    (hpost : ∀ seen', seen ⊆ seen' → post seen' ()) : (emit g : Proc σ ι ε Unit).Meets ok emits post seen := by
  intro input s seen' hsub hs hok
  exact ⟨hok, fun e he => hg input e seen' hsub he, hpost _ (List.Subset.trans hsub (List.subset_cons_self _ _))⟩

end Meets

end Proc

/-! ## Pools -/

/-- A call in progress, with the states it has seen. -/
structure Thread (κ σ ι ε α : Type) : Type 1 where
  call : κ
  seen : List σ
  proc : Proc σ ι ε α

structure Emitted (κ σ ε : Type) where
  call : κ
  seen : List σ
  output : ε

structure Pool (κ σ ι ε α : Type) : Type 1 where
  state : σ
  threads : List (Thread κ σ ι ε α)
  outputs : List (Emitted κ σ ε)

inductive Pool.Event (κ ι : Type)
  | start (call : κ)
  | turn (i : Nat) (input : ι)

section Pool
variable {κ σ ι ε α : Type}

def Thread.see (s : σ) (thread : Thread κ σ ι ε α) : Thread κ σ ι ε α :=
  if thread.proc.running then { thread with seen := s :: thread.seen } else thread

namespace Pool

def turn (pool : Pool κ σ ι ε α) (i : Nat) (input : ι) (thread : Thread κ σ ι ε α) : Pool κ σ ι ε α :=
  match thread.proc with
  | .next run rest =>
    let t := run input pool.state
    { state := t.state
      threads := (pool.threads.map (Thread.see t.state)).set i
        { call := thread.call, seen := t.state :: thread.seen, proc := rest t.value }
      outputs := pool.outputs ++ t.outputs.map fun e => { call := thread.call, seen := thread.seen, output := e } }
  | _ => pool

/-- Start a call, or let one of them take its next turn. -/
def exec (proc : κ → Proc σ ι ε α) (pool : Pool κ σ ι ε α) : Event κ ι → Pool κ σ ι ε α
  | .start call => { pool with threads := pool.threads ++ [{ call, seen := [pool.state], proc := proc call }] }
  | .turn i input =>
    match pool.threads[i]? with
    | some thread => pool.turn i input thread
    | none => pool

def run (proc : κ → Proc σ ι ε α) (s : σ) (events : List (Event κ ι)) : Pool κ σ ι ε α :=
  events.foldl (exec proc) { state := s, threads := [], outputs := [] }

end Pool

variable (ok : σ → Prop) (emits : κ → List σ → ε → Prop) (post : κ → List σ → α → Prop)

structure Thread.Sound (s : σ) (thread : Thread κ σ ι ε α) : Prop where
  meets : thread.proc.Meets ok (emits thread.call) (post thread.call) thread.seen
  seen : thread.proc.running → s ∈ thread.seen

structure Pool.Sound (pool : Pool κ σ ι ε α) : Prop where
  state : ok pool.state
  outputs : ∀ o ∈ pool.outputs, emits o.call o.seen o.output
  threads : ∀ thread ∈ pool.threads, thread.Sound ok emits post pool.state

variable {ok emits post} {pool : Pool κ σ ι ε α}
variable {thread : Thread κ σ ι ε α}

theorem Thread.Sound.see {s : σ} (h : thread.Sound ok emits post s) (s' : σ) :
    (thread.see s').Sound ok emits post s' := by
  unfold Thread.see
  split
  next hrun =>
    refine ⟨?_, fun _ => List.mem_cons_self⟩
    exact h.meets.mono hrun (List.subset_cons_self _ _)
  next hrun => exact ⟨h.meets, fun hrun' => absurd hrun' hrun⟩

theorem Pool.Sound.turn (h : pool.Sound ok emits post) (hthread : thread ∈ pool.threads)
    (i : Nat) (input : ι) : (pool.turn i input thread).Sound ok emits post := by
  obtain ⟨hmeets, hseen⟩ := h.threads thread hthread
  obtain ⟨call, seen, p⟩ := thread
  cases p with
  | done a | failed => exact h
  | next run rest =>
    obtain ⟨hok, hout, hrest⟩ := hmeets input pool.state seen (List.Subset.refl _) (hseen rfl) h.state
    refine ⟨hok, ?_, ?_⟩
    · intro o ho
      rcases List.mem_append.mp ho with ho | ho
      · exact h.outputs o ho
      obtain ⟨e, he, rfl⟩ := List.mem_map.mp ho
      exact hout e he
    intro other hother
    rcases List.mem_or_eq_of_mem_set hother with hother | rfl
    · obtain ⟨before, hbefore, rfl⟩ := List.mem_map.mp hother
      exact (h.threads before hbefore).see _
    · exact ⟨hrest, fun _ => List.mem_cons_self⟩

theorem Pool.Sound.exec {proc : κ → Proc σ ι ε α}
    (hproc : ∀ call seen, (proc call).Meets ok (emits call) (post call) seen) (h : pool.Sound ok emits post)
    (event : Event κ ι) : (pool.exec proc event).Sound ok emits post := by
  cases event with
  | start call =>
    refine ⟨h.state, h.outputs, fun thread hthread => ?_⟩
    rcases List.mem_append.mp hthread with hthread | hthread
    · exact h.threads thread hthread
    rw [List.mem_singleton.mp hthread]
    exact ⟨hproc call _, fun _ => List.mem_singleton_self _⟩
  | turn i input =>
    simp only [Pool.exec]
    split
    next thread hthread => exact h.turn (List.mem_of_getElem? hthread) i input
    · exact h

/-- Calls that meet their goals do so in every interleaving. -/
theorem Pool.sound_run {proc : κ → Proc σ ι ε α}
    (hproc : ∀ call seen, (proc call).Meets ok (emits call) (post call) seen) {s : σ} (hs : ok s)
    (events : List (Event κ ι)) : (Pool.run proc s events).Sound ok emits post := by
  have hstart : (⟨s, [], []⟩ : Pool κ σ ι ε α).Sound ok emits post :=
    ⟨hs, fun o ho => absurd ho List.not_mem_nil, fun thread hthread => absurd hthread List.not_mem_nil⟩
  unfold Pool.run
  generalize (⟨s, [], []⟩ : Pool κ σ ι ε α) = pool at hstart
  induction events generalizing pool with
  | nil => exact hstart
  | cons event events ih => exact ih _ (hstart.exec hproc event)

theorem Pool.Sound.ne_failed (h : pool.Sound ok emits post) (hthread : thread ∈ pool.threads) :
    thread.proc ≠ .failed := by
  intro hfailed
  have hmeets := (h.threads thread hthread).meets
  rw [hfailed] at hmeets
  exact hmeets

theorem Pool.Sound.done (h : pool.Sound ok emits post) (hthread : thread ∈ pool.threads)
    {a : α} (ha : thread.proc = .done a) : post thread.call thread.seen a := by
  have hmeets := (h.threads thread hthread).meets
  rw [ha] at hmeets
  exact hmeets

end Pool
