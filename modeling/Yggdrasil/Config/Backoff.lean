import Yggdrasil.Config.BinaryName

/-!
# Durations in link options

`parse_duration_string` of `links.rs`, on characters. It returns or throws; `none` is an overflow of `u64`.
-/

namespace Yggdrasil.Backoff
open List BinaryName Option

def U64 : Nat := 0x10000000000000000

/-- `str::parse` for `u64`, which takes a plus sign. -/
def parseU64 (s : List Char) : Option Nat :=
  let digits := if s.head? = some '+' then s.tail else s
  if digits ≠ [] ∧ digits.all Char.isDigit ∧ digitsValue digits < U64 then some (digitsValue digits) else none

def checked (n : Nat) : ExceptT String Option Nat := if n < U64 then pure n else .mk none

def unitSecs : Char → Option Nat
  | 'h' => some 3600
  | 'm' => some 60
  | 's' => some 1
  | _ => none

structure Parsing where
  totalSecs : Nat
  currentNum : List Char
  hasUnit : Bool

def step (s : List Char) (self : Parsing) (ch : Char) : ExceptT String Option Parsing :=
  if ch.isDigit then pure { self with currentNum := self.currentNum ++ [ch] }
  else
    match parseU64 self.currentNum with
    | none => throw ("invalid duration: " ++ String.ofList s)
    | some n =>
      match unitSecs ch with
      | none => throw ("invalid duration unit '" ++ String.ofList [ch] ++ "' in: " ++ String.ofList s)
      | some unit => do return ⟨← checked (self.totalSecs + (← checked (n * unit))), [], true⟩

def finish (s : List Char) (self : Parsing) : ExceptT String Option Nat :=
  if self.currentNum ≠ [] ∧ self.hasUnit = false then throw ("invalid duration: " ++ String.ofList s)
  else if self.currentNum ≠ [] then throw ("trailing number without unit in duration: " ++ String.ofList s)
  else pure self.totalSecs

def parseDurationString (s : List Char) : ExceptT String Option Nat :=
  match parseU64 s with
  | some secs => pure secs
  | none => do finish s (← s.foldlM (step s) ⟨0, [], false⟩)

/-- Numbers of a `u64`, each with its unit, and the seconds they add up to. -/
inductive Components : List Char → Nat → Prop
  | nil : Components [] 0
  | snoc {xs digits : List Char} {ch : Char} {unit secs : Nat} : Components xs secs → digits ≠ [] → Digits digits →
      digitsValue digits < U64 → unitSecs ch = some unit → Components (xs ++ digits ++ [ch])
        (secs + digitsValue digits * unit)

def Overflows (s : List Char) : Prop := ∃ pre n, pre <+: s ∧ Components pre n ∧ U64 ≤ n

/-- Only components at the start of `s` overflow; a value that is returned has `post`. -/
def Exact {α : Type} (s : List Char) (post : α → Prop) (x : ExceptT String Option α) : Prop :=
  (x.run = none → Overflows s) ∧ ∀ a, x.run = some (.ok a) → post a

variable {s xs digits : List Char} {ch : Char} {n unit : Nat} {self : Parsing} {α β : Type}

theorem Exact.bind {x : ExceptT String Option α} {f : α → ExceptT String Option β} {p : α → Prop} {q : β → Prop}
    (hx : Exact s p x) (hf : ∀ a, p a → Exact s q (f a)) : Exact s q (x >>= f) := by
  match x with
  | none => exact ⟨fun _ => hx.1 rfl, nofun⟩
  | some (.error _) => exact ⟨nofun, nofun⟩
  | some (.ok a) => exact hf a (hx.2 a rfl)

theorem Exact.pure {p : α → Prop} {a : α} (h : p a) : Exact s p (pure a) := ⟨nofun, by rintro _ ⟨⟩; exact h⟩

theorem Exact.throw {p : α → Prop} (e : String) : Exact s p (throw e) := ⟨nofun, nofun⟩

theorem Exact.checked {p : Nat → Prop} (hp : n < U64 → p n) (ho : U64 ≤ n → Overflows s) : Exact s p (checked n) := by
  unfold Backoff.checked
  split
  next h => exact .pure (hp h)
  next h => exact ⟨fun _ => ho (Nat.le_of_not_lt h), nofun⟩

theorem parseU64_digits (h : Digits digits) :
    parseU64 digits = some n ↔ digits ≠ [] ∧ digitsValue digits < U64 ∧ digitsValue digits = n := by
  have hplus : digits.head? ≠ some '+' := fun hhead => absurd (h '+' (mem_of_head? hhead)) (by decide)
  have hall : digits.all Char.isDigit = true := all_eq_true.mpr h
  simp only [parseU64, hplus, if_false, hall, true_and, ite_none_right_eq_some, some.injEq, and_assoc]

/-- After the characters `done`: components with the total, then the digits of a number. -/
def Read (done : List Char) (self : Parsing) : Prop :=
  ∃ xs, done = xs ++ self.currentNum ∧ Components xs self.totalSecs ∧ self.totalSecs < U64 ∧ Digits self.currentNum

theorem Read.step {done : List Char} (h : Read done self) (hpre : done ++ [ch] <+: s) :
    Exact s (Read (done ++ [ch])) (step s self ch) := by
  obtain ⟨xs, rfl, hcomp, hlt, hdigits⟩ := h
  unfold Backoff.step
  split
  next hch => exact .pure ⟨xs, append_assoc .., hcomp, hlt, by simpa [Digits, or_imp, forall_and, hch] using hdigits⟩
  split
  · exact .throw _
  next n hn =>
  obtain ⟨hne, hfits, rfl⟩ := (parseU64_digits hdigits).mp hn
  split
  · exact .throw _
  next unit hunit =>
  have hnext := hcomp.snoc hne hdigits hfits hunit
  refine .bind (p := (· = digitsValue self.currentNum * unit)) (.checked (fun _ => rfl) fun hle => ?_) ?_
  · exact ⟨_, _, hpre, hnext, by omega⟩
  · rintro _ rfl
    refine .bind (.checked (p := fun t => t = _ ∧ t < U64) (⟨rfl, ·⟩) fun hle => ⟨_, _, hpre, hnext, hle⟩) ?_
    rintro _ ⟨rfl, hlt⟩
    exact .pure ⟨_, (append_nil _).symm, hnext, hlt, nofun⟩

theorem Read.foldlM {rest done : List Char} (h : Read done self) (hpre : done ++ rest <+: s) :
    Exact s (Read (done ++ rest)) (rest.foldlM (Backoff.step s) self) := by
  induction rest generalizing done self with
  | nil => exact .pure (by rwa [append_nil])
  | cons ch rest ih =>
    rw [append_cons] at hpre ⊢
    exact .bind (h.step ((prefix_append ..).trans hpre)) fun _ h => ih h hpre

theorem foldlM_digits (h : Digits digits) (self : Parsing) :
    digits.foldlM (step s) self = pure { self with currentNum := self.currentNum ++ digits } := by
  induction digits generalizing self with
  | nil => simp
  | cons c digits ih =>
    rw [foldlM_cons, step, if_pos (h c mem_cons_self), pure_bind, ih fun c hc => h c (mem_cons_of_mem _ hc)]
    simp

theorem Components.foldlM (h : Components xs n) : xs.foldlM (step s) ⟨0, [], false⟩ = ExceptT.mk none ∨
    n < U64 ∧ ∃ hasUnit, xs.foldlM (step s) ⟨0, [], false⟩ = pure ⟨n, [], hasUnit⟩ := by
  induction h with
  | nil => exact .inr ⟨by decide, false, rfl⟩
  | @snoc xs digits ch unit secs _ hne hdigits hlt hunit ih =>
    have hch : ch.isDigit = false := by
      unfold unitSecs at hunit
      split at hunit <;> first | decide | cases hunit
    rw [append_assoc, foldlM_append]
    obtain hnone | ⟨-, b, hsome⟩ := ih
    · exact .inl (by rw [hnone]; rfl)
    rw [hsome, pure_bind, foldlM_append, foldlM_digits hdigits, pure_bind, foldlM_cons, step, hch]
    simp only [nil_append, (parseU64_digits hdigits).mpr ⟨hne, hlt, rfl⟩, hunit, checked, Bool.false_eq_true, if_false]
    by_cases hsum : secs + digitsValue digits * unit < U64
    · exact .inr ⟨hsum, true, by simp [hsum, show digitsValue digits * unit < U64 by omega]⟩
    left
    by_cases hproduct : digitsValue digits * unit < U64
    · rw [if_pos hproduct, pure_bind, if_neg hsum]
      rfl
    · rw [if_neg hproduct]
      rfl

/-- The seconds a string stands for: a number, or numbers with units. -/
def Denotes (s : List Char) (secs : Nat) : Prop :=
  secs < U64 ∧ (parseU64 s = some secs ∨ s ≠ [] ∧ Components s secs)

/-- An error or the exact result, unless the string is empty or the components it begins with overflow. -/
theorem parseDurationString_exact_iff (s : List Char) :
    (∃ r, (parseDurationString s).run = some r ∧ ∀ secs, r = .ok secs → Denotes s secs) ↔
      (parseU64 s).isSome ∨ s ≠ [] ∧ ¬ Overflows s := by
  unfold parseDurationString
  cases hparse : parseU64 s with
  | some secs =>
    have hlt : secs < U64 := by
      unfold parseU64 at hparse
      rw [ite_none_right_eq_some] at hparse
      exact some.inj hparse.2 ▸ hparse.1.2.2
    exact iff_of_true ⟨_, rfl, by rintro _ ⟨⟩; exact ⟨hlt, .inl hparse⟩⟩ (.inl rfl)
  | none =>
    have hexact : Exact s (fun secs => secs < U64 ∧ Components s secs)
        (do finish s (← s.foldlM (step s) ⟨0, [], false⟩)) := by
      have hstart : Read [] ⟨0, [], false⟩ := ⟨[], rfl, .nil, by decide, nofun⟩
      refine .bind (hstart.foldlM (prefix_refl s)) ?_
      rintro self ⟨xs, hs, hcomp, hlt, -⟩
      unfold finish
      split
      · exact .throw _
      split
      · exact .throw _
      next hnil =>
      rw [nil_append, not_not.mp hnil, append_nil] at hs
      exact .pure ⟨hlt, hs ▸ hcomp⟩
    constructor
    · rintro ⟨r, hr, hdenotes⟩
      refine .inr ⟨?_, ?_⟩
      · rintro rfl
        cases hr
        obtain ⟨-, h | h⟩ := hdenotes 0 rfl
        · cases hparse.symm.trans h
        · exact h.1 rfl
      · rintro ⟨pre, n, ⟨rest, rfl⟩, hcomp, hle⟩
        rw [foldlM_append] at hr
        obtain hnone | ⟨hlt, -⟩ := hcomp.foldlM (s := pre ++ rest)
        · rw [hnone] at hr
          cases hr
        · omega
    · rintro (h | ⟨hne, h⟩)
      · cases h
      obtain ⟨r, hr⟩ := ne_none_iff_exists'.mp (mt hexact.1 h)
      refine ⟨r, hr, ?_⟩
      rintro secs rfl
      exact ⟨(hexact.2 secs hr).1, .inr ⟨hne, (hexact.2 secs hr).2⟩⟩

theorem parseDurationString_overflows : (parseDurationString []).run = some (.ok 0) ∧
    (parseDurationString "5124095576030432h".toList).run = none := by
  decide +kernel

end Yggdrasil.Backoff
