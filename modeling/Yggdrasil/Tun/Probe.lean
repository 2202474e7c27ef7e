import Yggdrasil.Base.Slice

/-!
# Probing for the highest MTU

`probe_highest_mtu` of `tun.rs`, a binary search that sets the MTU of the device; `none` is an overflow of `u16`. With
its result it returns the values it tried, in order.
-/

namespace Yggdrasil.Tun
open List Option

def checkedU16 (n : Nat) : Option Nat := if n < 65536 then some n else none

def probeLoop (accepts : Nat → Bool) : Nat → Nat → Nat → List Nat → Option (Nat × List Nat)
  | 0, _, _, _ => none
  | fuel + 1, lo, hi, tried =>
    if lo < hi then do
      let mid ← checkedU16 (lo + (← checkedU16 ((← hi.checkedSub lo) + 1)) / 2)
      if accepts mid then probeLoop accepts fuel mid hi (tried ++ [mid])
      else do probeLoop accepts fuel lo (← mid.checkedSub 1) (tried ++ [mid])
    else some (lo, tried)

def probeHighestMtu (floor requested : UInt16) (accepts : Nat → Bool) : Option (Nat × List Nat) :=
  if requested ≤ floor then some (floor.toNat, [])
  else if accepts requested.toNat then some (requested.toNat, [requested.toNat])
  else do probeLoop accepts requested.toNat floor.toNat (← requested.toNat.checkedSub 1) [requested.toNat]

variable {floor requested : Nat} {accepts : Nat → Bool}

/-- What the search knows: the highest accepted value is `lo` or in `(lo, hi]`, and the device was set to `lo`. -/
structure Probing (floor requested : Nat) (accepts : Nat → Bool) (lo hi : Nat) (tried : List Nat) : Prop where
  floor_le : floor ≤ lo
  le : lo ≤ hi
  hi_le : hi ≤ requested
  inside : ∀ v ∈ tried, floor < v ∧ v ≤ requested
  above : ∀ v, hi < v → v ≤ requested → accepts v = false
  applied : floor < lo → (tried.filter accepts).getLast? = some lo

section
variable (hdown : ∀ v w, floor < w → w ≤ v → v ≤ requested → accepts v = true → accepts w = true)
include hdown

theorem Probing.step {lo hi mid : Nat} {tried : List Nat} (h : Probing floor requested accepts lo hi tried)
    (hlo : lo < mid) (hhi : mid ≤ hi) :
    if accepts mid then Probing floor requested accepts mid hi (tried ++ [mid])
    else Probing floor requested accepts lo (mid - 1) (tried ++ [mid]) := by
  have hfloor := h.floor_le
  have hrequested := h.hi_le
  have htried : ∀ v ∈ tried ++ [mid], floor < v ∧ v ≤ requested := by
    intro v hv
    rcases mem_append.mp hv with hv | hv
    · exact h.inside v hv
    rw [mem_singleton.mp hv]
    omega
  split
  next haccepted => exact ⟨by omega, hhi, hrequested, htried, h.above, fun _ => by simp [haccepted]⟩
  next hrejected =>
    refine ⟨hfloor, by omega, by omega, htried, fun v hv hle => ?_, fun hlt => by simp [hrejected, h.applied hlt]⟩
    exact Bool.eq_false_iff.mpr fun hv' => hrejected (hdown v mid (by omega) (by omega) hle hv')

theorem Probing.loop (hrequested : requested < 65536) :
    ∀ {fuel lo hi : Nat} {tried : List Nat}, Probing floor requested accepts lo hi tried → hi < requested →
      hi - lo < fuel → ∃ mtu tried', probeLoop accepts fuel lo hi tried = some (mtu, tried') ∧
        Probing floor requested accepts mtu mtu tried' := by
  intro fuel
  induction fuel with
  | zero => exact fun _ _ hfuel => absurd hfuel (Nat.not_lt_zero _)
  | succ fuel ih =>
    intro lo hi tried h hhi hfuel
    have hle := h.le
    unfold probeLoop
    by_cases hlt : lo < hi
    · have hstep := h.step hdown (show lo < lo + (hi - lo + 1) / 2 by omega) (by omega)
      rw [if_pos hlt, Nat.checkedSub_of_le hle]
      simp only [bind_eq_bind, bind_some, checkedU16]
      rw [if_pos (by omega), bind_some, if_pos (by omega), bind_some]
      split
      next haccepted =>
        rw [if_pos haccepted] at hstep
        exact ih hstep hhi (by omega)
      next hrejected =>
        rw [if_neg hrejected] at hstep
        rw [Nat.checkedSub_of_le (by omega), bind_some]
        exact ih hstep (by omega) (by omega)
    rw [if_neg hlt]
    obtain rfl : lo = hi := by omega
    exact ⟨lo, tried, rfl, h⟩

end

/-- The search ends without an overflow, with the highest value that is accepted or the floor. It tries values of its
interval only, and a result above the floor is the last one the device took. -/
theorem probeHighestMtu_highest (floor requested : UInt16) {accepts : Nat → Bool}
    (hdown : ∀ v w, floor.toNat < w → w ≤ v → v ≤ requested.toNat → accepts v = true → accepts w = true) :
    ∃ mtu tried, probeHighestMtu floor requested accepts = some (mtu, tried) ∧
      (mtu = floor.toNat ∨ floor.toNat < mtu ∧ mtu ≤ requested.toNat ∧ accepts mtu = true) ∧
      (∀ v, mtu < v → v ≤ requested.toNat → accepts v = false) ∧
      (∀ v ∈ tried, floor.toNat < v ∧ v ≤ requested.toNat) ∧
      (floor.toNat < mtu → (tried.filter accepts).getLast? = some mtu) := by
  have hbound := requested.toNat_lt
  unfold probeHighestMtu
  by_cases hle : requested ≤ floor
  · rw [if_pos hle]
    rw [UInt16.le_iff_toNat_le] at hle
    exact ⟨_, _, rfl, .inl rfl, fun v hv hv' => by omega, by simp, by simp⟩
  rw [if_neg hle]
  rw [UInt16.le_iff_toNat_le] at hle
  by_cases haccepted : accepts requested.toNat = true
  · rw [if_pos haccepted]
    exact ⟨_, _, rfl, .inr ⟨by omega, Nat.le_refl _, haccepted⟩, fun v hv hv' => by omega, by simpa using hle,
      fun _ => by simp [haccepted]⟩
  rw [if_neg haccepted, Nat.checkedSub_of_le (by omega)]
  have hstart : Probing floor.toNat requested.toNat accepts floor.toNat (requested.toNat - 1) [requested.toNat] := by
    refine ⟨Nat.le_refl _, by omega, by omega, by simpa using hle, fun v hv hv' => ?_, by simp⟩
    obtain rfl : v = requested.toNat := by omega
    exact Bool.eq_false_iff.mpr haccepted
  obtain ⟨mtu, tried, hloop, h⟩ := hstart.loop hdown hbound (by omega)
    (show requested.toNat - 1 - floor.toNat < requested.toNat by omega)
  refine ⟨mtu, tried, hloop, ?_, h.above, h.inside, h.applied⟩
  rcases Nat.eq_or_lt_of_le h.floor_le with hfloor | hlt
  · exact .inl hfloor.symm
  · exact .inr ⟨hlt, h.hi_le, (mem_filter.mp (mem_of_getLast? (h.applied hlt))).2⟩

theorem probeHighestMtu_highest_tun :
    ∃ mtu tried, probeHighestMtu 1500 65535 (fun v => decide (v ≤ 1600)) = some (mtu, tried) ∧
    ∀ v, mtu < v → v ≤ 65535 → decide (v ≤ 1600) = false := by
  obtain ⟨mtu, tried, hprobe, -, habove, -⟩ := @probeHighestMtu_highest 1500 65535 (fun v => decide (v ≤ 1600))
    (fun v w _ hle _ hv => by simp at hv ⊢; omega)
  exact ⟨mtu, tried, hprobe, habove⟩

end Yggdrasil.Tun
