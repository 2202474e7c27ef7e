import Yggdrasil.Base.Slice
import Yggdrasil.KeyStore.CidrExact

/-!
# The arithmetic of CIDR expansion

`subtract_many` and `emit_range` with every addition, subtraction and shift checked: `none` where the program overflows.
The end of a block is computed as `cur + (1 << size) - 1`, from the left: the sum is two to 128 for a block that ends at
the last IPv6 address, unless it is the whole address space.
-/

namespace Yggdrasil
open Nat Option Ranges List

def u128Add? (a b : Nat) : Option Nat := if a + b < 2 ^ 128 then some (a + b) else none

def u128Shl? (n : Nat) : Option Nat := if n < 128 then some (2 ^ n) else none

def blockSize? (cur hi bits : Nat) : Option Nat := do
  let align := if cur = 0 then bits else min (trailingZeros cur) bits
  let remaining ← checkedSub hi cur
  let span ←
    if remaining = u128Max then some 128 else (u128Add? remaining 1).bind fun n => checkedSub 127 (leadingZeros n)
  return min (min align span) bits

def emitLoop? (hi bits : Nat) : Nat → Nat → List IpNet → Option (List IpNet)
  | 0, _, _ => none
  | fuel + 1, cur, out => do
    let size ← blockSize? cur hi bits
    let prefixLen ← checkedSub bits size
    let net ← makeNet cur (UInt8.ofNat prefixLen) bits
    if size = 128 then return out ++ [net]
    else
      let block ← u128Shl? size
      let sum ← u128Add? cur block
      let stop ← checkedSub sum 1
      if stop ≥ hi then return out ++ [net]
      else
        let next ← u128Add? stop 1
        emitLoop? hi bits fuel next (out ++ [net])

def emitRange? (lo hi bits : Nat) (out : List IpNet) : Option (List IpNet) := emitLoop? hi bits (hi - lo + 1) lo out

def subtractLoop? (incHi bits : Nat) : List (Nat × Nat) → Nat → List IpNet → Option (List IpNet)
  | [], cur, out => emitRange? cur incHi bits out
  | (lo, hi) :: excludes, cur, out =>
    if lo > incHi then emitRange? cur incHi bits out
    else (if lo > cur then (checkedSub lo 1).bind fun stop => emitRange? cur stop bits out
        else some out).bind fun out =>
      if hi ≥ incHi then some out
      else (u128Add? hi 1).bind fun next => subtractLoop? incHi bits excludes next out

def subtractMany? (includeNet : IpNet) (excludes : List (Nat × Nat)) : Option (List IpNet) :=
  let bounds := netBounds includeNet
  subtractLoop? bounds.2 includeNet.bits (excludes.dropWhile fun range => range.2 < bounds.1) bounds.1 []

section
variable {bits hi : Nat} (hbits : bits = 32 ∨ bits = 128)
include hbits

theorem blockSize?_eq {cur : Nat} (hle : cur ≤ hi) (hhi : hi < 2 ^ bits) :
    blockSize? cur hi bits = some (blockSize cur hi bits) := by
  have hwidth := pow_bits_le hbits
  have hlz : ∀ n, leadingZeros (n + 1) ≤ 127 := by
    intro n
    unfold leadingZeros
    rw [if_neg (succ_ne_zero n)]
    exact sub_le _ _
  unfold blockSize? blockSize
  rw [u128Sub_of_le hle (by omega), checkedSub_of_le hle]
  dsimp only [bind_eq_bind, bind_some]
  by_cases hall : hi - cur = u128Max
  · simp [hall]
  have hsum : hi - cur + 1 < 2 ^ 128 := by
    unfold u128Max at hall
    omega
  rw [if_neg hall, if_neg hall, u128Add?, if_pos hsum, bind_some, checkedSub_of_le (hlz _)]
  rfl

theorem emitLoop?_eq (hhi : hi < 2 ^ bits) : ∀ {fuel cur : Nat} (out : List IpNet), cur ≤ hi → hi - cur < fuel →
    emitLoop? hi bits fuel cur out = if hi = u128Max ∧ cur ≠ 0 then none else emitLoop hi bits fuel cur out
  | 0, _, _, _, hfuel => absurd hfuel (Nat.not_lt_zero _)
  | fuel + 1, cur, out, hle, hfuel => by
    obtain ⟨hsize, hdvd, hfits⟩ := (le_blockSize_iff hbits hle hhi).mp le_rfl
    obtain ⟨net, hnet, -⟩ := makeNet_block hbits hsize hdvd (hle.trans_lt hhi)
    have hwidth := pow_bits_le hbits
    have hwhole : hi = u128Max → cur = 0 → blockSize cur hi bits = 128 := by
      rintro rfl rfl
      obtain rfl : bits = 128 := hbits.resolve_left fun h32 => by
        rw [h32] at hhi
        exact absurd hhi (by decide)
      decide
    unfold emitLoop? emitLoop
    dsimp only
    rw [blockSize?_eq hbits hle hhi, hnet]
    generalize blockSize cur hi bits = size at *
    have hpos := Nat.two_pow_pos size
    rw [bind_eq_bind, bind_some, checkedSub_of_le hsize]
    dsimp only [bind_eq_bind, bind_some]
    rw [hnet, bind_some]
    by_cases hall : size = 128
    · have hzero : cur = 0 := by
        subst hall
        exact eq_zero_of_dvd_of_lt hdvd (by omega)
      simp [hall, hzero]
    have hlt : size < 128 := by omega
    rw [if_neg hall, if_neg hall, u128Sub_u128Add_one hpos (by omega), u128Shl?, if_pos hlt, bind_some]
    rcases lt_or_ge (cur + 2 ^ size) (2 ^ 128) with hsum | hsum
    · rw [u128Add?, if_pos hsum, bind_some, checkedSub_of_le (by omega), bind_some,
        show cur + 2 ^ size - 1 = cur + (2 ^ size - 1) by omega]
      by_cases hend : cur + (2 ^ size - 1) ≥ hi
      · have hmax : hi ≠ u128Max := by
          unfold u128Max
          omega
        simp [hend, hmax]
      rw [if_neg hend, if_neg hend, u128Add?, if_pos (by omega), bind_some,
        emitLoop?_eq hhi _ (by omega) (by omega)]
      have hcur : hi = u128Max → cur ≠ 0 := fun hmax hzero => hall (hwhole hmax hzero)
      by_cases hmax : hi = u128Max
      · simp [hmax, hcur hmax]
      · simp [hmax]
    -- the block ends at the last address
    have hmax : hi = u128Max := by
      unfold u128Max
      omega
    have hcur : cur ≠ 0 := fun hzero => hall (hwhole hmax hzero)
    rw [u128Add?, if_neg (not_lt.mpr hsum), if_pos ⟨hmax, hcur⟩]
    rfl

theorem emitRange?_eq {lo : Nat} (out : List IpNet) (hle : lo ≤ hi) (hhi : hi < 2 ^ bits) :
    emitRange? lo hi bits out = if hi = u128Max ∧ lo ≠ 0 then none else emitRange lo hi bits out :=
  emitLoop?_eq hbits hhi out hle (lt_succ_self _)

theorem subtractLoop?_eq (hhi : hi < 2 ^ bits) : ∀ {excludes : List (Nat × Nat)} {cur : Nat} (out : List IpNet),
    Separated excludes → (∀ r ∈ excludes, cur ≤ r.2 ∧ r.2 ≤ u128Max) → cur ≤ hi →
    subtractLoop? hi bits excludes cur out =
      if hi = u128Max ∧ ¬ Covers excludes u128Max ∧ (cur ≠ 0 ∨ excludes ≠ []) then none
      else subtractLoop hi bits excludes cur out
  | [], cur, out, _, _, hle => by
    unfold subtractLoop? subtractLoop
    rw [emitRange?_eq hbits out hle hhi]
    simp
  | (lo, stop) :: excludes, cur, out, hsep, hcur, hle => by
    have hrange : lo ≤ stop := hsep.nonempty _ mem_cons_self
    obtain ⟨hfirst, hlast⟩ := hcur _ mem_cons_self
    have hwidth := pow_bits_le hbits
    unfold subtractLoop? subtractLoop
    by_cases hbeyond : lo > hi
    · have hmax : hi ≠ u128Max := by
        dsimp only at hlast
        omega
      rw [if_pos hbeyond, if_pos hbeyond, emitRange?_eq hbits out hle hhi]
      simp [hmax]
    rw [if_neg hbeyond, if_neg hbeyond]
    -- the gap ends before the exclude
    have hgap : (if lo > cur then (checkedSub lo 1).bind fun stop => emitRange? cur stop bits out else some out) =
        if lo > cur then emitRange cur (u128Sub lo 1) bits out else some out := by
      split
      next hlt =>
        have hmax : lo - 1 ≠ u128Max := by
          dsimp only at hlast
          omega
        rw [checkedSub_of_le (by omega), bind_some, u128Sub_of_le (by omega) (by omega),
          emitRange?_eq hbits out (by omega) (by omega)]
        simp [hmax]
      · rfl
    obtain ⟨gap, hemit, -⟩ := @emitGap_tiled bits hi hbits hhi (fun x => cur ≤ x ∧ x < lo) lo stop cur out
      (not_lt.mp hbeyond) hrange (by omega) (fun _ => And.intro) (by omega)
    rw [hgap, hemit]
    dsimp only [bind_eq_bind, bind_some] at hlast ⊢
    by_cases hend : stop ≥ hi
    · have hcovers : hi = u128Max → Covers ((lo, stop) :: excludes) u128Max := by
        rintro rfl
        rw [covers_cons]
        exact Or.inl ⟨by omega, hend⟩
      rw [if_pos hend, if_pos hend, if_neg fun h => h.2.1 (hcovers h.1)]
    have hadd : stop + 1 < 2 ^ 128 := by omega
    rw [if_neg hend, if_neg hend, u128Add?, if_pos hadd, bind_some, u128Add, mod_eq_of_lt hadd,
      subtractLoop?_eq hhi (out ++ gap) hsep.tail (fun r hr => ?_) (by omega)]
    · by_cases hmax : hi = u128Max
      · have hnot : ¬ (lo ≤ u128Max ∧ u128Max ≤ stop) := by omega
        simp [hmax, covers_cons, hnot]
      · simp [hmax]
    have := hsep.lt_of_mem hr
    have := hsep.nonempty r (mem_cons_of_mem _ hr)
    have := (hcur r (mem_cons_of_mem _ hr)).2
    dsimp only at *
    omega

end

/-- The last IPv6 address remains, but not the whole address space. -/
def Overflows (inc : IpNet) (excludes : List (Nat × Nat)) : Prop :=
  (netBounds inc).2 = u128Max ∧ ¬ Covers excludes u128Max ∧ ((netBounds inc).1 ≠ 0 ∨ excludes ≠ [])

instance (inc : IpNet) (excludes : List (Nat × Nat)) : Decidable (Overflows inc excludes) :=
  inferInstanceAs (Decidable (_ ∧ _))

/-- Nothing overflows exactly if the last IPv6 address does not remain, or the whole address space does. The networks
are then those of the program without checks. -/
theorem subtractMany_checked_iff (inc : IpNet) {excludes : List (Nat × Nat)} (hsep : Separated excludes)
    (hmax : ∀ r ∈ excludes, r.2 ≤ u128Max) :
    ((∃ nets, subtractMany? inc excludes = some nets) ↔ ¬ Overflows inc excludes) ∧
      ∀ nets, subtractMany? inc excludes = some nets → subtractMany inc excludes = some nets := by
  have hloop := subtractLoop?_eq inc.bits_cases (netBounds_lt inc) [] (hsep.sublist (dropWhile_sublist _))
    (fun r hr => ⟨hsep.le_of_mem_dropWhile (netBounds inc).1 r hr, hmax r ((dropWhile_sublist _).subset hr)⟩)
    (netBounds_le inc)
  have heq : subtractMany? inc excludes = if Overflows inc excludes then none else subtractMany inc excludes := by
    refine hloop.trans (if_congr ?_ rfl rfl)
    unfold Overflows
    refine and_congr_right fun hlast => ?_
    rw [covers_dropWhile (hlast ▸ netBounds_le inc)]
    refine and_congr_right fun _ => ?_
    by_cases hzero : (netBounds inc).1 = 0
    · have hall : excludes.dropWhile (fun range => decide (range.2 < (netBounds inc).1)) = excludes := by
        simp [hzero, dropWhile_eq_self_iff]
      rw [hall]
    · simp [hzero]
  obtain ⟨nets, hnets, -⟩ := subtractMany_covers inc hsep
  rw [heq]
  split
  next h => simp [h]
  next h => simp [h, hnets]

def halfNet : IpNet :=
  .v6 { addr := .ofFn fun i => if i.val = 0 then 0x80 else 0, prefixLen := 1, prefixLen_le := by decide }

/-- The upper half of the addresses, with its last address excluded. -/
theorem subtractMany_checked_half : ∃ nets, subtractMany? halfNet [(u128Max, u128Max)] = some nets := by
  refine ((subtractMany_checked_iff halfNet ⟨by simp, by simp⟩ (by simp)).1).mpr fun h => h.2.1 ?_
  simp [covers_cons]

/-- The network `8000::/1` without excludes. -/
theorem subtractMany_overflows : subtractMany? halfNet [] = none := by decide +kernel

end Yggdrasil
