import Yggdrasil.Router.Types

/-!
# Variable-length integers

`encode_uvarint`, `decode_uvarint` and `uvarint_size` of `wire.rs`: unsigned LEB128, seven bits a byte, lowest first.
-/

namespace Yggdrasil
open UInt64 List

def decodeUvarintLoop : Bytes → UInt64 → Nat → Nat → Option (UInt64 × Nat)
  | [], _, _, _ => none -- incomplete
  | byte :: data, value, shift, i =>
    if shift ≥ 63 ∧ byte > 1 then none -- overflow
    else
      let value := value ||| ((byte &&& 0x7f).toUInt64 <<< UInt64.ofNat shift)
      if byte &&& 0x80 = 0 then some (value, i + 1)
      else if i ≥ 9 then none -- too many bytes
      else decodeUvarintLoop data value (shift + 7) (i + 1)

def decodeUvarint (data : Bytes) : Option (UInt64 × Nat) := decodeUvarintLoop data 0 0 0

def uvarintSize (value : UInt64) : Nat := if value ≥ 0x80 then uvarintSize (value >>> 7) + 1 else 1
termination_by value.toNat
decreasing_by
  rename_i h
  have hle : (0x80 : UInt64).toNat ≤ value.toNat := UInt64.le_iff_toNat_le.mp h
  rw [UInt64.toNat_shiftRight, Nat.shiftRight_eq_div_pow]
  have h80 : (0x80 : UInt64).toNat = 128 := rfl
  have h7 : (7 : UInt64).toNat % 64 = 7 := rfl
  rw [h7]
  omega

/-! ## The bytes of an encoding -/

variable (v : UInt64)

theorem toNat_shiftRight_seven : (v >>> 7).toNat = v.toNat / 128 := by
  rw [UInt64.toNat_shiftRight, Nat.shiftRight_eq_div_pow]
  rfl

theorem shiftRight_seven_eq_zero {v : UInt64} : v >>> 7 = 0 ↔ v.toNat < 128 := by
  rw [← UInt64.toNat_inj, toNat_shiftRight_seven]
  show v.toNat / 128 = 0 ↔ _
  omega

theorem toNat_low_seven : (v &&& 0x7f).toUInt8.toNat = v.toNat % 128 := by
  rw [UInt64.toNat_toUInt8, UInt64.toNat_and]
  have h7f : (0x7f : UInt64).toNat = 2 ^ 7 - 1 := rfl
  rw [h7f, Nat.and_two_pow_sub_one_eq_mod]
  omega

theorem toNat_or_continuation {b : UInt8} (h : b.toNat < 128) : (b ||| 0x80).toNat = b.toNat + 128 := by
  rw [UInt8.toNat_or]
  have h80 : (0x80 : UInt8).toNat = 2 ^ 7 * 1 := rfl
  rw [h80, Nat.or_comm, ← Nat.two_pow_add_eq_or_of_lt h]
  omega

theorem toNat_and_seven (b : UInt8) : (b &&& 0x7f).toNat = b.toNat % 128 := by
  rw [UInt8.toNat_and]
  have h7f : (0x7f : UInt8).toNat = 2 ^ 7 - 1 := rfl
  rw [h7f, Nat.and_two_pow_sub_one_eq_mod]

theorem and_continuation_eq_zero {b : UInt8} : b &&& 0x80 = 0 ↔ b.toNat < 128 := by
  have h : ∀ n : Fin 256, n.val &&& 128 = 0 ↔ n.val < 128 := by decide +kernel
  rw [← UInt8.toNat_inj, UInt8.toNat_and]
  exact h ⟨b.toNat, b.toNat_lt⟩

theorem encodeUvarint_eq : encodeUvarint v = if v.toNat < 128 then [UInt8.ofNat v.toNat]
      else UInt8.ofNat (v.toNat % 128 + 128) :: encodeUvarint (v >>> 7) := by
  rw [encodeUvarint]
  simp only [shiftRight_seven_eq_zero]
  by_cases h : v.toNat < 128
  · rw [if_pos h, if_pos h]
    congr 1
    apply UInt8.toNat_inj.mp
    rw [toNat_low_seven, UInt8.toNat_ofNat']
    omega
  rw [if_neg h, if_neg h]
  congr 1
  apply UInt8.toNat_inj.mp
  rw [toNat_or_continuation (by rw [toNat_low_seven]; omega), toNat_low_seven, UInt8.toNat_ofNat']
  omega

theorem encodeUvarint_zero : encodeUvarint 0 = [0] := by
  rw [encodeUvarint_eq]
  rfl

theorem uvarint_induct {P : UInt64 → Prop} (last : ∀ v : UInt64, v.toNat < 128 → P v)
    (more : ∀ v : UInt64, ¬ v.toNat < 128 → P (v >>> 7) → P v) (v : UInt64) : P v := by
  induction h : v.toNat using Nat.strongRecOn generalizing v with
  | ind n ih =>
    by_cases hlast : v.toNat < 128
    · exact last v hlast
    refine more v hlast (ih (v >>> 7).toNat ?_ _ rfl)
    rw [toNat_shiftRight_seven]
    omega

theorem encodeUvarint_ne_nil : encodeUvarint v ≠ [] := by
  rw [encodeUvarint_eq]
  split <;> simp

theorem encodeUvarint_getLast :
    ∃ init last, encodeUvarint v = init ++ [last] ∧ last.toNat < 128 ∧ (last = 0 → v = 0) := by
  refine uvarint_induct (P := fun v => ∃ init last, encodeUvarint v = init ++ [last] ∧ last.toNat < 128 ∧
    (last = 0 → v = 0)) (fun v h => ?_) (fun v h ih => ?_) v
  · refine ⟨[], UInt8.ofNat v.toNat, ?_, ?_, fun h0 => ?_⟩
    · rw [encodeUvarint_eq, if_pos h, nil_append]
    · rw [UInt8.toNat_ofNat']
      omega
    have hzero := congrArg UInt8.toNat h0
    rw [UInt8.toNat_ofNat', Nat.mod_eq_of_lt (by omega)] at hzero
    exact UInt64.toNat_inj.mp hzero
  obtain ⟨init, last, heq, hlt, hzero⟩ := ih
  refine ⟨UInt8.ofNat (v.toNat % 128 + 128) :: init, last, ?_, hlt, fun h0 => ?_⟩
  · rw [encodeUvarint_eq, if_neg h, heq, cons_append]
  · exact absurd (shiftRight_seven_eq_zero.mp (hzero h0)) h

theorem ge_continuation_iff {v : UInt64} : v ≥ 0x80 ↔ ¬ v.toNat < 128 := by
  rw [ge_iff_le, le_iff_toNat_le, Nat.not_lt]
  rfl

theorem uvarintSize_last {v : UInt64} (h : v.toNat < 128) : uvarintSize v = 1 := by
  rw [uvarintSize, if_neg (mt ge_continuation_iff.mp (not_not.mpr h))]

theorem uvarintSize_more {v : UInt64} (h : ¬ v.toNat < 128) : uvarintSize v = uvarintSize (v >>> 7) + 1 := by
  rw [uvarintSize, if_pos (ge_continuation_iff.mpr h)]

/-- `uvarint_size` is the length of the encoding. -/
theorem uvarintSize_eq : uvarintSize v = (encodeUvarint v).length := by
  refine uvarint_induct (P := fun v => uvarintSize v = (encodeUvarint v).length) (fun v h => ?_) (fun v h ih => ?_) v
  · rw [uvarintSize_last h, encodeUvarint_eq, if_pos h]
    rfl
  · rw [uvarintSize_more h, encodeUvarint_eq, if_neg h, length_cons, ih]

theorem uvarintSize_pos : 0 < uvarintSize v := by
  rw [uvarintSize_eq]
  exact length_pos_iff.mpr (encodeUvarint_ne_nil v)

theorem lt_uvarintSize_iff (k : Nat) : ∀ v : UInt64, k + 1 < uvarintSize v ↔ 128 ^ (k + 1) ≤ v.toNat := by
  induction k with
  | zero =>
    intro v
    by_cases h : v.toNat < 128
    · rw [uvarintSize_last h]
      omega
    have := uvarintSize_pos (v >>> 7)
    rw [uvarintSize_more h]
    omega
  | succ k ih =>
    intro v
    have hpos : 0 < 128 ^ (k + 1) := Nat.pow_pos (by decide)
    by_cases h : v.toNat < 128
    · rw [uvarintSize_last h]
      omega
    have hnext := ih (v >>> 7)
    rw [toNat_shiftRight_seven] at hnext
    rw [uvarintSize_more h]
    omega

theorem uvarintSize_le_ten : uvarintSize v ≤ 10 := by
  have h := lt_uvarintSize_iff 9 v
  have hlt := v.toNat_lt
  omega

/-! ## Decoding -/

theorem or_low_seven {acc : UInt64} {b : UInt8} {v s : Nat} (hs : s < 64) (hacc : acc.toNat < 2 ^ s)
    (hb : (b &&& 0x7f).toNat = v) (hfit : v * 2 ^ s < 2 ^ 64) :
    (acc ||| ((b &&& 0x7f).toUInt64 <<< UInt64.ofNat s)).toNat = acc.toNat + v * 2 ^ s := by
  have hs64 : (ofNat s).toNat = s := by
    rw [toNat_ofNat', Nat.mod_eq_of_lt (by omega)]
  rw [UInt64.toNat_or, UInt64.toNat_shiftLeft, UInt8.toNat_toUInt64, hb, hs64, Nat.mod_eq_of_lt hs, Nat.shiftLeft_eq,
    Nat.mod_eq_of_lt hfit, Nat.or_comm, Nat.mul_comm, ← Nat.two_pow_add_eq_or_of_lt hacc, Nat.add_comm]

theorem two_pow_seven_succ (i : Nat) : 2 ^ (7 * (i + 1)) = 128 * 2 ^ (7 * i) := by
  rw [show 7 * (i + 1) = 7 * i + 7 by omega, Nat.pow_add, Nat.mul_comm]

theorem low_seven_add (v i : Nat) : v % 128 * 2 ^ (7 * i) + v / 128 * 2 ^ (7 * (i + 1)) = v * 2 ^ (7 * i) := by
  rw [two_pow_seven_succ, ← Nat.mul_assoc, ← Nat.add_mul]
  congr 1
  omega

theorem decodeUvarintLoop_encodeUvarint (rest : Bytes) (v : UInt64) :
    ∀ (acc : UInt64) (i : Nat), i ≤ 9 → acc.toNat < 2 ^ (7 * i) → v.toNat * 2 ^ (7 * i) < 2 ^ 64 →
      decodeUvarintLoop (encodeUvarint v ++ rest) acc (7 * i) i =
        some (UInt64.ofNat (acc.toNat + v.toNat * 2 ^ (7 * i)), i + (encodeUvarint v).length) := by
  refine uvarint_induct (P := fun v => ∀ (acc : UInt64) (i : Nat), i ≤ 9 → acc.toNat < 2 ^ (7 * i) →
    v.toNat * 2 ^ (7 * i) < 2 ^ 64 → decodeUvarintLoop (encodeUvarint v ++ rest) acc (7 * i) i =
      some (ofNat (acc.toNat + v.toNat * 2 ^ (7 * i)), i + (encodeUvarint v).length)) ?_ ?_ v
  · intro v h acc i hi hacc hfit
    have hbyte : (UInt8.ofNat v.toNat).toNat = v.toNat := by
      rw [UInt8.toNat_ofNat', Nat.mod_eq_of_lt (by omega)]
    -- with nine bytes read there is one bit left
    have hlast : ¬ (7 * i ≥ 63 ∧ UInt8.ofNat v.toNat > 1) := by
      rintro ⟨hshift, hbig⟩
      have hi9 : i = 9 := by omega
      rw [gt_iff_lt, UInt8.lt_iff_toNat_lt, hbyte] at hbig
      have h1 : (1 : UInt8).toNat = 1 := rfl
      subst hi9
      omega
    have hdone : UInt8.ofNat v.toNat &&& 0x80 = 0 := and_continuation_eq_zero.mpr (by rw [hbyte]; exact h)
    have hval := or_low_seven (b := UInt8.ofNat v.toNat) (v := v.toNat) (s := 7 * i) (by omega) hacc
      (by rw [toNat_and_seven, hbyte]; omega) hfit
    rw [encodeUvarint_eq, if_pos h, singleton_append, decodeUvarintLoop, if_neg hlast]
    simp only [hdone, if_true, length_singleton, Option.some.injEq, Prod.mk.injEq, and_true]
    rw [← hval, UInt64.ofNat_toNat]
  intro v h ih acc i hi hacc hfit
  -- a further byte follows, so at most eight have been read
  have hi8 : i < 9 := by
    rcases Nat.lt_or_ge i 9 with hlt | hge
    · exact hlt
    have hi9 : i = 9 := by omega
    subst hi9
    omega
  have hbyte : (UInt8.ofNat (v.toNat % 128 + 128)).toNat = v.toNat % 128 + 128 := by
    rw [UInt8.toNat_ofNat', Nat.mod_eq_of_lt (by omega)]
  have hcont : ¬ UInt8.ofNat (v.toNat % 128 + 128) &&& 0x80 = 0 := by
    rw [and_continuation_eq_zero, hbyte]
    omega
  have hsplit := low_seven_add v.toNat i
  have hval := or_low_seven (b := UInt8.ofNat (v.toNat % 128 + 128)) (v := v.toNat % 128) (s := 7 * i) (by omega) hacc
    (by rw [toNat_and_seven, hbyte]; omega) (by omega)
  have hnext := ih (acc ||| ((UInt8.ofNat (v.toNat % 128 + 128) &&& 0x7f).toUInt64 <<< ofNat (7 * i)))
    (i + 1) (by omega) (by
      rw [hval, two_pow_seven_succ]
      have : v.toNat % 128 * 2 ^ (7 * i) ≤ 127 * 2 ^ (7 * i) := Nat.mul_le_mul_right _ (by omega)
      omega)
    (by
      rw [toNat_shiftRight_seven]
      omega)
  rw [encodeUvarint_eq, if_neg h, cons_append, decodeUvarintLoop, if_neg (by omega)]
  simp only [hcont, if_false, show ¬ i ≥ 9 by omega]
  rw [show 7 * i + 7 = 7 * (i + 1) by omega, hnext, hval, toNat_shiftRight_seven, length_cons, Nat.add_assoc,
    hsplit, Nat.add_assoc, Nat.add_comm 1]

theorem decodeUvarint_encodeUvarint (rest : Bytes) :
    decodeUvarint (encodeUvarint v ++ rest) = some (v, (encodeUvarint v).length) := by
  have hlt := v.toNat_lt
  have h := decodeUvarintLoop_encodeUvarint rest v 0 0 (by omega) (by simp) (by simpa using hlt)
  have hval : ofNat ((0 : UInt64).toNat + v.toNat * 2 ^ (7 * 0)) = v := by simp
  rw [hval, Nat.zero_add] at h
  exact h

theorem decodeUvarintLoop_length {data : Bytes} : ∀ {acc : UInt64} {shift i : Nat} {v : UInt64} {n : Nat},
    decodeUvarintLoop data acc shift i = some (v, n) → i < n ∧ n ≤ i + data.length := by
  induction data with
  | nil => exact fun h => absurd h (by simp [decodeUvarintLoop])
  | cons byte data ih =>
    intro acc shift i v n h
    simp only [decodeUvarintLoop] at h
    rw [length_cons]
    split at h
    · cases h
    split at h
    · cases h
      omega
    split at h
    · cases h
    have := ih h
    omega

end Yggdrasil
