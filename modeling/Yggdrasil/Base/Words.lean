import Mathlib.Data.BitVec
import Mathlib.Data.Nat.Digits.Defs

/-!
# A bit vector as words of a fixed width

A byte string in network order is such a list with the highest word first.
-/

theorem Nat.ofDigits_map_range (b x n : Nat) :
    Nat.ofDigits b ((List.range n).map fun i => x / b ^ i % b) = x % b ^ n := by
  induction n generalizing x with
  | zero => rw [List.range_zero, List.map_nil, Nat.ofDigits_nil, Nat.pow_zero, Nat.mod_one]
  | succ n ih =>
    have hshift : ((List.range n).map fun i => x / b ^ (i + 1) % b) = (List.range n).map fun i =>
        x / b / b ^ i % b := by
      refine List.map_congr_left fun i _ => ?_
      rw [Nat.div_div_eq_div_mul, Nat.pow_succ']
    rw [List.range_succ_eq_map, List.map_cons, List.map_map, Function.comp_def]
    rw [hshift, Nat.ofDigits_cons, ih (x / b), Nat.pow_zero, Nat.div_one, Nat.pow_succ', Nat.mod_mul]

namespace BitVec
open List
variable {w m n : Nat}

/-- `n` words of `m` bits, the lowest first. -/
def words (m n : Nat) (x : BitVec w) : List (BitVec m) := (List.range n).map fun i => x.extractLsb' (m * i) m

/-- The words put together again. -/
def ofWords (w : Nat) (ws : List (BitVec m)) : BitVec w := BitVec.ofNat w (Nat.ofDigits (2 ^ m) (ws.map BitVec.toNat))

variable (x : BitVec w)

@[simp] theorem length_words : (words m n x).length = n := by
  rw [words, length_map, length_range]

theorem ofWords_words_setWidth (v : Nat) (x : BitVec w) (h : w = m * n) : ofWords v (words m n x) = x.setWidth v := by
  have hdigits : (words m n x).map BitVec.toNat = (List.range n).map fun i => x.toNat / (2 ^ m) ^ i % 2 ^ m := by
    rw [words, List.map_map]
    refine List.map_congr_left fun i _ => ?_
    rw [Function.comp_apply, BitVec.extractLsb'_toNat, Nat.shiftRight_eq_div_pow, Nat.pow_mul]
  have hlt : x.toNat < (2 ^ m) ^ n := by
    rw [← Nat.pow_mul, ← h]
    exact x.isLt
  rw [ofWords, hdigits, Nat.ofDigits_map_range, Nat.mod_eq_of_lt hlt, BitVec.ofNat_toNat]

theorem ofWords_words (h : w = m * n) : ofWords w (words m n x) = x := by
  rw [ofWords_words_setWidth w x h, BitVec.setWidth_eq]

def beBytes (n : Nat) (x : BitVec w) : List UInt8 := ((words 8 n x).map UInt8.ofBitVec).reverse

def ofBeBytes (w : Nat) (bs : List UInt8) : BitVec w := ofWords w (bs.reverse.map UInt8.toBitVec)

@[simp] theorem length_beBytes : (beBytes n x).length = n := by
  rw [beBytes, length_reverse, length_map, length_words]

theorem ofBeBytes_beBytes_setWidth (v : Nat) (x : BitVec w) (h : w = 8 * n) :
    ofBeBytes v (beBytes n x) = x.setWidth v := by
  have hbytes : UInt8.toBitVec ∘ UInt8.ofBitVec = id := rfl
  rw [ofBeBytes, beBytes, reverse_reverse, List.map_map, hbytes, map_id, ofWords_words_setWidth v x h]

theorem ofBeBytes_beBytes (h : w = 8 * n) : ofBeBytes w (beBytes n x) = x := by
  rw [ofBeBytes_beBytes_setWidth w x h, BitVec.setWidth_eq]

end BitVec
