import Mathlib.Algebra.GroupWithZero.Nat
import Mathlib.Algebra.BigOperators.Group.List.Basic

/-!
# Ones' complement sums

A byte string as 16-bit words in network order, with a zero behind an odd last byte, and the sum of the words in which a
carry goes round to the lowest bit.
-/

namespace OnesComplement
open List

def wordsOf : List UInt8 → List Nat
  | hi :: lo :: bs => (hi.toNat * 256 + lo.toNat) :: wordsOf bs
  | [hi] => [hi.toNat * 256]
  | [] => []

/-- Everything above 16 bits, added to the low 16 bits. -/
def carry (n : Nat) : Nat := n % 65536 + n / 65536

def sum (bs : List UInt8) : Nat := (wordsOf bs).foldl (fun a b => carry (a + b)) 0

theorem carry_mod (n : Nat) : carry n % 65535 = n % 65535 := by
  unfold carry
  omega

theorem carry_pos {n : Nat} (h : 0 < n) : 0 < carry n := by
  unfold carry
  omega

theorem wordsOf_append {as : List UInt8} (bs : List UInt8) (h : as.length % 2 = 0) :
    wordsOf (as ++ bs) = wordsOf as ++ wordsOf bs := by
  fun_induction wordsOf as with
  | case1 hi lo as ih =>
    rw [length_cons, length_cons] at h
    simp [wordsOf, ih (by omega)]
  | case2 => simp at h
  | case3 => rfl

theorem sum_wordsOf_le (bs : List UInt8) : (wordsOf bs).sum ≤ 32768 * (bs.length + 1) := by
  fun_induction wordsOf bs with
  | case1 hi lo bs ih =>
    have hhi := hi.toNat_lt
    have hlo := lo.toNat_lt
    rw [sum_cons, length_cons, length_cons]
    omega
  | case2 hi =>
    have hhi := hi.toNat_lt
    simp
    omega
  | case3 => simp

theorem sum_wordsOf_eq (bs : List UInt8) : (wordsOf bs).sum =
    ((wordsOf bs).take (bs.length / 2)).sum + bs[2 * (bs.length / 2)]?.elim 0 fun last => last.toNat * 256 := by
  fun_induction wordsOf bs with
  | case1 hi lo bs ih =>
    rw [length_cons, length_cons, show (bs.length + 1 + 1) / 2 = bs.length / 2 + 1 by omega,
      show 2 * (bs.length / 2 + 1) = 2 * (bs.length / 2) + 1 + 1 by omega, take_succ_cons, sum_cons,
      sum_cons, getElem?_cons_succ, getElem?_cons_succ, ih]
    omega
  | case2 hi => simp
  | case3 => rfl

theorem lt_of_mem_wordsOf {bs : List UInt8} {w : Nat} (h : w ∈ wordsOf bs) : w < 65536 := by
  fun_induction wordsOf bs with
  | case1 hi lo bs ih =>
    have hhi := hi.toNat_lt
    have hlo := lo.toNat_lt
    rcases mem_cons.mp h with rfl | h
    · omega
    · exact ih h
  | case2 hi =>
    have hhi := hi.toNat_lt
    rw [mem_singleton.mp h]
    omega
  | case3 => simp at h

theorem foldl_carry {ws : List Nat} {acc : Nat} (hws : ∀ w ∈ ws, w < 65536) (hacc : acc < 65536) :
    let total := ws.foldl (fun a b => carry (a + b)) acc
    total < 65536 ∧ total % 65535 = (acc + ws.sum) % 65535 ∧ (0 < acc + ws.sum → 0 < total) := by
  induction ws generalizing acc with
  | nil => simpa using hacc
  | cons w ws ih =>
    have hw := hws w mem_cons_self
    have hmod := carry_mod (acc + w)
    have hlt : carry (acc + w) < 65536 := by
      unfold carry
      omega
    obtain ⟨htotal, hsum, hpos⟩ := ih (fun w hw => hws w (mem_cons_of_mem _ hw)) hlt
    refine ⟨htotal, ?_, fun h => hpos ?_⟩
    · rw [foldl_cons, hsum, sum_cons]
      omega
    rw [sum_cons] at h
    rcases Nat.eq_zero_or_pos (acc + w) with hzero | hpos
    · omega
    have := carry_pos hpos
    omega

theorem sum_eq_of_dvd {bs : List UInt8} (hpos : 0 < (wordsOf bs).sum) (hmod : (wordsOf bs).sum % 65535 = 0) :
    sum bs = 0xFFFF := by
  obtain ⟨hlt, hsum, hnonzero⟩ := foldl_carry (fun w => @lt_of_mem_wordsOf bs w) (Nat.zero_lt_succ 65535)
  rw [Nat.zero_add] at hsum hnonzero
  unfold sum
  omega

end OnesComplement
