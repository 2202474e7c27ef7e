import Mathlib.Data.List.GetD
import Yggdrasil.KeyStore.Store
import Yggdrasil.Router.Bloom

/-!
# Addresses, subnets and the keys looked up for them

`Address.get_key` gives a key that agrees with the owner's key where the address determines it.
-/

namespace Yggdrasil
open Bool Nat List Address

def bloomTransform (pfx : UInt8) (key : PublicKey) : PublicKey := (subnetForKey pfx key).getKey

def Address.bit (addr : Address) (j : Nat) : Bool :=
  if h : j < 112 then addr[2 + j / 8].toBitVec.getMsbD (j % 8) else false

/-! ## The key of an address -/

variable {i ones o : Nat} {s : AddrLoop} {addr : Address} {pfx : UInt8} {key : PublicKey}

theorem getMsbD_setKeyBit (key : PublicKey) {pos : Nat} (hpos : pos < 256) (hi : i < 256) :
    (setKeyBit key pos).getMsbD i = (key.getMsbD i || pos == i) := by
  unfold setKeyBit
  rw [BitVec.getMsbD_or]
  congr 1
  rw [BitVec.getMsbD_eq_getLsbD, BitVec.getLsbD_shiftLeft, BitVec.getLsbD_one, Bool.eq_iff_iff]
  simp only [and_eq_true, decide_eq_true_eq, not_eq_true', decide_eq_false_iff_not, beq_iff_eq]
  omega

theorem getMsbD_foldl_setKeyBit {ι : Type} (xs : List ι) (p : ι → Bool) (pos : ι → Nat)
    (hpos : ∀ x ∈ xs, p x = true → pos x < 256) (key : PublicKey) (hi : i < 256) :
    (xs.foldl (fun key x => if p x then setKeyBit key (pos x) else key) key).getMsbD i =
      (key.getMsbD i || xs.any fun x => p x && pos x == i) := by
  induction xs generalizing key with
  | nil => simp
  | cons x xs ih =>
    rw [foldl_cons, ih (fun y hy => hpos y (mem_cons_of_mem x hy)), any_cons]
    split
    next hx => rw [getMsbD_setKeyBit key (hpos x mem_cons_self hx) hi, hx, Bool.true_and, Bool.or_assoc]
    next hx => simp [hx]

theorem getMsbD_getKey (addr : Address) (hi : i < 256) : addr.getKey.getMsbD i =
    !(decide (i < addr[1].toNat) || (decide (addr[1].toNat < i) && addr.bit (i - (addr[1].toNat + 1)))) := by
  have hones : addr[1].toNat < 256 := addr[1].toNat_lt
  unfold Address.getKey
  generalize hn : addr[1].toNat = ones at hones ⊢
  have hfirst : ((range ones).foldl setKeyBit 0).getMsbD i = decide (i < ones) := by
    have hfold := getMsbD_foldl_setKeyBit (range ones) (fun _ => true) id
      (fun x hx _ => lt_trans (mem_range.mp hx) hones) 0 hi
    simp only [if_true, id_eq] at hfold
    rw [hfold, Bool.eq_iff_iff]
    simp
  have hdata := getMsbD_foldl_setKeyBit (finRange 112)
    (fun idx => decide (ones + 1 + idx.val < 256 ∧ addr[2 + idx.val / 8].toBitVec.getMsbD (idx.val % 8) = true))
    (fun idx => ones + 1 + idx.val) (fun x _ hx => (of_decide_eq_true hx).1) ((range ones).foldl setKeyBit 0) hi
  have hbits : ((finRange 112).any fun idx => decide (ones + 1 + idx.val < 256 ∧
      addr[2 + idx.val / 8].toBitVec.getMsbD (idx.val % 8) = true) && ones + 1 + idx.val == i) =
        (decide (ones < i) && addr.bit (i - (ones + 1))) := by
    rw [Bool.eq_iff_iff, any_eq_true]
    simp only [and_eq_true, decide_eq_true_eq, beq_iff_eq]
    constructor
    · rintro ⟨idx, -, ⟨-, hbit⟩, rfl⟩
      refine ⟨by omega, ?_⟩
      rw [Nat.add_sub_cancel_left]
      unfold Address.bit
      rw [dif_pos idx.isLt]
      exact hbit
    rintro ⟨hlt, hbit⟩
    unfold Address.bit at hbit
    split at hbit
    next hidx =>
      refine ⟨⟨i - (ones + 1), hidx⟩, mem_finRange _, ⟨?_, hbit⟩, ?_⟩
      · show ones + 1 + (i - (ones + 1)) < 256
        omega
      show ones + 1 + (i - (ones + 1)) = i
      omega
    · cases hbit
  simp only [decide_eq_true_eq] at hdata
  rw [BitVec.getMsbD_not, hdata, hfirst, hbits]
  simp [hi]

/-! ## The address of a key -/

structure AddrLoop.Packed (ones : Nat) (tail : List Bool) (s : AddrLoop) : Prop where
  ones : s.ones = ones
  done : s.done = true
  length : s.temp.length = tail.length / 8
  temp : ∀ j < 8 * (tail.length / 8), (s.temp.getD (j / 8) 0).toBitVec.getMsbD (j % 8) = tail.getD j false
  nBits : s.nBits.toNat = tail.length % 8
  bits : ∀ i < tail.length % 8, s.bits.toBitVec.getLsbD i = tail.getD (tail.length - 1 - i) false

theorem AddrLoop.Packed.shifted {tail : List Bool} (h : s.Packed ones tail) (bit : Bool) (hi : i ≤ tail.length % 8) :
    (s.bits <<< 1 ||| if bit then 1 else 0).toBitVec.getLsbD i = (tail ++ [bit]).getD (tail.length - i) false := by
  cases i with
  | zero =>
    have hzero : (s.bits <<< 1).toBitVec.getLsbD 0 = false := by simp
    rw [UInt8.toBitVec_or, BitVec.getLsbD_or, hzero, Bool.false_or, Nat.sub_zero,
      getD_append_right _ _ _ _ (Nat.le_refl _), Nat.sub_self]
    cases bit <;> rfl
  | succ i =>
    have hone : (if bit then 1 else 0 : UInt8).toBitVec.getLsbD (i + 1) = false := by
      cases bit
      · rw [if_neg Bool.false_ne_true]
        simp
      simp [BitVec.getLsbD_one]
    have hshift : (s.bits <<< 1).toBitVec.getLsbD (i + 1) = s.bits.toBitVec.getLsbD i := by
      have hlt : i + 1 < 8 := by omega
      simp [hlt, BitVec.getLsbD_eq_getElem (show i < 8 by omega)]
    rw [UInt8.toBitVec_or, BitVec.getLsbD_or, hone, Bool.or_false, hshift, h.bits i (by omega),
      getD_append _ _ _ _ (by omega), Nat.sub_sub, Nat.add_comm 1 i]

theorem AddrLoop.Packed.step {tail : List Bool} (h : s.Packed ones tail) (bit : Bool) :
    (s.step bit).Packed ones (tail ++ [bit]) := by
  have hlength : (tail ++ [bit]).length = tail.length + 1 := by rw [length_append, length_singleton]
  have hnext : (s.nBits + 1).toNat = tail.length % 8 + 1 := by
    rw [UInt8.toNat_add, h.nBits]
    show (tail.length % 8 + 1) % 256 = _
    omega
  have hold : ∀ j < 8 * (tail.length / 8), (tail ++ [bit]).getD j false = tail.getD j false :=
    fun j hj => getD_append _ _ _ _ (by omega)
  unfold AddrLoop.step
  rw [h.done]
  simp only [Bool.not_true, Bool.false_and, Bool.false_eq_true, if_false]
  split
  next heq =>
    have hfull : tail.length % 8 = 7 := by
      have : (s.nBits + 1).toNat = 8 := by rw [beq_iff_eq.mp heq]; rfl
      omega
    refine ⟨h.ones, rfl, ?_, fun j hj => ?_, ?_, fun i hi => ?_⟩
    · rw [hlength, length_append, length_singleton, h.length]
      omega
    · rw [hlength] at hj
      by_cases hj' : j < 8 * (tail.length / 8)
      · rw [getD_append _ _ _ _ (by rw [h.length]; omega), h.temp j hj', hold j hj']
      -- the byte that is now complete
      have hidx : j / 8 = s.temp.length := by rw [h.length]; omega
      rw [hidx, getD_append_right _ _ _ _ (Nat.le_refl _), Nat.sub_self, getD_cons_zero,
        BitVec.getMsbD_eq_getLsbD, h.shifted bit (by omega)]
      have hlt : j % 8 < 8 := by omega
      have hpos : tail.length - (8 - 1 - j % 8) = j := by omega
      rw [hpos]
      simp [hlt]
    · rw [hlength]
      show 0 = _
      omega
    omega
  next hne =>
    have hpart : tail.length % 8 ≠ 7 := by
      intro hfull
      apply hne
      rw [beq_iff_eq, ← UInt8.toNat_inj, hnext, hfull]
      rfl
    have hdiv : (tail.length + 1) / 8 = tail.length / 8 := by omega
    refine ⟨h.ones, rfl, ?_, fun j hj => ?_, ?_, fun i hi => ?_⟩
    · rw [hlength, hdiv]
      exact h.length
    · rw [hlength, hdiv] at hj
      rw [hold j hj]
      exact h.temp j hj
    · rw [hlength]
      show (s.nBits + 1).toNat = _
      omega
    rw [hlength] at hi ⊢
    exact h.shifted bit (by omega)

theorem AddrLoop.Packed.foldl (tail : List Bool) (h : s.Packed ones []) :
    (tail.foldl AddrLoop.step s).Packed ones tail := by
  induction tail using reverseRecOn with
  | nil => exact h
  | append_singleton tail bit ih =>
    rw [foldl_append]
    exact ih.step bit

theorem AddrLoop.foldl_replicate (n : Nat) (h : s.done = false) :
    (List.replicate n true).foldl AddrLoop.step s = { s with ones := s.ones + n } := by
  induction n generalizing s with
  | zero => rfl
  | succ n ih =>
    have hstep : s.step true = { s with ones := s.ones + 1 } := by
      unfold AddrLoop.step
      rw [h]
      rfl
    rw [replicate_succ, foldl_cons, hstep, ih (s := { s with ones := s.ones + 1 }) h]
    simp only [add_assoc, Nat.add_comm 1 n]

def invertedBits (key : PublicKey) : List Bool := (List.range 256).map (~~~key).getMsbD

theorem getD_invertedBits (key : PublicKey) (hi : i < 256) : (invertedBits key).getD i false = !key.getMsbD i := by
  unfold invertedBits
  simp [hi]

theorem invertedBits_split (key : PublicKey) (ho : o ≤ 255) (hones : ∀ i < o, key.getMsbD i = false) :
    invertedBits key = List.replicate o true ++ (!key.getMsbD o) :: (invertedBits key).drop (o + 1) := by
  have hlen : (invertedBits key).length = 256 := by simp [invertedBits]
  have htake : (invertedBits key).take o = replicate o true := by
    rw [eq_replicate_iff]
    refine ⟨by rw [length_take, hlen]; omega, fun b hb => ?_⟩
    obtain ⟨i, hi, rfl⟩ := getElem_of_mem hb
    rw [length_take, hlen] at hi
    rw [getElem_take, ← getD_eq_getElem _ false, getD_invertedBits key (by omega), hones i (by omega)]
    rfl
  have hdrop : (invertedBits key).drop o = (!key.getMsbD o) :: (invertedBits key).drop (o + 1) := by
    rw [drop_eq_getElem_cons (by omega), ← getD_eq_getElem _ false, getD_invertedBits key (by omega)]
  rw [← htake, ← hdrop, take_append_drop]

theorem exists_leading (key : PublicKey) :
    ∃ o ≤ 255, (∀ i < o, key.getMsbD i = false) ∧ (o < 255 → key.getMsbD o = true) := by
  by_cases h : ∃ i, i < 255 ∧ key.getMsbD i = true
  · refine ⟨Nat.find h, Nat.le_of_lt (Nat.find_spec h).1, fun i hi => ?_, fun _ => (Nat.find_spec h).2⟩
    have hmin := Nat.find_min h hi
    have hlt := (Nat.find_spec h).1
    simpa [lt_trans hi hlt] using hmin
  refine ⟨255, Nat.le_refl _, fun i hi => ?_, fun hlt => absurd hlt (lt_irrefl _)⟩
  by_contra hbit
  exact h ⟨i, hi, by simpa using hbit⟩

theorem addrLoop_spec (key : PublicKey) (ho : o ≤ 255) (hones : ∀ i < o, key.getMsbD i = false)
    (hsep : o < 255 → key.getMsbD o = true) {last : AddrLoop}
    (hlast : last = (invertedBits key).foldl AddrLoop.step ⟨0, false, [], 0, 0⟩) :
    min last.ones 255 = o ∧ last.temp.length = (255 - o) / 8 ∧
      ∀ j < 8 * ((255 - o) / 8), (last.temp.getD (j / 8) 0).toBitVec.getMsbD (j % 8) = !key.getMsbD (o + 1 + j) := by
  have hstart : (⟨0 + o, false, [], 0, 0⟩ : AddrLoop).step false = ⟨o, true, [], 0, 0⟩ := by
    rw [zero_add]
    rfl
  have hempty : (⟨o, true, [], 0, 0⟩ : AddrLoop).Packed o [] :=
    ⟨rfl, rfl, rfl, fun j hj => absurd hj (not_lt_zero j), rfl, fun i hi => absurd hi (not_lt_zero i)⟩
  have hlen : ((invertedBits key).drop (o + 1)).length = 255 - o := by
    simp only [invertedBits, length_drop, length_map, length_range]
    omega
  rw [invertedBits_split key ho hones, foldl_append, AddrLoop.foldl_replicate o rfl, foldl_cons] at hlast
  by_cases hfirst : key.getMsbD o = true
  · have hpacked : last.Packed o ((invertedBits key).drop (o + 1)) := by
      rw [hlast, hfirst, Bool.not_true, hstart]
      exact hempty.foldl _
    have hlength := hpacked.length
    have htemp := hpacked.temp
    rw [hlen] at hlength htemp
    refine ⟨by rw [hpacked.ones]; omega, hlength, fun j hj => ?_⟩
    have hj' : o + 1 + j < 256 := by omega
    rw [htemp j hj, getD_eq_getElem?_getD, getElem?_drop, ← getD_eq_getElem?_getD, getD_invertedBits key hj']
  -- the key is zero: no separator, and one more leading bit than fits into the byte
  obtain rfl : o = 255 := by
    by_contra hne
    exact hfirst (hsep (by omega))
  rw [eq_nil_of_length_eq_zero hlen, eq_false_iff.mpr hfirst] at hlast
  rw [hlast]
  exact ⟨rfl, rfl, fun j hj => absurd hj (not_lt_zero j)⟩

theorem getElem_addrForKey (pfx : UInt8) (key : PublicKey) {last : AddrLoop}
    (hlast : last = (invertedBits key).foldl AddrLoop.step ⟨0, false, [], 0, 0⟩) (hi : i < 16) :
    (addrForKey pfx key)[i] = (pfx :: (min last.ones 255).toUInt8 :: last.temp.take 14).getD i 0 := by
  unfold addrForKey
  rw [Vector.getElem_ofFn, hlast]
  rfl

theorem addrForKey_spec (pfx : UInt8) (key : PublicKey) (ho : o ≤ 255)
    (hones : ∀ i < o, key.getMsbD i = false) (hsep : o < 255 → key.getMsbD o = true) :
    (addrForKey pfx key)[0] = pfx ∧ (addrForKey pfx key)[1].toNat = o ∧
      ∀ j < 112, (addrForKey pfx key).bit j = (decide (j < 8 * ((255 - o) / 8)) && !key.getMsbD (o + 1 + j)) := by
  generalize hlast : (invertedBits key).foldl AddrLoop.step ⟨0, false, [], 0, 0⟩ = last
  obtain ⟨hmin, hlength, htemp⟩ := addrLoop_spec key ho hones hsep hlast.symm
  refine ⟨?_, ?_, fun j hj => ?_⟩
  · rw [getElem_addrForKey pfx key hlast.symm, getD_cons_zero]
  · rw [getElem_addrForKey pfx key hlast.symm, getD_cons_succ, getD_cons_zero, hmin]
    show o % 256 = o
    omega
  unfold Address.bit
  rw [dif_pos hj, getElem_addrForKey pfx key hlast.symm, Nat.add_comm 2, getD_cons_succ, getD_cons_succ]
  by_cases hwhole : j < 8 * ((255 - o) / 8)
  · have hidx : j / 8 < (last.temp.take 14).length := by
      rw [length_take, hlength]
      omega
    rw [getD_eq_getElem _ _ hidx, getElem_take, ← getD_eq_getElem _ 0, htemp j hwhole]
    simp [hwhole]
  have hidx : (last.temp.take 14).length ≤ j / 8 := by
    rw [length_take, hlength]
    omega
  rw [getD_eq_default _ _ hidx]
  simp [hwhole]

/-! ## Canonical addresses -/

/- The bounds of the two bytes before the key's bits. -/
theorem Address.zero_lt : 0 < 16 := by decide

theorem Address.one_lt : 1 < 16 := by decide

theorem Address.ext_bit {addr' : Address} (h₀ : getElem addr 0 zero_lt = getElem addr' 0 zero_lt)
    (h₁ : getElem addr 1 one_lt = getElem addr' 1 one_lt)
    (hbit : ∀ j < 112, addr.bit j = addr'.bit j) : addr = addr' := by
  apply Vector.ext
  intro i hi
  by_cases hzero : i = 0
  · subst hzero
    exact h₀
  by_cases hone : i = 1
  · subst hone
    exact h₁
  apply UInt8.toBitVec_inj.mp
  apply BitVec.eq_of_getMsbD_eq
  intro b hb
  have hj : 8 * (i - 2) + b < 112 := by omega
  have hdiv : 2 + (8 * (i - 2) + b) / 8 = i := by omega
  have hmod : (8 * (i - 2) + b) % 8 = b := by omega
  have hsame := hbit _ hj
  unfold Address.bit at hsame
  rw [dif_pos hj, dif_pos hj] at hsame
  simp only [hdiv, hmod] at hsame
  exact hsame

/-- The address has the prefix byte, and its bits are within the whole bytes after the separator. -/
structure Address.Canonical (pfx : UInt8) (addr : Address) : Prop where
  first : getElem addr 0 zero_lt = pfx
  whole : ∀ j < 112, addr.bit j = true → j < 8 * ((255 - (getElem addr 1 one_lt).toNat) / 8)

theorem canonical_addrForKey (pfx : UInt8) (key : PublicKey) : (addrForKey pfx key).Canonical pfx := by
  obtain ⟨o, ho, hones, hsep⟩ := exists_leading key
  obtain ⟨hfirst, hlen, hbit⟩ := addrForKey_spec pfx key ho hones hsep
  refine ⟨hfirst, fun j hj hset => ?_⟩
  rw [hbit j hj, and_eq_true, decide_eq_true_eq] at hset
  rw [hlen]
  exact hset.1

/-- `get_key` finds a key of the address. -/
theorem addrForKey_getKey (h : addr.Canonical pfx) : addrForKey pfx addr.getKey = addr := by
  have ho : addr[1].toNat ≤ 255 := le_of_lt_succ addr[1].toNat_lt
  have hones : ∀ i < addr[1].toNat, addr.getKey.getMsbD i = false := by
    intro i hi
    rw [getMsbD_getKey addr (by omega)]
    simp [hi]
  have hsep : addr[1].toNat < 255 → addr.getKey.getMsbD addr[1].toNat = true := by
    rw [getMsbD_getKey addr (by omega)]
    simp
  obtain ⟨hfirst, hlen, hbit⟩ := addrForKey_spec pfx addr.getKey ho hones hsep
  refine ext_bit (hfirst.trans h.first.symm) (UInt8.toNat_inj.mp hlen) fun j hj => ?_
  rw [hbit j hj]
  by_cases hwhole : j < 8 * ((255 - addr[1].toNat) / 8)
  · have hpos : addr[1].toNat + 1 + j < 256 := by omega
    have hafter : ¬ addr[1].toNat + 1 + j < addr[1].toNat := by omega
    have hpast : addr[1].toNat < addr[1].toNat + 1 + j := by omega
    rw [getMsbD_getKey addr hpos]
    simp [hwhole, hafter, hpast]
  have hunset : addr.bit j = false := eq_false_iff.mpr fun hset => hwhole (h.whole j hj hset)
  simp [hwhole, hunset]

theorem getKey_congr {addr' : Address} (h₁ : getElem addr 1 one_lt = getElem addr' 1 one_lt)
    (hbit : ∀ j < 112, addr.bit j = addr'.bit j) : addr.getKey = addr'.getKey := by
  apply BitVec.eq_of_getMsbD_eq
  intro i hi
  rw [getMsbD_getKey addr hi, getMsbD_getKey addr' hi, h₁]
  by_cases hj : i - (addr'[1].toNat + 1) < 112
  · rw [hbit _ hj]
  unfold Address.bit
  rw [dif_neg hj, dif_neg hj]

/-! ## Subnets -/

section
variable (pfx key)

def truncatedAddress : Address :=
  Vector.ofFn fun i => if i.val < 8 then (addrForKey pfx key)[i.val] else 0

theorem getElem_truncatedAddress (hi : i < 16) :
    (truncatedAddress pfx key)[i] = if i < 8 then (addrForKey pfx key)[i] else 0 := by
  unfold truncatedAddress
  rw [Vector.getElem_ofFn]

theorem bit_truncatedAddress (j : Nat) :
    (truncatedAddress pfx key).bit j = (decide (j < 48) && (addrForKey pfx key).bit j) := by
  unfold Address.bit
  split
  next hj =>
    rw [getElem_truncatedAddress]
    split
    next hlt =>
      have : j < 48 := by omega
      simp [this]
    next hge =>
      have : ¬ j < 48 := by omega
      simp [this]
  · simp

theorem canonical_truncatedAddress : (truncatedAddress pfx key).Canonical pfx := by
  have hcanonical := canonical_addrForKey pfx key
  refine ⟨?_, fun j hj hset => ?_⟩
  · rw [getElem_truncatedAddress]
    exact hcanonical.first
  rw [bit_truncatedAddress, and_eq_true] at hset
  rw [getElem_truncatedAddress]
  exact hcanonical.whole j hj hset.2

theorem getElem_subnetForKey (hi : i < 8) :
    (subnetForKey pfx key)[i] = if i = 0 then (addrForKey pfx key)[0] ||| 1 else (addrForKey pfx key)[i] := by
  unfold subnetForKey
  rw [Vector.getElem_ofFn]
  simp only [Fin.ext_iff]
  rfl

theorem getKey_subnetForKey : (subnetForKey pfx key).getKey = (truncatedAddress pfx key).getKey := by
  have hpadded : ∀ i, (hi : i < 16) → i ≠ 0 → (Vector.ofFn fun i : Fin 16 =>
      if i = 0 then (subnetForKey pfx key)[0] &&& ~~~1 else (subnetForKey pfx key).toList.getD i 0)[i] =
        (truncatedAddress pfx key)[i] := by
    intro i hi hne
    have hne' : (⟨i, hi⟩ : Fin 16) ≠ 0 := fun h => hne (congrArg Fin.val h)
    rw [Vector.getElem_ofFn, if_neg hne', getElem_truncatedAddress]
    split
    next hlt =>
      rw [getD_eq_getElem _ _ (by simpa using hlt), Vector.getElem_toList, getElem_subnetForKey pfx key hlt,
        if_neg hne]
    next hge => rw [getD_eq_default _ _ (by simpa using hge)]
  refine getKey_congr (hpadded 1 (by omega) (by omega)) fun j hj => ?_
  unfold Address.bit
  rw [dif_pos hj, dif_pos hj, hpadded (2 + j / 8) (by omega) (by omega)]

theorem addrForKey_bloomTransform : addrForKey pfx (bloomTransform pfx key) = truncatedAddress pfx key := by
  unfold bloomTransform
  rw [getKey_subnetForKey]
  exact addrForKey_getKey (canonical_truncatedAddress pfx key)

theorem subnetForKey_congr {key' : PublicKey}
    (h : ∀ i, (hi : i < 8) → (addrForKey pfx key)[i] = (addrForKey pfx key')[i]) :
    subnetForKey pfx key = subnetForKey pfx key' := by
  apply Vector.ext
  intro i hi
  rw [getElem_subnetForKey pfx key hi, getElem_subnetForKey pfx key' hi, h 0 (by omega), h i hi]

theorem bloomTransform_getKey_addrForKey :
    bloomTransform pfx (addrForKey pfx key).getKey = bloomTransform pfx key := by
  unfold bloomTransform subnetForKey
  rw [addrForKey_getKey (canonical_addrForKey pfx key)]

theorem bloomTransform_bloomTransform : bloomTransform pfx (bloomTransform pfx key) = bloomTransform pfx key := by
  have hsame : subnetForKey pfx (bloomTransform pfx key) = subnetForKey pfx key := by
    apply subnetForKey_congr
    intro i hi
    simp only [addrForKey_bloomTransform]
    rw [getElem_truncatedAddress, if_pos hi]
  rw [bloomTransform, hsame, bloomTransform]

theorem bloomTransform_getKey_subnetForKey :
    bloomTransform pfx (subnetForKey pfx key).getKey = bloomTransform pfx key := by
  have h := bloomTransform_bloomTransform pfx key
  rw [bloomTransform.eq_1 pfx key] at h
  rw [h, bloomTransform]

end

/-! ## Lookups -/

def packetDestination (buf : Bytes) : Address := Vector.ofFn fun i => buf.getD (24 + i) 0

theorem ReadWriteCloser.write_lookup {self : ReadWriteCloser} {buf : Bytes} {now : Instant}
    (h : (self.write pfx buf now).1 = .lookup key) :
    (isValidAddress pfx (packetDestination buf) = true ∧ key = (packetDestination buf).getKey) ∨
      (isValidAddress pfx (packetDestination buf) = false ∧ key = (Address.subnet (packetDestination buf)).getKey) := by
  simp only [write] at h
  unfold packetDestination
  split at h
  · cases h
  split at h
  · cases h
  split at h
  · cases h
  split at h
  · cases h
  split at h
  · cases h
  split at h
  next hvalid => exact Or.inl ⟨hvalid, (WriteResult.lookup.inj h).symm⟩
  next hvalid => exact Or.inr ⟨eq_false_iff.mpr hvalid, (WriteResult.lookup.inj h).symm⟩

theorem isValidAddress_of_subnet (heven : pfx &&& 1 = 0) {dst : Address}
    (h : Address.subnet dst = subnetForKey pfx key) : isValidAddress pfx dst = false := by
  have hfirst : dst[0] = pfx ||| 1 := by
    have hzero : (Address.subnet dst)[0] = (subnetForKey pfx key)[0] := by rw [h]
    rw [getElem_subnetForKey pfx key (by omega), if_pos rfl, (canonical_addrForKey pfx key).first] at hzero
    rw [← hzero]
    unfold Address.subnet
    rw [Vector.getElem_ofFn]
  unfold isValidAddress
  rw [hfirst, beq_eq_false_iff_ne]
  intro heq
  rw [← heq] at heven
  have hbit : ((pfx ||| 1) &&& 1).toBitVec.getLsbD 0 = true := by simp
  rw [heven] at hbit
  cases hbit

/-- The key of an address has the same address; the keys of an address and of a subnet, and every lookup that a packet
for their owner starts, have the transformed key of the owner. -/
theorem address_keys_agree (pfx : UInt8) (heven : pfx &&& 1 = 0) (k : PublicKey) :
    addrForKey pfx (addrForKey pfx k).getKey = addrForKey pfx k ∧
    bloomTransform pfx (addrForKey pfx k).getKey = bloomTransform pfx k ∧
    bloomTransform pfx (subnetForKey pfx k).getKey = bloomTransform pfx k ∧
    bloomTransform pfx (bloomTransform pfx k) = bloomTransform pfx k ∧
    ∀ (rwc : ReadWriteCloser) (buf : Bytes) (now : Instant) (key : PublicKey),
      (rwc.write pfx buf now).1 = .lookup key →
      packetDestination buf = addrForKey pfx k ∨ Address.subnet (packetDestination buf) = subnetForKey pfx k →
      Blooms.xKey key (some (bloomTransform pfx)) = Blooms.xKey k (some (bloomTransform pfx)) := by
  refine ⟨addrForKey_getKey (canonical_addrForKey pfx k), bloomTransform_getKey_addrForKey pfx k,
    bloomTransform_getKey_subnetForKey pfx k, bloomTransform_bloomTransform pfx k,
      fun rwc buf now key hlookup hdst => ?_⟩
  show bloomTransform pfx key = bloomTransform pfx k
  rcases hdst with hdst | hdst
  · have hvalid : isValidAddress pfx (addrForKey pfx k) = true := beq_iff_eq.mpr (canonical_addrForKey pfx k).first
    rcases ReadWriteCloser.write_lookup hlookup with ⟨-, hkey⟩ | ⟨hinvalid, -⟩
    · rw [hkey, hdst]
      exact bloomTransform_getKey_addrForKey pfx k
    rw [hdst, hvalid] at hinvalid
    cases hinvalid
  have hinvalid := isValidAddress_of_subnet heven hdst
  rcases ReadWriteCloser.write_lookup hlookup with ⟨hvalid, -⟩ | ⟨-, hkey⟩
  · rw [hinvalid] at hvalid
    cases hvalid
  rw [hkey, hdst]
  exact bloomTransform_getKey_subnetForKey pfx k

def packetToSubnet : Bytes :=
  [0x60, 0, 0, 0, 0, 0, 59, 64] ++ (addrForKey 2 0).toList ++ (subnetForKey 2 1).toList ++ List.replicate 8 7

theorem address_keys_agree_packet : ∃ key, ((ReadWriteCloser.new 2 0).write 2 packetToSubnet 0).1 = .lookup key ∧
    Blooms.xKey key (some (bloomTransform 2)) = Blooms.xKey 1 (some (bloomTransform 2)) := by
  have hlookup : ((ReadWriteCloser.new 2 0).write 2 packetToSubnet 0).1 = .lookup (subnetForKey 2 1).getKey := by
    decide +kernel
  have hdst : Address.subnet (packetDestination packetToSubnet) = subnetForKey 2 1 := by decide +kernel
  obtain ⟨-, -, -, -, hagree⟩ := address_keys_agree 2 (by decide) 1
  exact ⟨(subnetForKey 2 1).getKey, hlookup, hagree _ packetToSubnet 0 _ hlookup (Or.inr hdst)⟩

end Yggdrasil
