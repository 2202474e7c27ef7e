import Mathlib.Algebra.GroupWithZero.Nat
import Mathlib.Data.List.Basic

/-!
# Slots for offloaded reads

`gso_read_slot_sizes` of `tun.rs`: the kernel hands over an aggregate that is split into segments, the `i`-th of which
goes to the `i`-th slot. `IDEAL_BATCH_SIZE` is that of the `tun-rs` crate.
-/

namespace Yggdrasil.Gso
open Nat List

def IDEAL_BATCH_SIZE : Nat := 128

def GSO_BATCH_BUDGET : Nat := 1 <<< 20

def GSO_MAX_AGGREGATE : Nat := 65535

def GSO_MIN_SEGMENT : Nat := 1220

def GSO_MIN_READ_SLOTS : Nat := (GSO_MAX_AGGREGATE + GSO_MIN_SEGMENT - 1) / GSO_MIN_SEGMENT

def GSO_SEGMENT_HDR_CAP : Nat := 128

def slotSize (mtu i : Nat) : Nat := min (GSO_SEGMENT_HDR_CAP + GSO_MAX_AGGREGATE / max i 1) mtu

def readSlotLoop (mtu : Nat) : List Nat → Nat → List Nat → List Nat
  | [], _, sizes => sizes
  | i :: is, total, sizes =>
    let slot := slotSize mtu i
    if total + slot > GSO_BATCH_BUDGET ∧ sizes.length ≥ GSO_MIN_READ_SLOTS then sizes
    else readSlotLoop mtu is (total + slot) (sizes ++ [slot])

def gsoReadSlotSizes (mtu : UInt16) : List Nat :=
  readSlotLoop (max mtu.toNat 1) (List.range IDEAL_BATCH_SIZE) 0 []

/-- The lengths of the packets of an aggregate: all but the last have `segment` bytes behind the headers. -/
def segments (payload hdr segment : Nat) : List Nat :=
  (List.range ((payload + segment - 1) / segment)).map fun i => hdr + min segment (payload - i * segment)

/-! ## The budget -/

theorem readSlotLoop_eq (mtu : Nat) (is : List Nat) (total : Nat) (sizes : List Nat)
    (h : total + (is.map (slotSize mtu)).sum ≤ GSO_BATCH_BUDGET) :
    readSlotLoop mtu is total sizes = sizes ++ is.map (slotSize mtu) := by
  induction is generalizing total sizes with
  | nil => simp [readSlotLoop]
  | cons i is ih =>
    rw [map_cons, sum_cons] at h
    unfold readSlotLoop
    rw [if_neg (by omega), ih _ _ (by omega)]
    simp

theorem sum_slotSize_le (mtu : Nat) : ((List.range IDEAL_BATCH_SIZE).map (slotSize mtu)).sum ≤ GSO_BATCH_BUDGET := by
  have hsum : ∀ is : List Nat, (is.map (slotSize mtu)).sum ≤
      (is.map fun i => GSO_SEGMENT_HDR_CAP + GSO_MAX_AGGREGATE / max i 1).sum := by
    intro is
    induction is with
    | nil => simp
    | cons i is ih =>
      have hslot : slotSize mtu i ≤ GSO_SEGMENT_HDR_CAP + GSO_MAX_AGGREGATE / max i 1 := Nat.min_le_left _ _
      simp only [map_cons, sum_cons]
      omega
  apply Nat.le_trans (hsum _)
  decide +kernel

theorem gsoReadSlotSizes_eq (mtu : UInt16) :
    gsoReadSlotSizes mtu = (List.range IDEAL_BATCH_SIZE).map (slotSize (max mtu.toNat 1)) := by
  apply readSlotLoop_eq
  rw [zero_add]
  exact sum_slotSize_le _

/-! ## Segments -/

theorem segment_le_slotSize {mtu payload hdr segment i : Nat} (hpayload : payload ≤ GSO_MAX_AGGREGATE)
    (hhdr : hdr ≤ GSO_SEGMENT_HDR_CAP) (hmtu : hdr + segment ≤ mtu) (hi : i * segment < payload) :
    hdr + min segment (payload - i * segment) ≤ slotSize mtu i := by
  -- the segments before this one are full
  have hsize : min segment (payload - i * segment) ≤ GSO_MAX_AGGREGATE / max i 1 := by
    rw [le_div_iff_mul_le (by omega)]
    rcases Nat.eq_zero_or_pos i with rfl | hpos
    · simp
      omega
    have hle : min segment (payload - i * segment) * max i 1 ≤ segment * i := by
      rw [Nat.max_eq_left hpos]
      exact mul_le_mul_right _ (Nat.min_le_left _ _)
    rw [mul_comm segment] at hle
    omega
  unfold slotSize
  omega

/-- Every segment has a slot that is at least as long, and all slots together are within the budget. -/
theorem segments_fit (mtu : UInt16) : (gsoReadSlotSizes mtu).sum ≤ GSO_BATCH_BUDGET ∧
    ∀ payload hdr segment : Nat, payload ≤ GSO_MAX_AGGREGATE → hdr ≤ GSO_SEGMENT_HDR_CAP → GSO_MIN_SEGMENT ≤ segment →
      hdr + segment ≤ mtu.toNat → (segments payload hdr segment).length ≤ (gsoReadSlotSizes mtu).length ∧
      ∀ (i len : Nat), (segments payload hdr segment)[i]? = some len →
        ∃ slot, (gsoReadSlotSizes mtu)[i]? = some slot ∧ len ≤ slot := by
  rw [gsoReadSlotSizes_eq]
  refine ⟨sum_slotSize_le _, fun payload hdr segment hpayload hhdr hsegment hmtu => ?_⟩
  have hpos : 0 < segment := Nat.lt_of_lt_of_le (by decide) hsegment
  have hcount : (payload + segment - 1) / segment ≤ IDEAL_BATCH_SIZE := by
    unfold GSO_MAX_AGGREGATE at hpayload
    unfold GSO_MIN_SEGMENT at hsegment
    apply Nat.div_le_of_le_mul
    unfold IDEAL_BATCH_SIZE
    omega
  refine ⟨by simpa [segments] using hcount, fun i len hlen => ?_⟩
  simp only [segments, getElem?_map, Option.map_eq_some_iff, getElem?_eq_some_iff, length_range,
    getElem_range] at hlen
  obtain ⟨_, ⟨hi, rfl⟩, rfl⟩ := hlen
  refine ⟨slotSize (max mtu.toNat 1) i, by simp [Nat.lt_of_lt_of_le hi hcount], ?_⟩
  apply segment_le_slotSize hpayload hhdr (by omega)
  have hle := Nat.mul_le_of_le_div _ _ _ (Nat.succ_le_of_lt hi)
  rw [succ_mul] at hle
  omega

/-- A full aggregate of the smallest segments. -/
theorem segments_fit_full : (segments 65535 60 1220).length = 54 ∧
    (segments 65535 60 1220).length ≤ (gsoReadSlotSizes 1500).length :=
  ⟨by decide, ((segments_fit 1500).2 65535 60 1220 (by decide) (by decide) (by decide) (by decide)).1⟩

end Yggdrasil.Gso
