import Yggdrasil.Base.OnesComplement
import Yggdrasil.Base.Slice
import Yggdrasil.Base.Words
import Yggdrasil.KeyStore.Store

/-!
# Packets at the TUN

Reading and building IP packets in `ipv6rwc.rs`. An index or a slice outside the packet and a `u32` sum above its type
are `none`, where the program panics.
-/

namespace Yggdrasil
open Option Nat List BitVec

def u16FromBeBytes (a b : UInt8) : UInt16 := a.toUInt16 <<< 8 ||| b.toUInt16

def isIp4 (first : UInt8) : Bool := first &&& 0xf0 == 0x40

def isIp6 (first : UInt8) : Bool := first &&& 0xf0 == 0x60

/-! ## Packet Too Big -/

def u32Add (a b : UInt32) : Option UInt32 := if a.toNat + b.toNat < 2 ^ 32 then some (a + b) else none

def addWords (bs : Bytes) (n : Nat) (sum : UInt32) : Option UInt32 :=
  (List.range n).foldlM (fun sum k => do
    let hi ← bs[2 * k]?
    let lo ← bs[2 * k + 1]?
    u32Add sum (u16FromBeBytes hi lo).toUInt32) sum

variable (sum : UInt32)

theorem toNat_carry :
    ((sum &&& (0xFFFF : UInt32)) + (sum >>> (16 : UInt32))).toNat = OnesComplement.carry sum.toNat := by
  have hlow : sum.toNat &&& 65535 = sum.toNat % 65536 := and_two_pow_sub_one_eq_mod sum.toNat 16
  have hlt := sum.toNat_lt
  show ((sum.toNat &&& 65535) + sum.toNat >>> 16) % 2 ^ 32 = _
  rw [hlow, shiftRight_eq_div_pow, OnesComplement.carry]
  omega

theorem foldCarries_lt (h : 0xFFFF < sum) :
    ((sum &&& (0xFFFF : UInt32)) + (sum >>> (16 : UInt32))).toNat < sum.toNat := by
  have hlt : 65535 < sum.toNat := UInt32.lt_iff_toNat_lt.mp h
  rw [toNat_carry, OnesComplement.carry]
  omega

def foldCarries (sum : UInt32) : UInt32 :=
  if 0xFFFF < sum then foldCarries ((sum &&& (0xFFFF : UInt32)) + (sum >>> (16 : UInt32))) else sum
termination_by sum.toNat
decreasing_by exact foldCarries_lt sum ‹_›

def icmpv6Checksum (src dst icmpData : Bytes) : Option UInt16 := do
  let sum ← addWords src 8 0
  let sum ← addWords dst 8 sum
  let len := UInt32.ofNat icmpData.length
  let sum ← u32Add sum (len >>> 16)
  let sum ← u32Add sum (len &&& 0xFFFF)
  let sum ← u32Add sum 58
  let sum ← addWords icmpData (icmpData.length / 2) sum
  let i := 2 * (icmpData.length / 2)
  if i < icmpData.length then
    let last ← icmpData[i]?
    let sum ← u32Add sum (last.toUInt32 <<< 8)
    return ~~~(foldCarries sum).toUInt16
  else return ~~~(foldCarries sum).toUInt16

def buildIcmpv6Ptb (original : Bytes) (mtu : UInt32) : Option (Option Bytes) :=
  if original.length < IPV6_HEADER_LEN then some none
  else do
    let origSrc ← original.slice? 8 24
    let origDst ← original.slice? 24 40
    let copyLen := min original.length 512
    let icmpLen := 8 + copyLen
    let icmp ← (List.replicate icmpLen 0).set? 0 2
    let icmp ← icmp.set? 1 0
    let icmp ← icmp.copyAt? 4 (beBytes 4 mtu.toBitVec)
    let body ← original.slice? 0 copyLen
    let icmp ← icmp.copyAt? 8 body
    let checksum ← icmpv6Checksum origDst origSrc icmp
    let icmp ← icmp.copyAt? 2 (beBytes 2 checksum.toBitVec)
    let packet ← (List.replicate (IPV6_HEADER_LEN + icmpLen) 0).set? 0 0x60
    let payloadLen := UInt16.ofNat icmpLen
    let packet ← packet.copyAt? 4 (beBytes 2 payloadLen.toBitVec)
    let packet ← packet.set? 6 58
    let packet ← packet.set? 7 255
    let packet ← packet.copyAt? 8 origDst
    let packet ← packet.copyAt? 24 origSrc
    let packet ← packet.copyAt? IPV6_HEADER_LEN icmp
    return some packet

/-! ## The message and its checksum -/

open OnesComplement (wordsOf)
open List (copyAt?_append yields_slice? length_of_slice? slice?_append slice?_of_le)

def pseudoHeader (src dst : Bytes) (len : Nat) : Bytes := src ++ dst ++ beBytes 4 (BitVec.ofNat 32 len) ++ [0, 0, 0, 58]

def ptbMessage (checksum : UInt16) (mtu : UInt32) (body : Bytes) : Bytes :=
  [2, 0] ++ (beBytes 2 checksum.toBitVec ++ (beBytes 4 mtu.toBitVec ++ body))

def ptbHeader (src dst : Bytes) (len : Nat) : Bytes :=
  [0x60, 0, 0, 0] ++ beBytes 2 (BitVec.ofNat 16 len) ++ [58, 255] ++ src ++ dst

theorem toNat_u16FromBeBytes (hi lo : UInt8) : (u16FromBeBytes hi lo).toNat = hi.toNat * 256 + lo.toNat := by
  have hhi := hi.toNat_lt
  show (hi.toNat <<< 8 % 2 ^ 16) ||| lo.toNat = _
  rw [Nat.mod_eq_of_lt (by rw [Nat.shiftLeft_eq]; omega), ← Nat.shiftLeft_add_eq_or_of_lt lo.toNat_lt, Nat.shiftLeft_eq]

theorem u32Add_spec {a b : UInt32} (h : a.toNat + b.toNat < 2 ^ 32) :
    ∃ c, u32Add a b = some c ∧ c.toNat = a.toNat + b.toNat :=
  ⟨a + b, if_pos h, (UInt32.toNat_add a b).trans (mod_eq_of_lt h)⟩

theorem addWords_spec {n : Nat} {bs : Bytes} {sum : UInt32} (h : 2 * n ≤ bs.length)
    (hlt : sum.toNat + ((wordsOf bs).take n).sum < 2 ^ 32) :
    ∃ sum', addWords bs n sum = some sum' ∧ sum'.toNat = sum.toNat + ((wordsOf bs).take n).sum := by
  induction n generalizing bs sum with
  | zero => exact ⟨sum, rfl, rfl⟩
  | succ n ih =>
    match bs, h with
    | hi :: lo :: bs, h =>
      have hword : (u16FromBeBytes hi lo).toUInt32.toNat = hi.toNat * 256 + lo.toNat := by
        rw [← toNat_u16FromBeBytes]
        rfl
      rw [wordsOf, take_succ_cons, sum_cons, ← hword] at hlt ⊢
      obtain ⟨mid, hmid, hmidnat⟩ := @u32Add_spec sum (u16FromBeBytes hi lo).toUInt32 (by omega)
      have hstep : addWords (hi :: lo :: bs) (n + 1) sum = addWords bs n mid := by
        unfold addWords
        rw [range_succ_eq_map, foldlM_cons]
        show (u32Add sum (u16FromBeBytes hi lo).toUInt32).bind (foldlM _ · ((range n).map succ)) = _
        rw [hmid, bind_some, foldlM_map]
        rfl
      obtain ⟨sum', hsum', hnat⟩ := @ih bs mid (by simp at h; omega) (by omega)
      exact ⟨sum', hstep.trans hsum', by omega⟩

theorem wordsOf_beBytes_two (x : BitVec 16) : wordsOf (beBytes 2 x) = [x.toNat] := by
  simp [beBytes, words, range_succ, wordsOf, shiftRight_eq_div_pow]
  omega

theorem wordsOf_beBytes_four (x : BitVec 32) : wordsOf (beBytes 4 x) = [x.toNat / 65536, x.toNat % 65536] := by
  simp [beBytes, words, range_succ, wordsOf, shiftRight_eq_div_pow]
  omega

theorem toNat_foldCarries : (foldCarries sum).toNat < 65536 ∧
    (foldCarries sum).toNat % 65535 = sum.toNat % 65535 ∧ (0 < sum.toNat → 0 < (foldCarries sum).toNat) := by
  fun_induction foldCarries sum with
  | case1 sum hlarge ih =>
    rw [toNat_carry] at ih
    exact ⟨ih.1, ih.2.1.trans (OnesComplement.carry_mod _), fun h => ih.2.2 (OnesComplement.carry_pos h)⟩
  | case2 sum hsmall =>
    have : ¬ 65535 < sum.toNat := fun h => hsmall (UInt32.lt_iff_toNat_lt.mpr h)
    exact ⟨by omega, rfl, id⟩

theorem sum_wordsOf_pseudoHeader {src dst : Bytes} (hsrc : src.length = 16) (hdst : dst.length = 16) (len : Nat)
    (data : Bytes) : (wordsOf (pseudoHeader src dst len ++ data)).sum =
      (wordsOf src).sum + (wordsOf dst).sum + len % 2 ^ 32 / 65536 + len % 2 ^ 32 % 65536 + 58 +
        (wordsOf data).sum := by
  rw [pseudoHeader, OnesComplement.wordsOf_append _ (by simp [hsrc, hdst]),
    OnesComplement.wordsOf_append _ (by simp [hsrc, hdst]), OnesComplement.wordsOf_append _ (by simp [hsrc, hdst]),
    OnesComplement.wordsOf_append _ (by omega), wordsOf_beBytes_four]
  simp [wordsOf]
  omega

theorem toNat_lastWord (last : UInt8) : (last.toUInt32 <<< 8).toNat = last.toNat * 256 := by
  have := last.toNat_lt
  simp [Nat.shiftLeft_eq]
  omega

theorem icmpv6Checksum_eq {src dst icmpData : Bytes} (hsrc : src.length = 16) (hdst : dst.length = 16)
    (hlt : (wordsOf (pseudoHeader src dst icmpData.length ++ icmpData)).sum < 2 ^ 32) :
    icmpv6Checksum src dst icmpData = some (~~~(foldCarries (UInt32.ofNat
      (wordsOf (pseudoHeader src dst icmpData.length ++ icmpData)).sum)).toUInt16) := by
  have hhigh : (UInt32.ofNat icmpData.length >>> 16).toNat = icmpData.length % 2 ^ 32 / 65536 := by
    simp [shiftRight_eq_div_pow]
  have hlow : (UInt32.ofNat icmpData.length &&& 0xFFFF).toNat = icmpData.length % 2 ^ 32 % 65536 := by
    have := and_two_pow_sub_one_eq_mod (icmpData.length % 2 ^ 32) 16
    simp at this ⊢
    omega
  have hsum := OnesComplement.sum_wordsOf_eq src
  have hsum' := OnesComplement.sum_wordsOf_eq dst
  have hdata := OnesComplement.sum_wordsOf_eq icmpData
  simp only [hsrc, hdst, List.getElem?_eq_none (Nat.le_of_eq hsrc), List.getElem?_eq_none (Nat.le_of_eq hdst),
    Nat.reduceDiv, Nat.reduceMul, elim_none, Nat.add_zero] at hsum hsum'
  rw [sum_wordsOf_pseudoHeader hsrc hdst, hsum, hsum', hdata] at hlt ⊢
  -- each partial sum is at most the sum of all words
  have hzero : (0 : UInt32).toNat = 0 := rfl
  have hproto : (58 : UInt32).toNat = 58 := rfl
  obtain ⟨s₁, h₁, e₁⟩ := @addWords_spec 8 src 0 hsrc.ge (by omega)
  obtain ⟨s₂, h₂, e₂⟩ := @addWords_spec 8 dst s₁ hdst.ge (by omega)
  obtain ⟨s₃, h₃, e₃⟩ := @u32Add_spec s₂ (UInt32.ofNat icmpData.length >>> 16) (by omega)
  obtain ⟨s₄, h₄, e₄⟩ := @u32Add_spec s₃ (UInt32.ofNat icmpData.length &&& 0xFFFF) (by omega)
  obtain ⟨s₅, h₅, e₅⟩ := @u32Add_spec s₄ 58 (by omega)
  obtain ⟨s₆, h₆, e₆⟩ := @addWords_spec (icmpData.length / 2) icmpData s₅ (mul_div_le _ 2) (by omega)
  have htotal : ∀ {s : UInt32} {total : Nat}, s.toNat = total →
      some (~~~(foldCarries s).toUInt16) = some (~~~(foldCarries (UInt32.ofNat total)).toUInt16) := by
    rintro s _ rfl
    rw [UInt32.ofNat_toNat]
  simp only [icmpv6Checksum, bind_eq_bind, h₁, h₂, h₃, h₄, h₅, h₆, bind_some]
  split
  next hodd =>
    rw [List.getElem?_eq_getElem hodd, elim_some] at hlt ⊢
    obtain ⟨s₇, h₇, e₇⟩ := @u32Add_spec s₆ (icmpData[2 * (icmpData.length / 2)].toUInt32 <<< 8)
      (by rw [toNat_lastWord]; omega)
    rw [toNat_lastWord] at e₇
    rw [bind_some, h₇, bind_some]
    exact htotal (by omega)
  next heven =>
    rw [List.getElem?_eq_none (not_lt.mp heven), elim_none]
    exact htotal (by omega)

theorem bind_ptbMessage {body : Bytes} {n : Nat} {β : Type} (mtu : UInt32) (hbody : body.length = n)
    (f : Bytes → Option β) :
    (((List.replicate (8 + n) 0).set? 0 2).bind fun icmp => (icmp.set? 1 0).bind fun icmp =>
      (icmp.copyAt? 4 (beBytes 4 mtu.toBitVec)).bind fun icmp => (icmp.copyAt? 8 body).bind f) =
    f (ptbMessage 0 mtu body) := by
  have hmessage : [2, 0, 0, 0] ++ (beBytes 4 mtu.toBitVec ++ body) = ptbMessage 0 mtu body := rfl
  rw [replicate_add, ← hmessage]
  simp [List.set?, List.copyAt?, hbody, List.replicate_succ, show 8 + n ≤ 4 + n + 1 + 1 + 1 + 1 by omega]
  rw [drop_eq_nil_of_le (by simp; omega), append_nil]

theorem bind_ptbHeader {src dst icmp : Bytes} {β : Type} (hsrc : src.length = 16) (hdst : dst.length = 16)
    (f : Bytes → Option β) : (((List.replicate (IPV6_HEADER_LEN + icmp.length) 0).set? 0 0x60).bind fun packet =>
      (packet.copyAt? 4 (beBytes 2 (UInt16.ofNat icmp.length).toBitVec)).bind fun packet =>
        (packet.set? 6 58).bind fun packet => (packet.set? 7 255).bind fun packet =>
          (packet.copyAt? 8 src).bind fun packet =>
          (packet.copyAt? 24 dst).bind fun packet => (packet.copyAt? IPV6_HEADER_LEN icmp).bind f) =
    f (ptbHeader src dst icmp.length ++ icmp) := by
  obtain ⟨a, b, hab⟩ := length_eq_two.mp (length_beBytes (n := 2) (UInt16.ofNat icmp.length).toBitVec)
  have hheader : ptbHeader src dst icmp.length = [0x60, 0, 0, 0, a, b, 58, 255] ++ (src ++ dst) := by
    rw [ptbHeader, show BitVec.ofNat 16 icmp.length = (UInt16.ofNat icmp.length).toBitVec from rfl, hab]
    simp
  rw [hab, hheader, IPV6_HEADER_LEN, replicate_add]
  generalize hzeros : replicate icmp.length (0 : UInt8) = zeros
  have hlen : zeros.length = icmp.length := by simp [← hzeros]
  simp [List.set?, List.copyAt?, List.replicate_succ, List.drop_append, hsrc, hdst, hlen]
  rw [if_pos (by omega), bind_some, if_pos (by simp [hsrc, hdst, hlen]; omega), bind_some]
  have hshort : src.length ≤ 32 := by omega
  simp [take_append, hsrc, hdst, take_of_length_le hshort, drop_eq_nil_of_le hshort]
  rw [drop_eq_nil_of_le (by simp [hsrc, hdst, hlen]; omega), append_nil]

theorem buildIcmpv6Ptb_eq {original : Bytes} (mtu : UInt32) (hlen : IPV6_HEADER_LEN ≤ original.length) :
    ∃ src dst body, (original.slice? 8 24 = some src ∧ original.slice? 24 40 = some dst ∧
        original.slice? 0 (min original.length 512) = some body) ∧
      buildIcmpv6Ptb original mtu = (icmpv6Checksum dst src (ptbMessage 0 mtu body)).map fun checksum =>
        some (ptbHeader dst src (ptbMessage checksum mtu body).length ++ ptbMessage checksum mtu body) := by
  have h40 : 40 ≤ original.length := hlen
  obtain ⟨src, hsrc, hsrclen⟩ := @yields_slice? _ original 8 24 (by omega) (by omega)
  obtain ⟨dst, hdst, hdstlen⟩ := @yields_slice? _ original 24 40 (by omega) (by omega)
  obtain ⟨body, hbody, hbodylen⟩ := @yields_slice? _ original 0 (min original.length 512) (by omega) (by omega)
  rw [Nat.sub_zero] at hbodylen
  refine ⟨src, dst, body, ⟨hsrc, hdst, hbody⟩, ?_⟩
  have hchecksum : ∀ checksum : UInt16, (ptbMessage 0 mtu body).copyAt? 2 (beBytes 2 checksum.toBitVec) =
      some (ptbMessage checksum mtu body) :=
    fun checksum => @copyAt?_append _ _ _ [2, 0] _ _ rfl (by rw [length_beBytes, length_beBytes])
  have hlength : ∀ checksum : UInt16, 8 + min original.length 512 = (ptbMessage checksum mtu body).length := by
    simp [ptbMessage, hbodylen]
    omega
  unfold buildIcmpv6Ptb
  rw [if_neg (not_lt.mpr hlen), hsrc, hdst]
  simp only [bind_eq_bind, bind_some, hbody]
  rw [bind_ptbMessage mtu hbodylen]
  rw [map_eq_bind]
  refine congrArg _ (funext fun checksum => ?_)
  rw [hchecksum, bind_some, hlength checksum, bind_ptbHeader hdstlen hsrclen]
  rfl

theorem sum_ptbMessage_le {src dst : Bytes} (hsrc : src.length = 16) (hdst : dst.length = 16) (len : Nat) (mtu : UInt32)
    (body : Bytes) : (wordsOf (pseudoHeader src dst len ++ ptbMessage 0 mtu body)).sum ≤
      32768 * (body.length + 49) := by
  have hle := OnesComplement.sum_wordsOf_le (pseudoHeader src dst len ++ ptbMessage 0 mtu body)
  simp [pseudoHeader, ptbMessage, hsrc, hdst] at hle ⊢
  omega

theorem exists_buildIcmpv6Ptb (original : Bytes) (mtu : UInt32) : ∃ ptb, buildIcmpv6Ptb original mtu = some ptb := by
  by_cases hlen : original.length < IPV6_HEADER_LEN
  · exact ⟨none, if_pos hlen⟩
  obtain ⟨src, dst, body, ⟨hsrc, hdst, hbody⟩, heq⟩ := buildIcmpv6Ptb_eq mtu (not_lt.mp hlen)
  have hle := sum_ptbMessage_le (length_of_slice? hdst) (length_of_slice? hsrc) (ptbMessage 0 mtu body).length mtu body
  have hbodylen := length_of_slice? hbody
  rw [heq, icmpv6Checksum_eq (length_of_slice? hdst) (length_of_slice? hsrc) (by omega)]
  exact ⟨_, rfl⟩

theorem sum_wordsOf_ptbMessage {head : Bytes} (hhead : head.length % 2 = 0) (checksum : UInt16) (mtu : UInt32)
    (body : Bytes) :
    (wordsOf (head ++ ptbMessage checksum mtu body)).sum =
      (wordsOf head).sum + (512 + (checksum.toNat + (wordsOf (beBytes 4 mtu.toBitVec ++ body)).sum)) := by
  rw [ptbMessage, OnesComplement.wordsOf_append _ hhead, OnesComplement.wordsOf_append _ rfl,
    OnesComplement.wordsOf_append _ (by rw [length_beBytes]), wordsOf_beBytes_two]
  simp [wordsOf]

theorem toNat_checksum : (~~~(foldCarries sum).toUInt16).toNat + (foldCarries sum).toNat = 65535 := by
  have hlt := (toNat_foldCarries sum).1
  simp [UInt16.toNat_not]
  omega

/-- The answer to a packet has its payload length, the addresses of the packet the other way round, and its start. The
ones' complement sum over pseudo-header and message is all ones, and no `u32` addition overflows. -/
theorem buildIcmpv6Ptb_well_formed {original : Bytes} (mtu : UInt32) (hlen : IPV6_HEADER_LEN ≤ original.length) :
    ∃ packet src dst, buildIcmpv6Ptb original mtu = some (some packet) ∧
      (packet.slice? 4 6).map (fun bs => (ofBeBytes 16 bs).toNat) = some (packet.length - IPV6_HEADER_LEN) ∧
      (original.slice? 8 24 = some src ∧ packet.slice? 24 40 = some src) ∧
      (original.slice? 24 40 = some dst ∧ packet.slice? 8 24 = some dst) ∧
      packet.drop (IPV6_HEADER_LEN + 8) = original.take (min 512 original.length) ∧
      OnesComplement.sum (pseudoHeader dst src (packet.length - IPV6_HEADER_LEN) ++ packet.drop IPV6_HEADER_LEN) =
        0xFFFF ∧
      (wordsOf (pseudoHeader dst src (packet.length - IPV6_HEADER_LEN) ++ packet.drop IPV6_HEADER_LEN)).sum <
        2 ^ 32 := by
  obtain ⟨src, dst, body, ⟨hsrc, hdst, hbody⟩, heq⟩ := buildIcmpv6Ptb_eq mtu hlen
  have hsrclen := length_of_slice? hsrc
  have hdstlen := length_of_slice? hdst
  have hbodylen := length_of_slice? hbody
  have hbound := sum_ptbMessage_le hdstlen hsrclen (ptbMessage 0 mtu body).length mtu body
  rw [icmpv6Checksum_eq hdstlen hsrclen (by omega), map_some] at heq
  have hpacket : ∀ checksum : UInt16, (ptbMessage checksum mtu body).length = 8 + min original.length 512 := by
    simp [ptbMessage, hbodylen]
    omega
  have hpseudo : (pseudoHeader dst src (8 + min original.length 512)).length = 40 := by
    simp [pseudoHeader, hsrclen, hdstlen]
  have hheader : (ptbHeader dst src (8 + min original.length 512)).length = IPV6_HEADER_LEN := by
    simp [ptbHeader, hsrclen, hdstlen, IPV6_HEADER_LEN]
  have heven : (pseudoHeader dst src (8 + min original.length 512)).length % 2 = 0 := by rw [hpseudo]
  have hzero := sum_wordsOf_ptbMessage heven 0 mtu body
  rw [show UInt16.toNat 0 = 0 from rfl] at hzero
  simp only [hpacket] at heq hbound
  -- the words without the checksum do not overflow, and the checksum makes up for their remainder
  generalize (wordsOf (pseudoHeader dst src (8 + min original.length 512) ++ ptbMessage 0 mtu body)).sum = total
    at heq hbound hzero
  have hnat : (UInt32.ofNat total).toNat = total := UInt32.toNat_ofNat_of_lt' (by unfold UInt32.size; omega)
  have hfold := toNat_foldCarries (UInt32.ofNat total)
  have hchecksum := toNat_checksum (UInt32.ofNat total)
  generalize ~~~(foldCarries (UInt32.ofNat total)).toUInt16 = checksum at heq hchecksum
  have hwords := sum_wordsOf_ptbMessage heven checksum mtu body
  refine ⟨_, src, dst, heq, ?_⟩
  rw [List.drop_left' hheader, length_append, hheader, hpacket, Nat.add_sub_cancel_left]
  refine ⟨?_, ⟨hsrc, ?_⟩, ⟨hdst, ?_⟩, ?_, OnesComplement.sum_eq_of_dvd ?_ ?_, ?_⟩
  · have hslice := @slice?_append _ 4 6 [0x60, 0, 0, 0] (beBytes 2 (BitVec.ofNat 16 (8 + min original.length 512)))
      ([58, 255] ++ dst ++ src ++ ptbMessage checksum mtu body) rfl (by simp)
    have hofBe := ofBeBytes_beBytes (BitVec.ofNat 16 (8 + min original.length 512)) (n := 2) rfl
    simp only [ptbHeader, List.append_assoc] at hslice ⊢
    rw [hslice, map_some, hofBe, BitVec.toNat_ofNat, Nat.mod_eq_of_lt (by omega)]
  · rw [ptbHeader, List.append_assoc]
    exact slice?_append (by simp [hdstlen]) (by omega)
  · rw [ptbHeader, List.append_assoc, List.append_assoc]
    exact slice?_append (by simp) (by omega)
  · rw [← drop_drop, List.drop_left' hheader, min_comm]
    rw [slice?_of_le (zero_le _) (min_le_left _ _)] at hbody
    rw [ptbMessage, ← List.append_assoc, ← List.append_assoc, List.drop_left' (by simp), ← some.inj hbody]
    rfl
  · omega
  · omega
  · omega

theorem buildIcmpv6Ptb_well_formed_short : ∃ packet, buildIcmpv6Ptb (List.replicate 40 0x60) 1280 = some (some packet) ∧
    (packet.slice? 4 6).map (fun bs => (ofBeBytes 16 bs).toNat) = some (packet.length - IPV6_HEADER_LEN) := by
  obtain ⟨packet, _, _, hbuild, hlength, -⟩ := @buildIcmpv6Ptb_well_formed (replicate 40 0x60) 1280 (by decide)
  exact ⟨packet, hbuild, hlength⟩

end Yggdrasil
