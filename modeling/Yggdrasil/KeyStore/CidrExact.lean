import Yggdrasil.KeyStore.Cidr

/-!
# CIDR expansion is exact
-/

namespace Yggdrasil
open Nat Ranges
open List hiding Vector

/-! ## Networks as ranges -/

section Net
variable {n : Nat}

theorem toNat_addrBits_addrOfBits (hn : 8 * n ≤ 128) (x : Nat) :
    (addrBits (addrOfBits n x)).toNat = x % 2 ^ (8 * n) := by
  have hlist : (addrOfBits n x).toList = BitVec.beBytes n (BitVec.ofNat (8 * n) x) := toList_toArray
  unfold addrBits
  rw [hlist, BitVec.ofBeBytes_beBytes_setWidth 128 _ rfl, BitVec.toNat_setWidth, BitVec.toNat_ofNat]
  refine Nat.mod_eq_of_lt ((Nat.mod_lt _ (Nat.two_pow_pos _)).trans_le (Nat.pow_le_pow_right Nat.two_pos hn))

theorem Net.dvd_network (net : Net n) : 2 ^ (8 * n - net.prefixLen.toNat) ∣ net.network.toNat := by
  unfold Net.network
  rw [toNat_maskAddr (addrBits_lt _)]
  exact dvd_mul_left _ _

section
variable (hn : 8 * n ≤ 128) (net : Net n)
include hn net

theorem Net.toNat_broadcast : net.broadcast.toNat = net.network.toNat + (2 ^ (8 * n - net.prefixLen.toNat) - 1) := by
  have hpos := Nat.two_pow_pos (8 * n - net.prefixLen.toNat)
  have hle : 2 ^ (8 * n - net.prefixLen.toNat) ≤ 2 ^ 128 := Nat.pow_le_pow_right Nat.two_pos (by omega)
  obtain ⟨m, hm⟩ := net.dvd_network
  unfold Net.broadcast
  rw [BitVec.toNat_or, BitVec.toNat_ofNat, Nat.mod_eq_of_lt (by omega), hm]
  exact (two_pow_add_eq_or_of_lt (sub_lt hpos one_pos) m).symm

theorem Net.broadcast_lt : net.broadcast.toNat < 2 ^ (8 * n) := by
  have hlt := net.network_lt
  obtain ⟨m, hm⟩ := net.dvd_network
  have hsplit : 2 ^ (8 * n) = 2 ^ (8 * n - net.prefixLen.toNat) * 2 ^ net.prefixLen.toNat := by
    rw [← Nat.pow_add, Nat.sub_add_cancel net.prefixLen_le]
  rw [net.toNat_broadcast hn, hm]
  rw [hm, hsplit] at hlt
  have hm' := Nat.mul_le_mul_left (2 ^ (8 * n - net.prefixLen.toNat))
    (Nat.succ_le_of_lt (Nat.lt_of_mul_lt_mul_left hlt))
  rw [mul_succ] at hm'
  omega

theorem Net.contains_iff (addr : Vector UInt8 n) : net.contains addr = true ↔
      net.network.toNat ≤ (addrBits addr).toNat ∧ (addrBits addr).toNat ≤ net.broadcast.toNat := by
  have hmasked : maskAddr net.network net.prefixLen (8 * n) = net.network := maskAddr_maskAddr (addrBits_lt _)
  unfold Net.contains
  rw [beq_iff_eq, maskAddr_eq_iff (addrBits_lt _) net.network_lt hmasked, PrefixOf, mem_block_iff net.dvd_network,
    net.toNat_broadcast hn]

theorem Net.network_trunc : net.trunc.network = net.network := by
  have haddr : addrBits net.trunc.addr = net.network := by
    apply BitVec.eq_of_toNat_eq
    show (addrBits (addrOfBits n net.network.toNat)).toNat = _
    rw [toNat_addrBits_addrOfBits hn, Nat.mod_eq_of_lt net.network_lt]
  show maskAddr (addrBits net.trunc.addr) net.prefixLen (8 * n) = net.network
  rw [haddr]
  exact maskAddr_maskAddr (addrBits_lt _)

end

end Net

def IpAddr.bits : IpAddr → Nat
  | v4 _ => 32
  | v6 _ => 128

def IpAddr.toNat : IpAddr → Nat
  | v4 addr => (addrBits addr).toNat
  | v6 addr => (addrBits addr).toNat

variable (net : IpNet)

theorem IpNet.contains_iff (addr : IpAddr) : net.contains addr = true ↔
    net.bits = addr.bits ∧ (netBounds net).1 ≤ addr.toNat ∧ addr.toNat ≤ (netBounds net).2 := by
  cases net with
  | v4 net =>
    cases addr with
    | v4 addr => exact (net.contains_iff (by decide) addr).trans (and_iff_right rfl).symm
    | v6 addr => exact iff_of_false Bool.false_ne_true fun h => absurd h.1 (ne_of_beq_eq_false rfl)
  | v6 net =>
    cases addr with
    | v4 addr => exact iff_of_false Bool.false_ne_true fun h => absurd h.1 (ne_of_beq_eq_false rfl)
    | v6 addr => exact (net.contains_iff (by decide) addr).trans (and_iff_right rfl).symm

theorem IpNet.contains_trunc (addr : IpAddr) : net.trunc.contains addr = net.contains addr := by
  cases net with
  | v4 net =>
    cases addr with
    | v4 addr =>
      show (_ == net.trunc.network) = (_ == net.network)
      rw [net.network_trunc (by decide)]
      rfl
    | v6 addr => rfl
  | v6 net =>
    cases addr with
    | v4 addr => rfl
    | v6 addr =>
      show (_ == net.trunc.network) = (_ == net.network)
      rw [net.network_trunc (by decide)]
      rfl

theorem IpNet.bits_cases : net.bits = 32 ∨ net.bits = 128 := by
  cases net with
  | v4 => exact .inl rfl
  | v6 => exact .inr rfl

theorem pow_bits_le {bits : Nat} (hbits : bits = 32 ∨ bits = 128) : 2 ^ bits ≤ 2 ^ 128 :=
  Nat.pow_le_pow_right Nat.two_pos (by omega)

theorem u128Sub_of_le {a b : Nat} (hle : b ≤ a) (ha : a < 2 ^ 128) : u128Sub a b = a - b := by
  unfold u128Sub
  rw [show a + 2 ^ 128 - b = a - b + 2 ^ 128 by omega, add_mod_right]
  exact Nat.mod_eq_of_lt (by omega)

theorem u128Sub_u128Add_one {cur block : Nat} (hblock : 0 < block) (h : cur + block ≤ 2 ^ 128) :
    u128Sub (u128Add cur block) 1 = cur + (block - 1) := by
  unfold u128Add
  rcases lt_or_ge (cur + block) (2 ^ 128) with hlt | hge
  · rw [Nat.mod_eq_of_lt hlt, u128Sub_of_le (by omega) hlt]
    omega
  obtain rfl : block = 2 ^ 128 - cur := by omega
  rw [show cur + (2 ^ 128 - cur) = 2 ^ 128 by omega, mod_self]
  unfold u128Sub
  omega

theorem netBounds_le : (netBounds net).1 ≤ (netBounds net).2 := by
  cases net with
  | v4 net | v6 net =>
    show net.network.toNat ≤ net.broadcast.toNat
    rw [net.toNat_broadcast (by decide)]
    exact le_add_right _ _

theorem netBounds_lt : (netBounds net).2 < 2 ^ net.bits := by
  cases net with
  | v4 net | v6 net => exact net.broadcast_lt (by decide)

/-! ## Blocks -/

section Emit
variable {bits : Nat} (hbits : bits = 32 ∨ bits = 128)
include hbits

theorem makeNet_block {cur size : Nat} (hsize : size ≤ bits) (hdvd : 2 ^ size ∣ cur) (hlt : cur < 2 ^ bits) :
    ∃ net, makeNet cur (UInt8.ofNat (bits - size)) bits = some net ∧ net.bits = bits ∧
      netBounds net = (cur, cur + (2 ^ size - 1)) := by
  have hprefix : (UInt8.ofNat (bits - size)).toNat = bits - size := by
    exact Nat.mod_eq_of_lt (by omega)
  have hsub : bits - (bits - size) = size := Nat.sub_sub_self hsize
  have hmask : cur / 2 ^ size * 2 ^ size = cur := Nat.div_mul_cancel hdvd
  -- the same for both widths
  have hnet : ∀ {n : Nat} (net : Net n), 8 * n = bits → net.addr = addrOfBits n cur →
      net.prefixLen = UInt8.ofNat (bits - size) →
      (net.network.toNat, net.broadcast.toNat) = (cur, cur + (2 ^ size - 1)) := by
    intro n net hn haddr hlen
    have hnetwork : net.network.toNat = cur := by
      unfold Net.network
      rw [toNat_maskAddr (addrBits_lt _), haddr, toNat_addrBits_addrOfBits (by omega), hlen, hn, hprefix, hsub,
        Nat.mod_eq_of_lt hlt, hmask]
    rw [net.toNat_broadcast (by omega), hnetwork, hlen, hn, hprefix, hsub]
  unfold makeNet
  rcases hbits with rfl | rfl
  · rw [if_pos rfl, dif_pos (by omega), Nat.mod_eq_of_lt hlt]
    exact ⟨_, rfl, rfl, hnet _ rfl rfl rfl⟩
  rw [if_neg (by decide), dif_pos (by omega)]
  exact ⟨_, rfl, rfl, hnet _ rfl rfl rfl⟩

omit hbits in
theorem two_pow_trailingZeros_dvd (x : Nat) : 2 ^ trailingZeros x ∣ x := by
  apply two_pow_dvd_of_testBit
  intro i hi
  unfold trailingZeros at hi
  cases hfind : (List.range 128).find? fun i => x.testBit i with
  | none =>
    rw [hfind] at hi
    exact Bool.eq_false_iff.mpr (List.find?_eq_none.mp hfind i (mem_range.mpr hi))
  | some j =>
    rw [hfind, Option.getD_some] at hi
    have hbefore := (List.find?_range_eq_some.mp hfind).2.2 i hi
    rwa [Bool.not_eq_true'] at hbefore

omit hbits in
theorem le_trailingZeros_iff {m x : Nat} (hx : x ≠ 0) (hm : m ≤ 128) : m ≤ trailingZeros x ↔ 2 ^ m ∣ x := by
  refine ⟨fun h => (pow_dvd_pow 2 h).trans (two_pow_trailingZeros_dvd x), fun hdvd => ?_⟩
  unfold trailingZeros
  cases hfind : (List.range 128).find? fun i => x.testBit i with
  | none => exact hm
  | some i =>
    have hbit := find?_some hfind
    by_contra hlt
    obtain ⟨c, rfl⟩ := hdvd
    rw [Option.getD_some, not_le] at hlt
    simp [testBit_two_pow_mul, not_le.mpr hlt] at hbit

theorem le_blockSize_iff {cur hi m : Nat} (hle : cur ≤ hi) (hhi : hi < 2 ^ bits) :
    m ≤ blockSize cur hi bits ↔ m ≤ bits ∧ 2 ^ m ∣ cur ∧ cur + (2 ^ m - 1) ≤ hi := by
  have hwidth := pow_bits_le hbits
  have hpos := Nat.two_pow_pos m
  have halign : m ≤ bits → ((m ≤ if cur = 0 then bits else min (trailingZeros cur) bits) ↔ 2 ^ m ∣ cur) := by
    intro hm
    split
    next hzero => simp [hzero, hm]
    next hcur => rw [Nat.le_min, and_iff_left hm, le_trailingZeros_iff hcur (by omega)]
  have hspan : m ≤ bits →
      ((m ≤ if hi - cur = u128Max then 128 else 127 - leadingZeros (hi - cur + 1)) ↔ 2 ^ m ≤ hi - cur + 1) := by
    intro hm
    split
    next hall =>
      have hpow := Nat.pow_le_pow_right Nat.two_pos (show m ≤ 128 by omega)
      rw [hall]
      unfold u128Max
      omega
    next hpart =>
      have hne : hi - cur + 1 ≠ 0 := succ_ne_zero _
      have hlog : (hi - cur + 1).log2 < 128 := (log2_lt hne).mpr (by unfold u128Max at hpart; omega)
      unfold leadingZeros
      rw [if_neg hne, Nat.sub_sub_self (by omega), le_log2 hne]
  unfold blockSize
  dsimp only
  rw [u128Sub_of_le hle (by omega), Nat.le_min, Nat.le_min, and_comm]
  refine and_congr_right fun hm => ?_
  rw [halign hm, hspan hm]
  refine and_congr_right fun _ => ?_
  omega

/-- `result` is `out` with networks behind it that are the maximal blocks of `S` from `cur` to `hi`. -/
def Tiled (bits : Nat) (S : Nat → Prop) (cur hi : Nat) (out : List IpNet) (result : Option (List IpNet)) : Prop :=
  ∃ nets, result = some (out ++ nets) ∧ (∀ net ∈ nets, net.bits = bits) ∧ Tiles S cur hi (nets.map netBounds)

theorem maximal_blockSize {cur hi : Nat} {S : Nat → Prop} (hhi : hi < 2 ^ bits) (hlast : ¬ S (hi + 1)) (hle : cur ≤ hi)
    (hwithin : Within S (cur, hi)) (hcut : Cut S cur) :
    Ranges.Maximal S (cur, cur + (2 ^ blockSize cur hi bits - 1)) := by
  obtain ⟨-, hdvd, hfits⟩ := (le_blockSize_iff hbits hle hhi).mp le_rfl
  refine ⟨⟨_, hdvd, rfl⟩, fun x hx hx' => hwithin x hx (by dsimp only at hx' ⊢; omega), ?_⟩
  rintro ⟨start, stop⟩ hs hS hstart hstop
  dsimp only at hstart hstop ⊢
  have hnot := hcut _ hs hS
  dsimp only at hnot
  obtain rfl : start = cur := by omega
  obtain ⟨m, hdvd', hend⟩ := hs
  dsimp only at hend
  have hin : stop ≤ hi := by
    by_contra hout
    exact hlast (hS (hi + 1) (by dsimp only; omega) (by dsimp only; omega))
  have hpos := Nat.two_pow_pos m
  have hm : m ≤ bits := (Nat.pow_le_pow_iff_right Nat.one_lt_two).mp (by omega)
  have hmax := (le_blockSize_iff hbits hle hhi).mpr ⟨hm, hdvd', by omega⟩
  have hle' := Nat.pow_le_pow_right Nat.two_pos hmax
  omega

theorem emitLoop_tiled {hi : Nat} {S : Nat → Prop} (hhi : hi < 2 ^ bits) (hlast : ¬ S (hi + 1)) :
    ∀ {fuel cur : Nat} (out : List IpNet), cur ≤ hi → hi - cur < fuel → Within S (cur, hi) → Cut S cur →
      Tiled bits S cur hi out (emitLoop hi bits fuel cur out)
  | 0, _, _, _, hfuel, _, _ => absurd hfuel (Nat.not_lt_zero _)
  | fuel + 1, cur, out, hle, hfuel, hwithin, hcut => by
    obtain ⟨hsize, hdvd, hfits⟩ := (le_blockSize_iff hbits hle hhi).mp le_rfl
    obtain ⟨net, hnet, hfamily, hbounds⟩ := makeNet_block hbits hsize hdvd (hle.trans_lt hhi)
    have hmaximal := maximal_blockSize hbits hhi hlast hle hwithin hcut
    have hwidth := pow_bits_le hbits
    unfold emitLoop
    dsimp only
    rw [hnet, Option.bind_some]
    generalize blockSize cur hi bits = size at *
    have hpos := Nat.two_pow_pos size
    have hone := Tiles.single hmaximal
    have hmap : [net].map netBounds = [(cur, cur + (2 ^ size - 1))] := by rw [map_singleton, hbounds]
    have hbitsone : ∀ net' ∈ [net], net'.bits = bits := fun net' h => mem_singleton.mp h ▸ hfamily
    dsimp only at hone
    by_cases hall : size = 128
    · rw [hall] at hfits hone hmap
      obtain rfl : hi = cur + (2 ^ 128 - 1) := by omega
      exact ⟨[net], by rw [if_pos hall], hbitsone, hmap ▸ hone⟩
    rw [if_neg hall, u128Sub_u128Add_one hpos (by omega)]
    by_cases hend : cur + (2 ^ size - 1) ≥ hi
    · obtain rfl : hi = cur + (2 ^ size - 1) := by omega
      exact ⟨[net], by rw [if_pos hend], hbitsone, hmap ▸ hone⟩
    obtain ⟨nets, hloop, hnets, htiles⟩ := emitLoop_tiled hhi hlast (out ++ [net])
      (show cur + (2 ^ size - 1) + 1 ≤ hi by omega) (show _ < fuel by omega)
      (fun x hx => hwithin x (by dsimp only at hx ⊢; omega)) hmaximal.cut
    refine ⟨[net] ++ nets, by rw [if_neg hend, hloop, append_assoc], forall_mem_append.mpr ⟨hbitsone, hnets⟩, ?_⟩
    rw [map_append, hmap]
    exact hone.append htiles (by omega) (by omega)

theorem emitRange_tiled {lo hi : Nat} (out : List IpNet) (hle : lo ≤ hi) (hhi : hi < 2 ^ bits) :
    Tiled bits (fun x => lo ≤ x ∧ x ≤ hi) lo hi out (emitRange lo hi bits out) :=
  emitLoop_tiled hbits hhi (by omega) out hle (lt_succ_self _) (fun x hx hx' => ⟨hx, hx'⟩) (cut_of_not (by omega))

end Emit

/-! ## Excludes -/

structure Merging (done merged : List (Nat × Nat)) : Prop where
  separated : Separated merged
  covers : ∀ x, Covers merged x ↔ Covers done x
  last : ∀ r, merged.getLast? = some r → ∃ s ∈ done, r.1 = s.1
  bounded : ∀ r ∈ merged, r.2 ≤ u128Max

theorem Merging.step {done merged : List (Nat × Nat)} {range : Nat × Nat} (h : Merging done merged)
    (hrange : range.1 ≤ range.2) (hmax : range.2 ≤ u128Max) (hsorted : ∀ s ∈ done, s.1 ≤ range.1) :
    Merging (done ++ [range]) (mergeStep merged range) := by
  have hmem : range ∈ done ++ [range] := mem_append_right _ mem_cons_self
  unfold mergeStep
  rcases eq_nil_or_concat merged with rfl | ⟨front, last, rfl⟩
  · show Merging (done ++ [range]) [range]
    refine ⟨Separated.nil.concat hrange nofun, fun x => ?_, fun r hr => ⟨range, hmem, ?_⟩, fun r hr => ?_⟩
    · rw [covers_append, ← h.covers, or_iff_right (not_covers_nil x)]
    · exact congrArg Prod.fst (Option.some.inj hr).symm
    rw [mem_singleton.mp hr]
    exact hmax
  rw [concat_eq_append] at h ⊢
  rw [getLast?_concat]
  dsimp only
  have hlastmem : last ∈ front ++ [last] := mem_append_right _ mem_cons_self
  have hnonempty := h.separated.nonempty last hlastmem
  have hbehind : ∀ s ∈ front, s.2 < last.1 := fun s hs =>
    (pairwise_append.mp h.separated.ascending).2.2 s hs last mem_cons_self
  have hstart : last.1 ≤ range.1 := by
    obtain ⟨s, hs, heq⟩ := h.last last (getLast?_concat ..)
    rw [heq]
    exact hsorted s hs
  have hlastmax := h.bounded last hlastmem
  split
  next htouch =>
    have hnext : range.1 ≤ last.2 + 1 := htouch.trans (min_le_left _ _)
    rw [dropLast_concat]
    refine ⟨(h.separated.sublist (sublist_append_left _ _)).concat (hnonempty.trans (le_max_left _ _)) hbehind,
      fun x => ?_, fun r hr => ?_, fun r hr => ?_⟩
    · rw [covers_append, covers_append, covers_join hstart hnext, ← h.covers, covers_append, or_assoc]
    · rw [getLast?_concat] at hr
      obtain ⟨s, hs, heq⟩ := h.last last (getLast?_concat ..)
      exact ⟨s, mem_append_left _ hs, by rw [← Option.some.inj hr, ← heq]⟩
    rcases mem_append.mp hr with hr | hr
    · exact h.bounded r (mem_append_left _ hr)
    rw [mem_singleton.mp hr]
    exact Nat.max_le.mpr ⟨hlastmax, hmax⟩
  next hgap =>
    have hlt : last.2 < range.1 := by
      unfold saturatingAdd at hgap
      omega
    refine ⟨h.separated.concat hrange fun s hs => ?_, fun x => ?_, fun r hr => ⟨range, hmem, ?_⟩, fun r hr => ?_⟩
    · rcases mem_append.mp hs with hs | hs
      · have := hbehind s hs
        omega
      rw [mem_singleton.mp hs]
      exact hlt
    · rw [covers_append, h.covers, covers_append]
    · rw [getLast?_concat] at hr
      rw [← Option.some.inj hr]
    rcases mem_append.mp hr with hr | hr
    · exact h.bounded r hr
    rw [mem_singleton.mp hr]
    exact hmax

theorem Merging.foldl : ∀ {rest done merged : List (Nat × Nat)}, Merging done merged → rest.Pairwise rangeLe →
    (∀ s ∈ done, ∀ r ∈ rest, s.1 ≤ r.1) → (∀ r ∈ rest, r.1 ≤ r.2 ∧ r.2 ≤ u128Max) →
    Merging (done ++ rest) (rest.foldl mergeStep merged)
  | [], done, merged, h, _, _, _ => by rwa [append_nil]
  | r :: rest, done, merged, h, hsorted, hdone, hrest => by
    obtain ⟨hfirst, hsorted⟩ := pairwise_cons.mp hsorted
    obtain ⟨hr, hmax⟩ := hrest r mem_cons_self
    have hstep := h.step hr hmax fun s hs => hdone s hs r mem_cons_self
    have hfoldl := hstep.foldl hsorted (fun s hs t ht => ?_) fun t ht => hrest t (mem_cons_of_mem _ ht)
    · rw [append_assoc] at hfoldl
      exact hfoldl
    rcases mem_append.mp hs with hs | hs
    · exact hdone s hs t (mem_cons_of_mem _ ht)
    rw [mem_singleton.mp hs]
    rcases hfirst t ht with hlt | ⟨heq, -⟩
    · exact hlt.le
    · exact heq.le

instance : Std.Total rangeLe := ⟨fun r s => by unfold rangeLe; omega⟩

instance : IsTrans (Nat × Nat) rangeLe := ⟨fun r s t => by unfold rangeLe; omega⟩

theorem mergeExcludes_covers (excludes : List IpNet) :
    Separated (mergeExcludes excludes) ∧ ∀ x, Covers (mergeExcludes excludes) x ↔
      Covers (excludes.map netBounds) x := by
  have hperm := perm_insertionSort rangeLe (excludes.map netBounds)
  have hempty : Merging [] [] := ⟨Separated.nil, fun _ => Iff.rfl, nofun, nofun⟩
  have h := hempty.foldl (pairwise_insertionSort rangeLe (excludes.map netBounds)) nofun fun r hr => ?_
  · exact ⟨h.separated, fun x => (h.covers x).trans (covers_perm hperm)⟩
  obtain ⟨net, -, rfl⟩ := mem_map.mp (hperm.mem_iff.mp hr)
  have hlt := netBounds_lt net
  have hwidth := pow_bits_le net.bits_cases
  exact ⟨netBounds_le net, by unfold u128Max; omega⟩

/-! ## Includes -/

section Subtract
variable {bits incHi : Nat} (hbits : bits = 32 ∨ bits = 128) (hhi : incHi < 2 ^ bits)
include hbits hhi

/-- What is emitted before an exclude from `lo` to `stop`. -/
theorem emitGap_tiled {S : Nat → Prop} {lo stop cur : Nat} (out : List IpNet) (hlo : lo ≤ incHi) (hrange : lo ≤ stop)
    (hbefore : ∀ x, x + 1 = cur → ¬ S x) (hfree : ∀ x, cur ≤ x → x < lo → S x)
    (hcovered : ∀ x, cur ≤ x → lo ≤ x → x ≤ stop → ¬ S x) :
    ∃ gap, (if lo > cur then emitRange cur (u128Sub lo 1) bits out else some out) = some (out ++ gap) ∧
      (∀ net ∈ gap, net.bits = bits) ∧
      ∀ last, lo ≤ last + 1 → cur ≤ last + 1 → last ≤ stop → Tiles S cur last (gap.map netBounds) := by
  by_cases hgap : lo > cur
  · have hwidth := pow_bits_le hbits
    rw [if_pos hgap, u128Sub_of_le (by omega) (by omega)]
    obtain ⟨gap, hemit, hfamily, htiles⟩ := emitLoop_tiled hbits (show lo - 1 < 2 ^ bits by omega)
      (by rw [Nat.sub_add_cancel (by omega)]; exact hcovered lo (by omega) (by omega) hrange) out
      (show cur ≤ lo - 1 by omega) (lt_succ_self _) (fun x hx hx' => hfree x hx (by dsimp only at hx'; omega))
      (cut_of_not hbefore)
    refine ⟨gap, hemit, hfamily, fun last hlast _ hstop => ?_⟩
    have hrest : Tiles S (lo - 1 + 1) last [] := .nil fun x hx hx' => hcovered x (by omega) (by omega) (by omega)
    have := htiles.append hrest (by omega) (by omega)
    rwa [append_nil] at this
  · exact ⟨[], by rw [if_neg hgap, append_nil], nofun, fun last _ _ hstop =>
      .nil fun x hx hx' => hcovered x hx (by omega) (by omega)⟩

/-- What is emitted behind the last exclude that matters. -/
theorem emitRest_tiled {S C : Nat → Prop} {cur : Nat} (out : List IpNet) (hle : cur ≤ incHi)
    (hS : ∀ x, cur ≤ x → (S x ↔ x ≤ incHi ∧ ¬ C x)) (hbefore : ∀ x, x + 1 = cur → ¬ S x)
    (hfree : ∀ x, x ≤ incHi → ¬ C x) : Tiled bits S cur incHi out (emitRange cur incHi bits out) := by
  refine emitLoop_tiled hbits hhi (fun h => ?_) out hle (lt_succ_self _) (fun x hx hx' => ?_) (cut_of_not hbefore)
  · have := ((hS _ (by omega)).mp h).1
    omega
  · exact (hS x hx).mpr ⟨hx', hfree x hx'⟩

theorem subtractLoop_tiled {S : Nat → Prop} : ∀ {excludes : List (Nat × Nat)} {cur : Nat} (out : List IpNet),
    Separated excludes → (∀ r ∈ excludes, cur ≤ r.2) → cur ≤ incHi →
    (∀ x, cur ≤ x → (S x ↔ x ≤ incHi ∧ ¬ Covers excludes x)) → (∀ x, x + 1 = cur → ¬ S x) →
      Tiled bits S cur incHi out (subtractLoop incHi bits excludes cur out)
  | [], _, out, _, _, hle, hS, hbefore => emitRest_tiled hbits hhi out hle hS hbefore fun x _ => not_covers_nil x
  | (lo, stop) :: excludes, cur, out, hsep, hcur, hle, hS, hbefore => by
    have hrange : lo ≤ stop := hsep.nonempty _ mem_cons_self
    have hfirst : cur ≤ stop := hcur _ mem_cons_self
    have hrest : ∀ {r}, r ∈ excludes → stop < r.1 ∧ r.1 ≤ r.2 := fun hr =>
      ⟨hsep.lt_of_mem hr, hsep.nonempty _ (mem_cons_of_mem _ hr)⟩
    have hfree : ∀ x, x < lo → ¬ Covers ((lo, stop) :: excludes) x := by
      rintro x hx ⟨r, hr, hlo, -⟩
      rcases mem_cons.mp hr with rfl | hr
      · exact absurd hlo (by dsimp only; omega)
      have := hrest hr
      omega
    have hcovered : ∀ x, cur ≤ x → lo ≤ x → x ≤ stop → ¬ S x := fun x hcur hx hx' h =>
      ((hS x hcur).mp h).2 ⟨_, mem_cons_self, hx, hx'⟩
    unfold subtractLoop
    by_cases hbeyond : lo > incHi
    · -- this exclude and all behind it start after the include
      rw [if_pos hbeyond]
      exact emitRest_tiled hbits hhi out hle hS hbefore fun x hx => hfree x (by omega)
    rw [if_neg hbeyond]
    obtain ⟨gap, hemit, hfamily, hgap⟩ := emitGap_tiled hbits hhi out (not_lt.mp hbeyond) hrange hbefore
      (fun x hx hlt => (hS x hx).mpr ⟨by omega, hfree x hlt⟩) hcovered
    rw [hemit, Option.bind_some]
    by_cases hend : stop ≥ incHi
    · exact ⟨gap, by rw [if_pos hend], hfamily, hgap incHi (by omega) (by omega) hend⟩
    have hadd : u128Add stop 1 = stop + 1 := by
      have hwidth := pow_bits_le hbits
      exact mod_eq_of_lt (by omega)
    rw [if_neg hend, hadd]
    obtain ⟨nets, hloop, hnets, htiles⟩ := subtractLoop_tiled (out ++ gap) hsep.tail
      (show ∀ r ∈ excludes, stop + 1 ≤ r.2 from fun r hr => by have := hrest hr; omega) (by omega)
      (fun x hx => (hS x (by omega)).trans (and_congr_right fun _ => not_congr
        (by rw [covers_cons]; exact or_iff_right (by dsimp only; omega))))
      (fun x hx => hcovered x (by omega) (by omega) (by omega))
    refine ⟨gap ++ nets, by rw [hloop, append_assoc], forall_mem_append.mpr ⟨hfamily, hnets⟩, ?_⟩
    rw [map_append]
    exact (hgap stop (by omega) (by omega) le_rfl).append htiles (by omega) (by omega)

end Subtract

/-- What remains are the maximal blocks of what is not excluded. -/
theorem subtractMany_tiled (inc : IpNet) {excludes : List (Nat × Nat)} (hsep : Separated excludes) :
    Tiled inc.bits (fun x => Covers [netBounds inc] x ∧ ¬ Covers excludes x) (netBounds inc).1 (netBounds inc).2 []
      (subtractMany inc excludes) :=
  subtractLoop_tiled inc.bits_cases (netBounds_lt inc) [] (hsep.sublist (dropWhile_sublist _))
    (hsep.le_of_mem_dropWhile (netBounds inc).1) (netBounds_le inc)
    (fun x hx => by rw [covers_singleton, covers_dropWhile hx, and_iff_right hx])
    (fun x hx h => by rw [covers_singleton] at h; omega)

theorem subtractMany_covers (inc : IpNet) {excludes : List (Nat × Nat)} (hsep : Separated excludes) :
    ∃ nets, subtractMany inc excludes = some nets ∧ (∀ net ∈ nets, net.bits = inc.bits) ∧
      ∀ x, Covers (nets.map netBounds) x ↔ Covers [netBounds inc] x ∧ ¬ Covers excludes x := by
  obtain ⟨nets, hsub, hfamily, htiles⟩ := subtractMany_tiled inc hsep
  refine ⟨nets, hsub, hfamily, fun x => htiles.covers_iff.trans (and_iff_right_of_imp fun hx => ?_)⟩
  exact covers_singleton.mp hx.1

/-! ## Families -/

def IpAddr.isV4 : IpAddr → Bool
  | v4 _ => true
  | v6 _ => false

theorem IpNet.bits_eq_iff (addr : IpAddr) : net.bits = addr.bits ↔ net.isV4 = addr.isV4 := by
  cases net with
  | v4 net =>
    cases addr with
    | v4 addr => exact iff_of_true rfl rfl
    | v6 addr => exact iff_of_false (ne_of_beq_eq_false rfl) nofun
  | v6 net =>
    cases addr with
    | v4 addr => exact iff_of_false (ne_of_beq_eq_false rfl) nofun
    | v6 addr => exact iff_of_true rfl rfl

theorem exists_contains_iff (nets : List IpNet) {v4 : Bool} (h : ∀ net ∈ nets, net.isV4 = v4) (addr : IpAddr) :
    (∃ net ∈ nets, net.contains addr = true) ↔ v4 = addr.isV4 ∧ Covers (nets.map netBounds) addr.toNat := by
  constructor
  · rintro ⟨net, hnet, hcontains⟩
    obtain ⟨hbits, hbounds⟩ := (net.contains_iff addr).mp hcontains
    rw [IpNet.bits_eq_iff, h net hnet] at hbits
    exact ⟨hbits, netBounds net, mem_map_of_mem hnet, hbounds⟩
  rintro ⟨hv4, range, hrange, hbounds⟩
  obtain ⟨net, hnet, rfl⟩ := mem_map.mp hrange
  refine ⟨net, hnet, (net.contains_iff addr).mpr ⟨?_, hbounds⟩⟩
  rw [IpNet.bits_eq_iff, h net hnet, hv4]

theorem mapM_subtractMany {excludes : List (Nat × Nat)} (hsep : Separated excludes) (v4 : Bool) :
    ∀ {incs : List IpNet}, (∀ inc ∈ incs, inc.isV4 = v4) →
      ∃ nets, (incs.mapM fun inc => subtractMany inc excludes) = some nets ∧ (∀ net ∈ nets.flatten, net.isV4 = v4) ∧
        ∀ x, Covers (nets.flatten.map netBounds) x ↔ Covers (incs.map netBounds) x ∧ ¬ Covers excludes x
  | [], _ => ⟨[], rfl, nofun, fun x => iff_of_false (not_covers_nil x) fun h => not_covers_nil x h.1⟩
  | inc :: incs, h => by
    obtain ⟨nets, hsub, hnets, hcovers⟩ := subtractMany_covers inc hsep
    obtain ⟨rest, hrest, hrestv4, hrestcovers⟩ :=
      mapM_subtractMany hsep v4 fun inc' hinc => h inc' (mem_cons_of_mem _ hinc)
    refine ⟨nets :: rest, ?_, fun net hnet => ?_, fun x => ?_⟩
    · rw [mapM_cons, hsub, hrest]
      rfl
    · rw [flatten_cons] at hnet
      rcases mem_append.mp hnet with hnet | hnet
      · rw [← h inc mem_cons_self]
        have hbits := hnets net hnet
        cases net <;> cases inc <;> first | rfl | exact absurd hbits (ne_of_beq_eq_false rfl)
      · exact hrestv4 net hnet
    have hsplit : Covers ([netBounds inc] ++ incs.map netBounds) x ↔ _ := covers_append
    rw [flatten_cons, map_append, covers_append, hcovers, hrestcovers, ← or_and_right, ← hsplit]
    rfl

def Holds (parsed : List (Bool × IpNet)) (exclude : Bool) (addr : IpAddr) : Prop :=
  ∃ p ∈ parsed, p.1 = exclude ∧ p.2.contains addr = true

variable (parsed : List (Bool × IpNet))

theorem selectNets_isV4 (exclude v4 : Bool) : ∀ net ∈ selectNets parsed exclude v4, net.isV4 = v4 := by
  intro net hnet
  obtain ⟨p, hp, rfl⟩ := mem_map.mp hnet
  have hp := (mem_filter.mp hp).2
  rw [Bool.and_eq_true, beq_iff_eq, beq_iff_eq] at hp
  exact hp.2

theorem holds_selectNets (exclude : Bool) (addr : IpAddr) :
    Holds parsed exclude addr ↔ Covers ((selectNets parsed exclude addr.isV4).map netBounds) addr.toNat := by
  have hcovers := exists_contains_iff _ (selectNets_isV4 parsed exclude addr.isV4) addr
  rw [and_iff_right rfl] at hcovers
  rw [← hcovers]
  constructor
  · rintro ⟨p, hp, hexclude, hcontains⟩
    have hv4 := ((p.2.contains_iff addr).mp hcontains).1
    rw [IpNet.bits_eq_iff] at hv4
    refine ⟨p.2, mem_map_of_mem (mem_filter.mpr ⟨hp, ?_⟩), hcontains⟩
    rw [hexclude, hv4, beq_self_eq_true, beq_self_eq_true, Bool.and_self]
  rintro ⟨net, hnet, hcontains⟩
  obtain ⟨p, hp, rfl⟩ := mem_map.mp hnet
  obtain ⟨hp, hsel⟩ := mem_filter.mp hp
  rw [Bool.and_eq_true, beq_iff_eq] at hsel
  exact ⟨p, hp, hsel.1, hcontains⟩

theorem expandNets_exact : ∃ out, expandNets parsed = some out ∧
    ∀ addr, (∃ net ∈ out, net.contains addr = true) ↔ Holds parsed false addr ∧ ¬ Holds parsed true addr := by
  have hfamily : ∀ v4 : Bool, ∃ nets, ((selectNets parsed false v4).mapM fun inc =>
      subtractMany inc (mergeExcludes (selectNets parsed true v4))) = some nets ∧
      ∀ addr : IpAddr, (∃ net ∈ nets.flatten, net.contains addr = true) ↔
        v4 = addr.isV4 ∧ Holds parsed false addr ∧ ¬ Holds parsed true addr := by
    intro v4
    obtain ⟨hsep, hmerge⟩ := mergeExcludes_covers (selectNets parsed true v4)
    obtain ⟨nets, hmap, hnets, hcovers⟩ := mapM_subtractMany hsep v4 (selectNets_isV4 parsed false v4)
    refine ⟨nets, hmap, fun addr => ?_⟩
    rw [exists_contains_iff _ hnets, hcovers, hmerge]
    refine and_congr_right ?_
    rintro rfl
    rw [holds_selectNets, holds_selectNets]
  obtain ⟨v4, hv4, hv4holds⟩ := hfamily true
  obtain ⟨v6, hv6, hv6holds⟩ := hfamily false
  refine ⟨v4.flatten ++ v6.flatten, ?_, fun addr => ?_⟩
  · unfold expandNets
    dsimp only
    rw [hv4, hv6]
    rfl
  simp only [mem_append, or_and_right, exists_or, hv4holds, hv6holds]
  cases addr.isV4 <;> simp

/-! ## Entries -/

def isMark (c : Char) : Bool := c == '~' || c == '_' || c == '!'

def isLead (c : Char) : Bool := isMark c || isWhitespace c

def entryMarks (entry : String) : List Char := (trim entry).toList.takeWhile isLead

def entryText (entry : String) : String := String.ofList ((trim entry).toList.dropWhile isLead)

/-- The entry is an exclusion: there is an exclamation mark among its marks, in any order. -/
def IsExclusion (entry : String) : Prop := '!' ∈ entryMarks entry

/-- The entry, without its exclamation mark, holds the address. -/
def EntryContains (fromStr : String → Except String IpNet) (entry : String) (addr : IpAddr) : Prop :=
  ∃ net, fromStr (cidrForParse (entryText entry)) = .ok net ∧ net.contains addr = true

def IsLiteral (ckrAdvanced : Bool) (entry : String) : Prop :=
  keyword (trim entry) = none ∧ (ckrAdvanced = true → isRouteList (trim entry) = false)

/-- The parser takes no text that starts with a mark: no CIDR and no address does. -/
def RejectsMarks (fromStr : String → Except String IpNet) : Prop :=
  ∀ s net, fromStr s = .ok net → ∀ c, s.toList.head? = some c → isMark c = false

section Entry
variable {l rest : List Char} {m : Char}

theorem rdropWhile_of_suffix (hl : l.rdropWhile isWhitespace = l) (h : rest <:+ l) :
    rest.rdropWhile isWhitespace = rest := by
  rw [rdropWhile_eq_self_iff] at hl ⊢
  intro hne
  obtain ⟨front, rfl⟩ := h
  have hlast := hl (append_ne_nil_of_right_ne_nil _ hne)
  rwa [getLast_append_of_ne_nil _ hne] at hlast

theorem toList_trim_of_suffix (hl : l.rdropWhile isWhitespace = l) (h : rest <:+ l) :
    (trim (String.ofList rest)).toList = rest.dropWhile isWhitespace := by
  unfold trim
  rw [String.toList_ofList, String.toList_ofList]
  exact rdropWhile_of_suffix hl ((dropWhile_suffix _).trans h)

theorem rdropWhile_trim (s : String) : (trim s).toList.rdropWhile isWhitespace = (trim s).toList := by
  unfold trim
  rw [String.toList_ofList]
  exact rdropWhile_idempotent ..

theorem dropWhile_trim (s : String) : (trim s).toList.dropWhile isWhitespace = (trim s).toList := by
  have hhead := dropWhile_eq_self_iff.mp (dropWhile_idempotent isWhitespace s.toList)
  unfold trim
  rw [String.toList_ofList, dropWhile_eq_self_iff]
  intro hpos
  have hpre := rdropWhile_prefix isWhitespace (s.toList.dropWhile isWhitespace)
  rw [hpre.getElem hpos]
  exact hhead (hpos.trans_le hpre.length_le)

theorem trim_trim (s : String) : trim (trim s) = trim s := by
  have h := toList_trim_of_suffix (rdropWhile_trim s) (suffix_refl _)
  rw [String.ofList_toList, dropWhile_trim] at h
  exact String.toList_inj.mp h

theorem marks_cons (hm : isMark m = true) (rest : List Char) :
    (m :: rest).dropWhile isLead = (rest.dropWhile isWhitespace).dropWhile isLead ∧
      ('!' ∈ (m :: rest).takeWhile isLead ↔ m = '!' ∨ '!' ∈ (rest.dropWhile isWhitespace).takeWhile isLead) := by
  have hmark : isLead m = true := by unfold isLead; rw [hm, Bool.true_or]
  rw [dropWhile_cons_of_pos hmark, takeWhile_cons_of_pos hmark, mem_cons, eq_comm (a := m)]
  induction rest with
  | nil => exact ⟨rfl, Iff.rfl⟩
  | cons c rest ih =>
    cases hc : isWhitespace c with
    | false =>
      have hstop : (c :: rest).dropWhile isWhitespace = c :: rest := by
        rw [dropWhile_cons_of_neg (by rw [hc]; exact Bool.false_ne_true)]
      rw [hstop]
      exact ⟨rfl, Iff.rfl⟩
    | true =>
      have hlead : isLead c = true := by unfold isLead; rw [hc, Bool.or_true]
      have hne : '!' ≠ c := by
        rintro rfl
        exact absurd hc (by decide)
      rw [dropWhile_cons_of_pos hlead, takeWhile_cons_of_pos hlead, dropWhile_cons_of_pos hc,
        mem_cons, or_iff_right hne]
      exact ih

theorem marks_none (hblank : l.dropWhile isWhitespace = l) (hmark : ∀ c, l.head? = some c → isMark c = false) :
    l.dropWhile isLead = l ∧ l.takeWhile isLead = [] := by
  cases l with
  | nil => exact ⟨rfl, rfl⟩
  | cons c rest =>
    have hc : isWhitespace c = false := Bool.eq_false_iff.mpr (dropWhile_eq_self_iff.mp hblank (succ_pos _))
    have hneg : ¬ isLead c = true := by
      unfold isLead
      rw [hmark c rfl, hc]
      exact Bool.false_ne_true
    exact ⟨dropWhile_cons_of_neg hneg, takeWhile_cons_of_neg hneg⟩

theorem stripMark_eq_some {c : Char} {s t : String} (h : stripMark c s = some t) : s.toList = c :: t.toList := by
  unfold stripMark at h
  split at h
  · exact absurd h nofun
  next c' rest heq =>
    rw [Option.ite_none_right_eq_some] at h
    obtain ⟨rfl, ht⟩ := h
    rw [heq, ← Option.some.inj ht, String.toList_ofList]

theorem head?_cidrForParse {s : String} {c : Char} (h : s.toList.head? = some c) :
    (cidrForParse s).toList.head? = some c := by
  have happend : ∀ t : String, (s ++ t).toList.head? = some c := by
    intro t
    rw [String.toList_append, List.head?_append, h]
    rfl
  unfold cidrForParse
  split_ifs
  · exact happend _
  · exact happend _
  · exact h

theorem stripMark_trim {s t : String} (hl : l.rdropWhile isWhitespace = l) (hs : s.toList <:+ l) (hm : isMark m = true)
    (h : stripMark m s = some t) :
    (trim t).toList <:+ l ∧ s.toList.dropWhile isLead = (trim t).toList.dropWhile isLead ∧
      ('!' ∈ s.toList.takeWhile isLead ↔ m = '!' ∨ '!' ∈ (trim t).toList.takeWhile isLead) := by
  have hcons := stripMark_eq_some h
  have hsuffix : t.toList <:+ l := (hcons ▸ suffix_cons m t.toList : t.toList <:+ s.toList).trans hs
  have htrim := toList_trim_of_suffix hl hsuffix
  rw [String.ofList_toList] at htrim
  rw [hcons, htrim]
  exact ⟨(dropWhile_suffix _).trans hsuffix, marks_cons hm t.toList⟩

theorem parseEntry_eq_ok {fromStr : String → Except String IpNet} (hmarks : RejectsMarks fromStr) {entry : String}
    {exclude : Bool} {net : IpNet} (h : parseEntry fromStr (trim entry) = .ok (exclude, net)) :
    (exclude = true ↔ IsExclusion entry) ∧
      ∃ net', fromStr (cidrForParse (entryText entry)) = .ok net' ∧ net = net'.trunc := by
  have hl := rdropWhile_trim entry
  -- the text behind a tilde or an underscore
  obtain ⟨input, hinput, hsuffix, hblank, hdrop, htake⟩ : ∃ input,
      ((stripMark '~' (trim entry)).or (stripMark '_' (trim entry))).elim (trim entry) trim = input ∧
        input.toList <:+ (trim entry).toList ∧ input.toList.dropWhile isWhitespace = input.toList ∧
        (trim entry).toList.dropWhile isLead = input.toList.dropWhile isLead ∧
        ('!' ∈ (trim entry).toList.takeWhile isLead ↔ '!' ∈ input.toList.takeWhile isLead) := by
    cases htilde : stripMark '~' (trim entry) with
    | some t =>
      obtain ⟨hs, hd, ht⟩ := stripMark_trim hl (suffix_refl _) (by decide) htilde
      exact ⟨trim t, rfl, hs, dropWhile_trim t, hd, ht.trans (or_iff_right (by decide))⟩
    | none =>
      cases hunder : stripMark '_' (trim entry) with
      | some t =>
        obtain ⟨hs, hd, ht⟩ := stripMark_trim hl (suffix_refl _) (by decide) hunder
        exact ⟨trim t, rfl, hs, dropWhile_trim t, hd, ht.trans (or_iff_right (by decide))⟩
      | none => exact ⟨trim entry, rfl, suffix_refl _, dropWhile_trim entry, rfl, Iff.rfl⟩
  -- the text behind an exclamation mark
  obtain ⟨cidr, hcidr, hblank', hdrop', htake'⟩ : ∃ cidr, (stripMark '!' input).elim input trim = cidr ∧
      cidr.toList.dropWhile isWhitespace = cidr.toList ∧
      input.toList.dropWhile isLead = cidr.toList.dropWhile isLead ∧ ('!' ∈ input.toList.takeWhile isLead ↔
        (stripMark '!' input).isSome = true ∨ '!' ∈ cidr.toList.takeWhile isLead) := by
    cases hbang : stripMark '!' input with
    | some t =>
      obtain ⟨-, hd, ht⟩ := stripMark_trim hl hsuffix (by decide) hbang
      exact ⟨trim t, rfl, dropWhile_trim t, hd, ht.trans (or_congr_left (iff_of_true rfl rfl))⟩
    | none => exact ⟨input, rfl, hblank, rfl, (or_iff_right Bool.false_ne_true).symm⟩
  unfold parseEntry at h
  dsimp only at h
  rw [hinput, hcidr] at h
  cases hparse : fromStr (cidrForParse cidr) with
  | error e =>
    rw [hparse] at h
    exact absurd h nofun
  | ok net' =>
    rw [hparse] at h
    obtain ⟨rfl, rfl⟩ := Prod.mk.inj (Except.ok.inj h)
    obtain ⟨hd, ht⟩ := marks_none hblank' fun c hc => hmarks _ _ hparse c (head?_cidrForParse hc)
    have htext : entryText entry = cidr := by
      unfold entryText
      rw [hdrop, hdrop', hd, String.ofList_toList]
    refine ⟨?_, net', by rw [htext, hparse], rfl⟩
    unfold IsExclusion entryMarks
    rw [htake, htake', ht, or_iff_left not_mem_nil]

end Entry

/-! ## The whole list -/

theorem resolve_literal {ckrAdvanced : Bool} {routeList : String → Except String (List String)} :
    ∀ {entries : List String}, (∀ e ∈ entries, IsLiteral ckrAdvanced e) →
      entries.mapM (resolveEntry ckrAdvanced routeList) = .ok (entries.map fun e => [trim e])
  | [], _ => rfl
  | e :: entries, h => by
    have hlist : (!ckrAdvanced || !isRouteList (trim e)) = true := by
      cases hadv : ckrAdvanced with
      | false => rfl
      | true => rw [(h e mem_cons_self).2 hadv]; rfl
    have hentry : resolveEntry ckrAdvanced routeList e = .ok [trim e] := by
      unfold resolveEntry
      exact if_pos hlist
    rw [mapM_cons, hentry, resolve_literal fun e' he => h e' (mem_cons_of_mem _ he)]
    rfl

theorem normalize_literal {ckrAdvanced : Bool} : ∀ {entries : List String}, (∀ e ∈ entries, IsLiteral ckrAdvanced e) →
    normalizeSubnetEntries (entries.map fun e => [trim e]).flatten = entries.map trim
  | [], _ => rfl
  | e :: entries, h => by
    have hrest := normalize_literal fun e' he => h e' (mem_cons_of_mem _ he)
    unfold normalizeSubnetEntries at hrest ⊢
    rw [map_cons, flatten_cons, flatMap_append, hrest, flatMap_singleton, trim_trim, (h e mem_cons_self).1]
    rfl

/-- Expanding literal entries ends; if it succeeds, its networks hold the addresses that some entry without an
exclamation mark holds and none with one does. -/
theorem expandCidrs_exact (ckrAdvanced : Bool) (routeList : String → Except String (List String))
    {fromStr : String → Except String IpNet} (hmarks : RejectsMarks fromStr) {entries : List String}
    (hliteral : ∀ e ∈ entries, IsLiteral ckrAdvanced e) :
    ∃ r, expandCidrs ckrAdvanced routeList fromStr entries = some r ∧ ∀ out, r = .ok out → ∀ addr : IpAddr,
      (∃ net ∈ out, net.contains addr = true) ↔ (∃ e ∈ entries, ¬ IsExclusion e ∧ EntryContains fromStr e addr) ∧
          ¬ ∃ e ∈ entries, IsExclusion e ∧ EntryContains fromStr e addr := by
  unfold expandCidrs
  rw [resolve_literal hliteral]
  dsimp only
  rw [normalize_literal hliteral]
  cases hparsed : (entries.map trim).mapM (parseEntry fromStr) with
  | error e => exact ⟨_, rfl, nofun⟩
  | ok parsed =>
    obtain ⟨out, hout, hexact⟩ := expandNets_exact parsed
    obtain ⟨hforward, hback⟩ := mem_of_mapM_eq_ok hparsed
    refine ⟨.ok out, by dsimp only; rw [hout]; rfl, fun out' heq addr => ?_⟩
    obtain rfl := Except.ok.inj heq
    -- an entry and its network say the same
    have hholds : ∀ exclude, Holds parsed exclude addr ↔
        ∃ e ∈ entries, (exclude = true ↔ IsExclusion e) ∧ EntryContains fromStr e addr := by
      intro exclude
      constructor
      · rintro ⟨⟨_, net⟩, hp, rfl, hcontains⟩
        obtain ⟨raw, hraw, hok⟩ := hback _ hp
        obtain ⟨e, he, rfl⟩ := mem_map.mp hraw
        obtain ⟨hmark, net', hnet', rfl⟩ := parseEntry_eq_ok hmarks hok
        rw [IpNet.contains_trunc] at hcontains
        exact ⟨e, he, hmark, net', hnet', hcontains⟩
      rintro ⟨e, he, hmark, net, hnet, hcontains⟩
      obtain ⟨⟨exclude', net'⟩, hp, hok⟩ := hforward (trim e) (mem_map_of_mem he)
      obtain ⟨hmark', net'', hnet'', rfl⟩ := parseEntry_eq_ok hmarks hok
      rw [hnet] at hnet''
      obtain rfl := Except.ok.inj hnet''
      refine ⟨_, hp, ?_, ?_⟩
      · exact Bool.eq_iff_iff.mpr (hmark'.trans hmark.symm)
      rw [IpNet.contains_trunc]
      exact hcontains
    rw [hexact, hholds, hholds]
    simp only [Bool.false_eq_true, false_iff, true_iff]

def sampleFromStr (s : String) : Except String IpNet :=
  if s = "10.0.0.0/30" then
    .ok (.v4 { addr := .ofFn fun i => if i.val = 0 then 10 else 0, prefixLen := 30, prefixLen_le := by decide })
  else if s = "10.0.0.1/32" then .ok (.v4 { addr := #v[10, 0, 0, 1], prefixLen := 32, prefixLen_le := by decide })
  else .error "invalid IP address syntax"

theorem rejectsMarks_sampleFromStr : RejectsMarks sampleFromStr := by
  intro s net h c hc
  have hs : s = "10.0.0.0/30" ∨ s = "10.0.0.1/32" := by
    by_contra hne
    obtain ⟨hfirst, hsecond⟩ := not_or.mp hne
    unfold sampleFromStr at h
    rw [if_neg hfirst, if_neg hsecond] at h
    exact absurd h nofun
  have hone : s.toList.head? = some '1' := by
    rcases hs with rfl | rfl <;> decide
  rw [hone] at hc
  rw [← Option.some.inj hc]
  decide

theorem expandCidrs_exact_hole : RejectsMarks sampleFromStr ∧
    (∀ e ∈ [" 10.0.0.0/30", "~! 10.0.0.1"], IsLiteral true e) ∧
    ∃ out, expandCidrs true (fun _ => .ok []) sampleFromStr [" 10.0.0.0/30", "~! 10.0.0.1"] = some (.ok out) ∧
      ∀ addr : IpAddr, (∃ net ∈ out, net.contains addr = true) ↔
        (∃ e ∈ [" 10.0.0.0/30", "~! 10.0.0.1"], ¬ IsExclusion e ∧ EntryContains sampleFromStr e addr) ∧
          ¬ ∃ e ∈ [" 10.0.0.0/30", "~! 10.0.0.1"], IsExclusion e ∧ EntryContains sampleFromStr e addr := by
  have hliteral : ∀ e ∈ [" 10.0.0.0/30", "~! 10.0.0.1"], IsLiteral true e := by
    intro e he
    rcases mem_cons.mp he with rfl | he
    · exact ⟨by decide, fun _ => by decide⟩
    rw [mem_singleton.mp he]
    exact ⟨by decide, fun _ => by decide⟩
  obtain ⟨r, hr, hexact⟩ := expandCidrs_exact true (fun _ => .ok []) rejectsMarks_sampleFromStr hliteral
  have hok : (expandCidrs true (fun _ => .ok []) sampleFromStr [" 10.0.0.0/30", "~! 10.0.0.1"]).map Except.toBool =
    some true := by decide +kernel
  rw [hr, Option.map_some] at hok
  cases r with
  | error e => exact absurd (Option.some.inj hok) Bool.false_ne_true
  | ok out => exact ⟨rejectsMarks_sampleFromStr, hliteral, out, hr, hexact out rfl⟩

end Yggdrasil
