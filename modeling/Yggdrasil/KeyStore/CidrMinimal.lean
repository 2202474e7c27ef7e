import Yggdrasil.KeyStore.CidrExact

/-!
# CIDR expansion is minimal

The blocks of `emit_range` are maximal within what is left of the include. A cover by prefixes has a part in each of
them.
-/

namespace Yggdrasil
open Nat Ranges List

theorem IpNet.isBlock_netBounds (net : IpNet) : IsBlock (netBounds net) := by
  cases net with
  | v4 net | v6 net => exact ⟨_, net.dvd_network, net.toNat_broadcast (by decide)⟩

theorem IpNet.exists_addr (net : IpNet) {x : Nat} (hx : x < 2 ^ net.bits) :
    ∃ addr : IpAddr, net.bits = addr.bits ∧ addr.toNat = x := by
  cases net with
  | v4 net =>
    refine ⟨.v4 (addrOfBits 4 x), rfl, ?_⟩
    exact (toNat_addrBits_addrOfBits (by decide) x).trans (mod_eq_of_lt hx)
  | v6 net =>
    refine ⟨.v6 (addrOfBits 16 x), rfl, ?_⟩
    exact (toNat_addrBits_addrOfBits (by decide) x).trans (mod_eq_of_lt hx)

/-- Ascending and disjoint networks of the family, and no list that contains the same addresses is shorter. -/
structure MinimalCover (bits : Nat) (nets : List IpNet) : Prop where
  family : ∀ net ∈ nets, net.bits = bits
  ascending : (nets.map netBounds).Pairwise fun r s => r.2 < s.1
  minimal : ∀ other : List IpNet,
    (∀ addr, (∃ net ∈ other, net.contains addr = true) ↔ ∃ net ∈ nets, net.contains addr = true) →
      nets.length ≤ other.length

/-- A tiling by maximal blocks is a shortest cover. -/
theorem minimalCover_of_tiles {bits cur hi : Nat} {S : Nat → Prop} {nets : List IpNet}
    (hfamily : ∀ net ∈ nets, net.bits = bits) (h : Tiles S cur hi (nets.map netBounds)) : MinimalCover bits nets := by
  refine ⟨hfamily, h.ascending, fun other hother => ?_⟩
  -- the network of the other list that contains the first address of a block lies in the block
  refine length_le_of_injOn (P := fun net net' : IpNet => net'.bits = bits ∧
    (netBounds net).1 ≤ (netBounds net').1 ∧ (netBounds net').2 ≤ (netBounds net).2) (fun net hnet => ?_) ?_
  · have hmaximal := (h.maximal _ (mem_map_of_mem hnet)).1
    have hle := netBounds_le net
    obtain ⟨addr, hbits, haddr⟩ := net.exists_addr (hle.trans_lt (netBounds_lt net))
    obtain ⟨net', hnet', hcontains⟩ := (hother addr).mpr ⟨net, hnet, (net.contains_iff addr).mpr ⟨hbits, by omega⟩⟩
    obtain ⟨hbits', hbounds⟩ := (net'.contains_iff addr).mp hcontains
    have hsame : net'.bits = bits := by rw [hbits', ← hbits, hfamily net hnet]
    have hwithin : Within S (netBounds net') := by
      intro x hx hx'
      obtain ⟨a, habits, ha⟩ := net'.exists_addr (hx'.trans_lt (netBounds_lt net'))
      obtain ⟨net'', hnet'', hc⟩ := (hother a).mp ⟨net', hnet', (net'.contains_iff a).mpr ⟨habits, by omega⟩⟩
      obtain ⟨-, hin⟩ := (net''.contains_iff a).mp hc
      rw [ha] at hin
      exact (h.covers_iff.mp ⟨_, mem_map_of_mem hnet'', hin⟩).2
    refine ⟨net', hnet', hsame, ?_⟩
    rcases hmaximal.block.nested (x := addr.toNat) net'.isBlock_netBounds (by omega) hbounds with hin | hin
    · have := hmaximal.largest _ net'.isBlock_netBounds hwithin hin.1 hin.2
      omega
    · exact hin
  refine (pairwise_map.mp h.ascending).imp fun hlt net' hnet hnet' => ?_
  have := netBounds_le net'
  omega

/-- What remains of a prefix without excludes is covered by as few prefixes as it can be, and so is every range. -/
theorem subtractMany_minimal :
    (∀ (inc : IpNet) (excludes : List IpNet), ∃ nets, subtractMany inc (mergeExcludes excludes) = some nets ∧
      (∀ x, Covers (nets.map netBounds) x ↔ Covers [netBounds inc] x ∧ ¬ Covers (excludes.map netBounds) x) ∧
      MinimalCover inc.bits nets) ∧
    ∀ bits lo hi : Nat, (bits = 32 ∨ bits = 128) → lo ≤ hi → hi < 2 ^ bits →
      ∃ nets, emitRange lo hi bits [] = some nets ∧
      (∀ x, Covers (nets.map netBounds) x ↔ lo ≤ x ∧ x ≤ hi) ∧ MinimalCover bits nets := by
  refine ⟨fun inc excludes => ?_, fun bits lo hi hbits hle hhi => ?_⟩
  · obtain ⟨hsep, hmerged⟩ := mergeExcludes_covers excludes
    obtain ⟨nets, hsub, hfamily, htiles⟩ := subtractMany_tiled inc hsep
    refine ⟨nets, hsub, fun x => htiles.covers_iff.trans ?_, minimalCover_of_tiles hfamily htiles⟩
    rw [hmerged, covers_singleton]
    exact and_iff_right_of_imp And.left
  obtain ⟨nets, hemit, hfamily, htiles⟩ := emitRange_tiled hbits [] hle hhi
  exact ⟨nets, hemit, fun x => htiles.covers_iff.trans (and_self_iff), minimalCover_of_tiles hfamily htiles⟩

/-- The addresses from 1 to 6. -/
theorem subtractMany_minimal_six : ∃ nets, emitRange 1 6 32 [] = some nets ∧ nets.length = 4 ∧
    (∀ x, Covers (nets.map netBounds) x ↔ 1 ≤ x ∧ x ≤ 6) ∧ MinimalCover 32 nets := by
  obtain ⟨nets, hemit, hcovers, hminimal⟩ := subtractMany_minimal.2 32 1 6 (Or.inl rfl) (by decide) (by decide)
  have hlength : (emitRange 1 6 32 []).map List.length = some 4 := by decide +kernel
  rw [hemit] at hlength
  exact ⟨nets, hemit, Option.some.inj hlength, hcovers, hminimal⟩

end Yggdrasil
