import Mathlib.Data.Vector.Defs
import Yggdrasil.Base.Words
import Yggdrasil.KeyStore.Store

/-!
# Crypto-key routing

The route tables of `ckr.rs`. Addresses are right-aligned in a `u128`; the width of the family, 32 or 128, is the
parameter `bits`.
-/

theorem List.findSome?_eq_some_iff_of_pairwise {α β : Type*} {r : α → α → Prop} {f : α → Option β} {xs : List α}
    {b : β} (hxs : xs.Pairwise r) (hasymm : ∀ x y, r x y → ¬ r y x) :
    xs.findSome? f = some b ↔ ∃ x ∈ xs, f x = some b ∧ ∀ y ∈ xs, r y x → f y = none := by
  rw [findSome?_eq_some_iff]
  constructor
  · rintro ⟨before, x, after, rfl, hx, hbefore⟩
    refine ⟨x, mem_append_right _ mem_cons_self, hx, fun y hy hyx => ?_⟩
    rw [pairwise_append, pairwise_cons] at hxs
    rcases mem_append.mp hy with hy | hy
    · exact hbefore y hy
    rcases mem_cons.mp hy with rfl | hy
    · exact absurd hyx (hasymm _ _ hyx)
    · exact absurd hyx (hasymm _ _ (hxs.2.1.1 y hy))
  rintro ⟨x, hx, hfx, hleast⟩
  obtain ⟨before, after, rfl⟩ := append_of_mem hx
  refine ⟨before, x, after, rfl, hfx, fun y hy => ?_⟩
  rw [pairwise_append] at hxs
  exact hleast y (mem_append_left _ hy) (hxs.2.2 y hy x mem_cons_self)

theorem List.mem_of_mapM_eq_ok {ε α β : Type} {f : α → Except ε β} {xs : List α} {ys : List β}
    (h : xs.mapM f = .ok ys) : (∀ x ∈ xs, ∃ y ∈ ys, f x = .ok y) ∧ ∀ y ∈ ys, ∃ x ∈ xs, f x = .ok y := by
  induction xs generalizing ys with
  | nil =>
    cases h
    exact ⟨nofun, nofun⟩
  | cons x xs ih =>
    rw [mapM_cons] at h
    cases hx : f x with
    | error e =>
      rw [hx] at h
      cases h
    | ok y =>
      rw [hx] at h
      cases hxs : xs.mapM f with
      | error e =>
        rw [hxs] at h
        cases h
      | ok rest =>
        rw [hxs] at h
        cases h
        obtain ⟨hleft, hright⟩ := ih hxs
        constructor
        · intro x' hx'
          rcases mem_cons.mp hx' with rfl | hx'
          · exact ⟨y, mem_cons_self, hx⟩
          obtain ⟨y', hy', hok⟩ := hleft x' hx'
          exact ⟨y', mem_cons_of_mem _ hy', hok⟩
        intro y' hy'
        rcases mem_cons.mp hy' with rfl | hy'
        · exact ⟨x, mem_cons_self, hx⟩
        obtain ⟨x', hx', hok⟩ := hright y' hy'
        exact ⟨x', mem_cons_of_mem _ hx', hok⟩

namespace Yggdrasil
open Nat Option
open List hiding Vector

inductive IpAddr
  | v4 (addr : Vector UInt8 4)
  | v6 (addr : Address)
deriving DecidableEq

def addrBits {n : Nat} (addr : Vector UInt8 n) : BitVec 128 := BitVec.ofBeBytes 128 addr.toList

def maskAddr (addr : BitVec 128) (prefixLen : UInt8) (bits : Nat) : BitVec 128 :=
  if prefixLen = 0 then 0
  else
    let shift := bits - prefixLen.toNat
    (addr >>> shift) <<< shift

/-! ## Masked addresses -/

section Mask
variable {bits n : Nat} {prefixLen : UInt8} {addr network : BitVec 128}

theorem addrBits_lt (addr : Vector UInt8 n) : (addrBits addr).toNat < 2 ^ (8 * n) := by
  unfold addrBits BitVec.ofBeBytes BitVec.ofWords
  refine lt_of_le_of_lt (mod_le _ _) ?_
  have hlt := ofDigits_lt_base_pow_length (b := 2 ^ 8)
    (l := (addr.toList.reverse.map UInt8.toBitVec).map BitVec.toNat) (by omega) ?_
  · rw [length_map, length_map, length_reverse, Vector.length_toList, ← pow_mul] at hlt
    exact hlt
  intro x hx
  obtain ⟨y, -, rfl⟩ := List.mem_map.mp hx
  exact y.isLt

theorem toNat_maskAddr (h : addr.toNat < 2 ^ bits) : (maskAddr addr prefixLen bits).toNat =
    addr.toNat / 2 ^ (bits - prefixLen.toNat) * 2 ^ (bits - prefixLen.toNat) := by
  unfold maskAddr
  split
  next hzero =>
    rw [hzero]
    show 0 = addr.toNat / 2 ^ (bits - 0) * 2 ^ (bits - 0)
    rw [Nat.sub_zero, Nat.div_eq_of_lt h, Nat.zero_mul]
  have hle := div_mul_le_self addr.toNat (2 ^ (bits - prefixLen.toNat))
  rw [BitVec.toNat_shiftLeft, BitVec.toNat_ushiftRight, shiftRight_eq_div_pow, shiftLeft_eq]
  exact mod_eq_of_lt (lt_of_le_of_lt hle addr.isLt)

theorem maskAddr_lt (h : addr.toNat < 2 ^ bits) : (maskAddr addr prefixLen bits).toNat < 2 ^ bits := by
  rw [toNat_maskAddr h]
  exact lt_of_le_of_lt (div_mul_le_self _ _) h

theorem maskAddr_maskAddr (h : addr.toNat < 2 ^ bits) :
    maskAddr (maskAddr addr prefixLen bits) prefixLen bits = maskAddr addr prefixLen bits := by
  apply BitVec.eq_of_toNat_eq
  rw [toNat_maskAddr (maskAddr_lt h), toNat_maskAddr h, Nat.mul_div_cancel _ (Nat.two_pow_pos _)]

def maskAddr? (addr : BitVec 128) (prefixLen : UInt8) (bits : Nat) : Option (BitVec 128) :=
  if prefixLen = 0 then some 0
  else if bits < prefixLen.toNat then none
  else
    let shift := bits - prefixLen.toNat
    if shift < 128 then some ((addr >>> shift) <<< shift) else none

theorem maskAddr?_eq (hle : prefixLen.toNat ≤ bits) (hbits : bits ≤ 128) :
    maskAddr? addr prefixLen bits = some (maskAddr addr prefixLen bits) := by
  unfold maskAddr? maskAddr
  split
  · rfl
  next hne =>
    have hpos : prefixLen.toNat ≠ 0 := fun hzero => hne (UInt8.toNat_inj.mp hzero)
    have hshift : bits - prefixLen.toNat < 128 := by omega
    rw [if_neg (not_lt.mpr hle)]
    exact if_pos hshift

/-- The prefix contains the address: they agree on the first `prefixLen` of their `bits` bits. -/
def PrefixOf (bits : Nat) (network : BitVec 128) (prefixLen : UInt8) (addr : BitVec 128) : Prop :=
  addr.toNat / 2 ^ (bits - prefixLen.toNat) = network.toNat / 2 ^ (bits - prefixLen.toNat)

instance (bits : Nat) (network : BitVec 128) (prefixLen : UInt8) (addr : BitVec 128) :
    Decidable (PrefixOf bits network prefixLen addr) := inferInstanceAs (Decidable (_ = _))

theorem prefixOf_maskAddr (h : network.toNat < 2 ^ bits) :
    PrefixOf bits (maskAddr network prefixLen bits) prefixLen addr ↔ PrefixOf bits network prefixLen addr := by
  unfold PrefixOf
  rw [toNat_maskAddr h, Nat.mul_div_cancel _ (Nat.two_pow_pos _)]

theorem maskAddr_eq_iff (haddr : addr.toNat < 2 ^ bits) (hlt : network.toNat < 2 ^ bits)
    (hnetwork : maskAddr network prefixLen bits = network) :
    maskAddr addr prefixLen bits = network ↔ PrefixOf bits network prefixLen addr := by
  have heq : maskAddr addr prefixLen bits = network ↔
      maskAddr addr prefixLen bits = maskAddr network prefixLen bits := by
    rw [hnetwork]
  rw [heq, ← BitVec.toNat_inj, toNat_maskAddr haddr, toNat_maskAddr hlt]
  exact Nat.mul_left_inj (Nat.two_pow_pos _).ne'

end Mask

/-- `ipnet::Ipv4Net` and `ipnet::Ipv6Net`: an address of `n` bytes and a prefix length. -/
structure Net (n : Nat) where
  addr : Vector UInt8 n
  prefixLen : UInt8
  prefixLen_le : prefixLen.toNat ≤ 8 * n

abbrev Ipv6Net := Net 16

inductive IpNet
  | v4 (net : Net 4)
  | v6 (net : Net 16)

def Net.network {n : Nat} (net : Net n) : BitVec 128 := maskAddr (addrBits net.addr) net.prefixLen (8 * n)

def Net.contains {n : Nat} (net : Net n) (addr : Vector UInt8 n) : Bool :=
  maskAddr (addrBits addr) net.prefixLen (8 * n) == net.network

theorem Net.network_lt {n : Nat} (net : Net n) : net.network.toNat < 2 ^ (8 * n) := maskAddr_lt (addrBits_lt _)

/-! ## Route tables -/

def comparePrefixLen (a b : UInt8) : Ordering := compare b a

instance : Std.TransCmp comparePrefixLen := inferInstanceAs (Std.TransCmp fun a b : UInt8 => compare b a)

instance : Std.LawfulEqCmp comparePrefixLen := inferInstanceAs (Std.LawfulEqCmp fun a b : UInt8 => compare b a)

/-- One hash map for each prefix length, from network addresses to keys. -/
abbrev Levels := Std.TreeMap UInt8 (HashMap (BitVec 128) PublicKey) comparePrefixLen

def Levels.Masked (bits : Nat) (levels : Levels) : Prop :=
  ∀ prefixLen level network dest, levels[prefixLen]? = some level → level.lookup network = some dest →
    prefixLen.toNat ≤ bits ∧ network.toNat < 2 ^ bits ∧ maskAddr network prefixLen bits = network

theorem Levels.masked_empty (bits : Nat) : Levels.Masked bits ∅ := by
  intro prefixLen level network dest hlevel
  cases hlevel

theorem Levels.lookup_getD {levels : Levels} {prefixLen : UInt8} {network : BitVec 128} {dest : PublicKey}
    (h : (levels.getD prefixLen ∅).lookup network = some dest) :
    ∃ level, levels[prefixLen]? = some level ∧ level.lookup network = some dest := by
  rw [Std.TreeMap.getD_eq_getD_getElem?] at h
  cases hlevel : levels[prefixLen]? with
  | none =>
    rw [hlevel] at h
    cases h
  | some level =>
    rw [hlevel] at h
    exact ⟨level, rfl, h⟩

theorem Levels.Masked.insert {bits : Nat} {levels : Levels} (h : levels.Masked bits) {prefixLen : UInt8}
    {network : BitVec 128} (hle : prefixLen.toNat ≤ bits) (hlt : network.toNat < 2 ^ bits)
    (hnetwork : maskAddr network prefixLen bits = network) (dest : PublicKey) :
    Levels.Masked bits (levels.insert prefixLen ((levels.getD prefixLen ∅).insert network dest)) := by
  intro prefixLen' level network' dest' hlevel hdest
  rw [Std.TreeMap.getElem?_insert] at hlevel
  split at hlevel
  next heq =>
    obtain rfl := Std.LawfulEqCmp.compare_eq_iff_eq.mp heq
    cases hlevel
    rw [HashMap.lookup_insert] at hdest
    split at hdest
    next hkey =>
      rw [hkey]
      exact ⟨hle, hlt, hnetwork⟩
    obtain ⟨old, hold, hdest⟩ := Levels.lookup_getD hdest
    exact h _ old network' dest' hold hdest
  · exact h _ level network' dest' hlevel hdest

/-- The keys of the prefixes of one address family. -/
structure RouteTable (bits : Nat) where
  levels : Levels
  len : Nat
  masked : levels.Masked bits

namespace RouteTable
variable {bits n : Nat}

def new (bits : Nat) : RouteTable bits where
  levels := ∅
  len := 0
  masked := Levels.masked_empty bits

def insert (self : RouteTable (8 * n)) (net : Net n) (destination : PublicKey) : Bool × RouteTable (8 * n) :=
  let key := maskAddr net.network net.prefixLen (8 * n)
  let level := self.levels.getD net.prefixLen ∅
  let present := (level.lookup key).isSome
  (!present,
    { levels := self.levels.insert net.prefixLen (level.insert key destination)
      len := if present then self.len else self.len + 1
      masked := self.masked.insert net.prefixLen_le (maskAddr_lt net.network_lt) (maskAddr_maskAddr net.network_lt) _ })

variable (self : RouteTable bits)

def get (addr : BitVec 128) : Option PublicKey :=
  self.levels.toList.findSome? fun entry => entry.2.lookup (maskAddr addr entry.1 bits)

def Routes (network : BitVec 128) (prefixLen : UInt8) (dest : PublicKey) : Prop :=
  ∃ level, self.levels[prefixLen]? = some level ∧ level.lookup network = some dest

/-- The longest of the prefixes of the table that contain the address leads to the key. -/
def LongestMatch (addr : BitVec 128) (dest : PublicKey) : Prop :=
  ∃ network prefixLen, self.Routes network prefixLen dest ∧ PrefixOf bits network prefixLen addr ∧
    ∀ network' prefixLen' dest', self.Routes network' prefixLen' dest' → PrefixOf bits network' prefixLen' addr →
      prefixLen' ≤ prefixLen

variable {prefixLen : UInt8} {dest : PublicKey} {network : BitVec 128} {routes : List (Net n × PublicKey)}

theorem lookup_maskAddr {self : RouteTable bits} {addr : BitVec 128} (haddr : addr.toNat < 2 ^ bits) :
    (∃ level, self.levels[prefixLen]? = some level ∧ level.lookup (maskAddr addr prefixLen bits) = some dest) ↔
      ∃ network, self.Routes network prefixLen dest ∧ PrefixOf bits network prefixLen addr := by
  constructor
  · rintro ⟨level, hlevel, hdest⟩
    obtain ⟨-, hlt, hnetwork⟩ := self.masked prefixLen level _ dest hlevel hdest
    exact ⟨_, ⟨level, hlevel, hdest⟩, (maskAddr_eq_iff haddr hlt hnetwork).mp rfl⟩
  rintro ⟨network, ⟨level, hlevel, hdest⟩, hprefix⟩
  obtain ⟨-, hlt, hnetwork⟩ := self.masked prefixLen level network dest hlevel hdest
  rw [← (maskAddr_eq_iff haddr hlt hnetwork).mpr hprefix] at hdest
  exact ⟨level, hlevel, hdest⟩

theorem get_eq_some_iff {addr : BitVec 128} (haddr : addr.toNat < 2 ^ bits) :
    self.get addr = some dest ↔ self.LongestMatch addr dest := by
  have hmem : ∀ entry : UInt8 × HashMap (BitVec 128) PublicKey,
      entry ∈ self.levels.toList ↔ self.levels[entry.1]? = some entry.2 :=
    fun entry => Std.TreeMap.mem_toList_iff_getElem?_eq_some
  have hlt : ∀ a b : UInt8, comparePrefixLen a b = .lt ↔ b < a := fun a b => Std.compare_eq_lt
  unfold get
  rw [findSome?_eq_some_iff_of_pairwise Std.TreeMap.ordered_keys_toList
    fun x y hxy hyx => UInt8.lt_asymm ((hlt _ _).mp hxy) ((hlt _ _).mp hyx)]
  constructor
  · rintro ⟨entry, hentry, hdest, hfirst⟩
    obtain ⟨network, hroutes, hprefix⟩ := (lookup_maskAddr haddr).mp ⟨entry.2, (hmem entry).mp hentry, hdest⟩
    refine ⟨network, entry.1, hroutes, hprefix, fun network' prefixLen' dest' hroutes' hprefix' => ?_⟩
    obtain ⟨level, hlevel, hdest'⟩ := (lookup_maskAddr haddr).mpr ⟨network', hroutes', hprefix'⟩
    -- a longer prefix would have been looked at before
    by_contra hlong
    have hnone := hfirst (prefixLen', level) ((hmem _).mpr hlevel) ((hlt _ _).mpr (UInt8.not_le.mp hlong))
    rw [hdest'] at hnone
    cases hnone
  rintro ⟨network, prefixLen, hroutes, hprefix, hlongest⟩
  obtain ⟨level, hlevel, hdest⟩ := (lookup_maskAddr haddr).mpr ⟨network, hroutes, hprefix⟩
  refine ⟨(prefixLen, level), (hmem _).mpr hlevel, hdest, fun entry hentry hbefore => ?_⟩
  rw [eq_none_iff_forall_not_mem]
  intro dest' hdest'
  obtain ⟨network', hroutes', hprefix'⟩ := (lookup_maskAddr haddr).mp ⟨entry.2, (hmem entry).mp hentry, hdest'⟩
  exact UInt8.not_le.mpr ((hlt _ _).mp hbefore) (hlongest network' entry.1 dest' hroutes' hprefix')

/-! ## Sequences of insertions -/

def find (network : BitVec 128) (prefixLen : UInt8) : Option PublicKey :=
  self.levels[prefixLen]?.bind fun level => level.lookup network

theorem routes_iff_find {self : RouteTable bits} :
    self.Routes network prefixLen dest ↔ self.find network prefixLen = some dest := by
  unfold Routes find
  rw [bind_eq_some_iff]

theorem find_eq_lookup_getD (network : BitVec 128) (prefixLen : UInt8) :
    self.find network prefixLen = (self.levels.getD prefixLen ∅).lookup network := by
  unfold find
  rw [Std.TreeMap.getD_eq_getD_getElem?]
  cases self.levels[prefixLen]? with
  | none | some level => rfl

theorem find_insert (self : RouteTable (8 * n)) (net : Net n) (dest : PublicKey) (network : BitVec 128)
    (prefixLen : UInt8) : (self.insert net dest).2.find network prefixLen =
      if network = net.network ∧ prefixLen = net.prefixLen then some dest else self.find network prefixLen := by
  have hkey : maskAddr net.network net.prefixLen (8 * n) = net.network := maskAddr_maskAddr (addrBits_lt net.addr)
  rw [find_eq_lookup_getD, find_eq_lookup_getD]
  unfold insert
  dsimp only
  rw [hkey, Std.TreeMap.getD_insert]
  by_cases hlen : prefixLen = net.prefixLen
  · subst hlen
    rw [if_pos Std.ReflCmp.compare_self, HashMap.lookup_insert]
    simp
  have hcmp : comparePrefixLen net.prefixLen prefixLen ≠ .eq :=
    fun heq => hlen (Std.LawfulEqCmp.compare_eq_iff_eq.mp heq).symm
  rw [if_neg hcmp]
  simp [hlen]

def insertAll (routes : List (Net n × PublicKey)) : RouteTable (8 * n) :=
  routes.foldl (fun table route => (table.insert route.1 route.2).2) (new (8 * n))

theorem insertAll_concat (routes : List (Net n × PublicKey)) (route : Net n × PublicKey) :
    insertAll (routes ++ [route]) = ((insertAll routes).insert route.1 route.2).2 := by
  unfold insertAll
  rw [foldl_append]
  rfl

def LastOf (routes : List (Net n × PublicKey)) (network : BitVec 128) (prefixLen : UInt8) (dest : PublicKey) : Prop :=
  ∃ before net after, routes = before ++ (net, dest) :: after ∧ net.network = network ∧ net.prefixLen = prefixLen ∧
    ∀ route ∈ after, ¬ (route.1.network = network ∧ route.1.prefixLen = prefixLen)

theorem lastOf_concat {route : Net n × PublicKey} : LastOf (routes ++ [route]) network prefixLen dest ↔
      if network = route.1.network ∧ prefixLen = route.1.prefixLen then route.2 = dest
      else LastOf routes network prefixLen dest := by
  constructor
  · rintro ⟨before, net, after, heq, rfl, rfl, hafter⟩
    rcases eq_nil_or_concat after with rfl | ⟨after, last, rfl⟩
    · obtain ⟨rfl, hroute⟩ := append_inj' heq rfl
      rw [singleton_inj.mp hroute, if_pos ⟨rfl, rfl⟩]
    rw [concat_eq_append, ← cons_append, ← append_assoc] at heq
    obtain ⟨rfl, hroute⟩ := append_inj' heq rfl
    rw [concat_eq_append] at hafter
    have hlast := hafter last (mem_append_right _ (mem_singleton_self _))
    rw [singleton_inj.mp hroute, if_neg fun h => hlast ⟨h.1.symm, h.2.symm⟩]
    exact ⟨before, net, after, rfl, rfl, rfl, fun r hr => hafter r (mem_append_left _ hr)⟩
  split
  next h =>
    rintro rfl
    exact ⟨routes, route.1, [], rfl, h.1.symm, h.2.symm, nofun⟩
  next h =>
    rintro ⟨before, net, after, rfl, rfl, rfl, hafter⟩
    refine ⟨before, net, after ++ [route], by rw [append_assoc, cons_append], rfl, rfl, fun r hr => ?_⟩
    rcases mem_append.mp hr with hr | hr
    · exact hafter r hr
    rw [mem_singleton.mp hr]
    exact fun hsame => h ⟨hsame.1.symm, hsame.2.symm⟩

theorem find_insertAll (routes : List (Net n × PublicKey)) (network : BitVec 128) (prefixLen : UInt8)
    (dest : PublicKey) :
    (insertAll routes).find network prefixLen = some dest ↔ LastOf routes network prefixLen dest := by
  induction routes using List.reverseRecOn with
  | nil =>
    constructor
    · intro h
      cases h
    rintro ⟨before, net, after, heq, -⟩
    exact absurd heq.symm (by simp)
  | append_singleton routes route ih =>
    rw [insertAll_concat, find_insert, lastOf_concat]
    split
    · exact some_inj
    · exact ih

def prefixOf (route : Net n × PublicKey) : BitVec 128 × UInt8 := (route.1.network, route.1.prefixLen)

theorem exists_lastOf :
    (∃ dest, LastOf routes network prefixLen dest) ↔ (network, prefixLen) ∈ routes.map prefixOf := by
  induction routes using List.reverseRecOn with
  | nil =>
    constructor
    · rintro ⟨dest, before, net, after, heq, -⟩
      exact absurd heq.symm (by simp)
    intro h
    exact absurd h not_mem_nil
  | append_singleton routes route ih =>
    simp only [lastOf_concat]
    rw [map_append, mem_append, ← ih, map_singleton, mem_singleton, prefixOf, Prod.mk.injEq]
    split
    next h => simp [h]
    next h => simp [h]

theorem len_insertAll (routes : List (Net n × PublicKey)) :
    (insertAll routes).len = (routes.map prefixOf).toFinset.card := by
  induction routes using List.reverseRecOn with
  | nil => rfl
  | append_singleton routes route ih =>
    have hpresent : ((insertAll routes).find route.1.network route.1.prefixLen).isSome = true ↔
        prefixOf route ∈ (routes.map prefixOf).toFinset := by
      rw [isSome_iff_exists, List.mem_toFinset]
      simp only [find_insertAll]
      exact exists_lastOf
    have hlen : ((insertAll routes).insert route.1 route.2).2.len =
        if ((insertAll routes).find route.1.network route.1.prefixLen).isSome then (insertAll routes).len
        else (insertAll routes).len + 1 := by
      rw [find_eq_lookup_getD]
      unfold insert
      dsimp only
      rw [show maskAddr route.1.network route.1.prefixLen (8 * n) = route.1.network from
        maskAddr_maskAddr (addrBits_lt _)]
    rw [insertAll_concat, hlen, ih, map_append, map_singleton, toFinset_append, Finset.union_comm]
    show _ = (Insert.insert (prefixOf route) (routes.map prefixOf).toFinset).card
    rw [Finset.card_insert_eq_ite]
    simp only [hpresent]

theorem exists_mem_of_level {level : HashMap (BitVec 128) PublicKey}
    (h : (insertAll routes).levels[prefixLen]? = some level) :
    ∃ route ∈ routes, route.1.prefixLen = prefixLen := by
  induction routes using List.reverseRecOn generalizing level with
  | nil =>
    cases h
  | append_singleton routes route ih =>
    rw [insertAll_concat] at h
    unfold insert at h
    rw [Std.TreeMap.getElem?_insert] at h
    split at h
    next heq =>
      exact ⟨route, mem_append_right _ (mem_singleton_self _), Std.LawfulEqCmp.compare_eq_iff_eq.mp heq⟩
    obtain ⟨route', hroute', hlen⟩ := ih h
    exact ⟨route', mem_append_left _ hroute', hlen⟩

theorem exists_routes_of_mem {route : Net n × PublicKey} (h : route ∈ routes) :
    ∃ dest, (insertAll routes).Routes route.1.network route.1.prefixLen dest := by
  simp only [routes_iff_find, find_insertAll]
  exact exists_lastOf.mpr (mem_map_of_mem h)

theorem Routes.exists_mem (h : (insertAll routes).Routes network prefixLen dest) :
    ∃ route ∈ routes, route.1.network = network ∧ route.1.prefixLen = prefixLen := by
  rw [routes_iff_find, find_insertAll] at h
  obtain ⟨before, net, after, rfl, hnetwork, hlen, -⟩ := h
  exact ⟨(net, dest), mem_append_right _ mem_cons_self, hnetwork, hlen⟩

theorem get_insertAll (routes : List (Net n × PublicKey)) (addr : Vector UInt8 n) (dest : PublicKey) :
    (insertAll routes).get (addrBits addr) = some dest ↔ ∃ before net after, routes = before ++ (net, dest) :: after ∧
        PrefixOf (8 * n) (addrBits net.addr) net.prefixLen (addrBits addr) ∧
        (∀ route ∈ routes, PrefixOf (8 * n) (addrBits route.1.addr) route.1.prefixLen (addrBits addr) →
          route.1.prefixLen ≤ net.prefixLen) ∧
        ∀ route ∈ after, ¬ (route.1.network = net.network ∧ route.1.prefixLen = net.prefixLen) := by
  have hmask : ∀ net : Net n, PrefixOf (8 * n) net.network net.prefixLen (addrBits addr) ↔
      PrefixOf (8 * n) (addrBits net.addr) net.prefixLen (addrBits addr) :=
    fun net => prefixOf_maskAddr (addrBits_lt net.addr)
  rw [get_eq_some_iff _ (addrBits_lt addr)]
  constructor
  · rintro ⟨network, prefixLen, hroutes, hprefix, hlongest⟩
    rw [routes_iff_find, find_insertAll] at hroutes
    obtain ⟨before, net, after, hsplit, rfl, rfl, hafter⟩ := hroutes
    refine ⟨before, net, after, hsplit, (hmask net).mp hprefix, fun route hroute hcontains => ?_, hafter⟩
    obtain ⟨dest', hdest'⟩ := exists_routes_of_mem hroute
    exact hlongest _ _ dest' hdest' ((hmask route.1).mpr hcontains)
  rintro ⟨before, net, after, hsplit, hprefix, hlongest, hafter⟩
  refine ⟨net.network, net.prefixLen, ?_, (hmask net).mpr hprefix,
    fun network' prefixLen' dest' hroutes' hprefix' => ?_⟩
  · rw [routes_iff_find, find_insertAll]
    exact ⟨before, net, after, hsplit, rfl, rfl, hafter⟩
  obtain ⟨route, hroute, rfl, rfl⟩ := hroutes'.exists_mem
  exact hlongest route hroute ((hmask route.1).mp hprefix')

theorem get_insertAll_eq_none (routes : List (Net n × PublicKey)) (addr : Vector UInt8 n) :
    (insertAll routes).get (addrBits addr) = none ↔
      ∀ route ∈ routes, ¬ PrefixOf (8 * n) (addrBits route.1.addr) route.1.prefixLen (addrBits addr) := by
  unfold get
  rw [findSome?_eq_none_iff]
  constructor
  · intro hnone route hroute hprefix
    obtain ⟨dest, hroutes⟩ := exists_routes_of_mem hroute
    obtain ⟨level, hlevel, hdest⟩ := (lookup_maskAddr (addrBits_lt addr)).mpr
      ⟨_, hroutes, (prefixOf_maskAddr (addrBits_lt route.1.addr)).mpr hprefix⟩
    have := hnone (route.1.prefixLen, level) (Std.TreeMap.mem_toList_iff_getElem?_eq_some.mpr hlevel)
    rw [hdest] at this
    cases this
  intro hnone entry hentry
  rw [eq_none_iff_forall_not_mem]
  intro dest hdest
  obtain ⟨network, hroutes, hprefix⟩ := (lookup_maskAddr (addrBits_lt addr)).mp
    ⟨entry.2, Std.TreeMap.mem_toList_iff_getElem?_eq_some.mp hentry, hdest⟩
  obtain ⟨route, hroute, rfl, hlen⟩ := hroutes.exists_mem
  rw [← hlen] at hprefix
  exact hnone route hroute ((prefixOf_maskAddr (addrBits_lt route.1.addr)).mp hprefix)

end RouteTable

/-- Longest-prefix match: the last insertion of the longest prefix that contains the address answers, `len` counts the
prefixes, and no shift of `mask_addr` is out of range. -/
theorem routeTable_lookup (n : Nat) (hn : n = 4 ∨ n = 16) (routes : List (Net n × PublicKey)) (addr : Vector UInt8 n) :
    ((RouteTable.insertAll routes).get (addrBits addr) = none ↔
      ∀ route ∈ routes, ¬ PrefixOf (8 * n) (addrBits route.1.addr) route.1.prefixLen (addrBits addr)) ∧
    (∀ dest, (RouteTable.insertAll routes).get (addrBits addr) = some dest ↔
      ∃ before net after, routes = before ++ (net, dest) :: after ∧
        PrefixOf (8 * n) (addrBits net.addr) net.prefixLen (addrBits addr) ∧
        (∀ route ∈ routes, PrefixOf (8 * n) (addrBits route.1.addr) route.1.prefixLen (addrBits addr) →
          route.1.prefixLen ≤ net.prefixLen) ∧
        ∀ route ∈ after, ¬ (route.1.network = net.network ∧ route.1.prefixLen = net.prefixLen)) ∧
    (RouteTable.insertAll routes).len = (routes.map fun route => (route.1.network, route.1.prefixLen)).toFinset.card ∧
    (∀ route ∈ routes, maskAddr? route.1.network route.1.prefixLen (8 * n) =
      some (maskAddr route.1.network route.1.prefixLen (8 * n))) ∧
    ∀ entry ∈ (RouteTable.insertAll routes).levels.toList, maskAddr? (addrBits addr) entry.1 (8 * n) =
      some (maskAddr (addrBits addr) entry.1 (8 * n)) := by
  have hbits : 8 * n ≤ 128 := by omega
  refine ⟨RouteTable.get_insertAll_eq_none routes addr, RouteTable.get_insertAll routes addr,
    RouteTable.len_insertAll routes, fun route _ => maskAddr?_eq route.1.prefixLen_le hbits, fun entry hentry => ?_⟩
  obtain ⟨route, -, hlen⟩ :=
    RouteTable.exists_mem_of_level (Std.TreeMap.mem_toList_iff_getElem?_eq_some.mp hentry)
  rw [← hlen]
  exact maskAddr?_eq route.1.prefixLen_le hbits

def exampleRoutes : List (Net 4 × PublicKey) :=
  [(⟨#v[10, 0, 0, 0], 8, by decide⟩, 1), (⟨#v[10, 1, 0, 5], 16, by decide⟩, 2)]

theorem routeTable_lookup_longer : (RouteTable.insertAll exampleRoutes).get (addrBits #v[10, 1, 2, 3]) = some 2 := by
  refine ((routeTable_lookup 4 (Or.inl rfl) exampleRoutes #v[10, 1, 2, 3]).2.1 2).mpr ?_
  exact ⟨[(⟨#v[10, 0, 0, 0], 8, by decide⟩, 1)], ⟨#v[10, 1, 0, 5], 16, by decide⟩, [], rfl, by decide, by decide, nofun⟩

/-! ## The table of a node -/

/-- The tables of a node. -/
structure CryptoKey where
  yggdrasilRouting : Bool
  v4 : RouteTable 32
  v6 : RouteTable 128

def isYggdrasilDestination (pfx : UInt8) : IpAddr → Bool
  | .v4 _ => false
  | .v6 addr => isValidAddress pfx addr || isValidSubnet pfx (Address.subnet addr)

namespace CryptoKey

def getPublicKeyForAddress (pfx : UInt8) (self : CryptoKey) : IpAddr → Option PublicKey
  | .v4 addr => self.v4.get (addrBits addr)
  | .v6 addr => if isYggdrasilDestination pfx (.v6 addr) then none else self.v6.get (addrBits addr)

def LongestMatch (self : CryptoKey) : IpAddr → PublicKey → Prop
  | .v4 addr, dest => self.v4.LongestMatch (addrBits addr) dest
  | .v6 addr, dest => self.v6.LongestMatch (addrBits addr) dest

theorem getPublicKeyForAddress_eq_some_iff (pfx : UInt8) (self : CryptoKey) (addr : IpAddr) (dest : PublicKey) :
    self.getPublicKeyForAddress pfx addr = some dest ↔
      isYggdrasilDestination pfx addr = false ∧ self.LongestMatch addr dest := by
  cases addr with
  | v4 addr =>
    show self.v4.get (addrBits addr) = some dest ↔ false = false ∧ self.v4.LongestMatch (addrBits addr) dest
    rw [self.v4.get_eq_some_iff (addrBits_lt addr)]
    exact (and_iff_right rfl).symm
  | v6 addr =>
    show (if isYggdrasilDestination pfx (.v6 addr) then none else self.v6.get (addrBits addr)) = some dest ↔
      isYggdrasilDestination pfx (.v6 addr) = false ∧ self.v6.LongestMatch (addrBits addr) dest
    rw [ite_none_left_eq_some, Bool.not_eq_true, self.v6.get_eq_some_iff (addrBits_lt addr)]

end CryptoKey

end Yggdrasil
