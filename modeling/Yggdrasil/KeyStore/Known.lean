import Yggdrasil.Base.Run
import Yggdrasil.KeyStore.Store

/-!
# The address of a known key

Several keys may share an address or a subnet. `addr_to_info` and `subnet_to_info` then hold the key that came last,
while `cleanup` removes the address and the subnet of every key that expires, whoever holds them.
-/

namespace HashMap
variable {K V A : Type*} [DecidableEq K] [DecidableEq A]

def Owned (f : K → A) (index : HashMap A K) : Prop := ∀ a k, index.lookup a = some k → f k = a

def Finds (f : K → A) (known : HashMap K V) (index : HashMap A K) : Prop :=
  ∀ k, (known.lookup k).isSome → ∃ k', index.lookup (f k) = some k' ∧ (known.lookup k').isSome

variable {f : K → A} {known : HashMap K V} {index : HashMap A K} {keys : List K}

theorem Finds.insert (h : Finds f known index) (k : K) (v : V) :
    Finds f (known.insert k v) (index.insert (f k) k) := by
  intro k' hk'
  by_cases hf : f k' = f k
  · exact ⟨k, by simp [lookup_insert, hf], by simp [lookup_insert]⟩
  have hne : k' ≠ k := fun heq => hf (congrArg f heq)
  rw [lookup_insert, if_neg hne] at hk'
  obtain ⟨k₁, hindex, hk₁⟩ := h k' hk'
  refine ⟨k₁, by rw [lookup_insert, if_neg hf, hindex], ?_⟩
  rw [lookup_insert]
  split
  · rfl
  · exact hk₁

def removeAll (f : K → A) (keys : List K) (m : HashMap A V) : HashMap A V := keys.foldl (fun m k => m.remove (f k)) m

omit [DecidableEq K] in
theorem lookup_removeAll {m : HashMap A V} {a : A} {v : V} :
    (m.removeAll f keys).lookup a = some v ↔ m.lookup a = some v ∧ ∀ k ∈ keys, a ≠ f k := by
  unfold removeAll
  induction keys generalizing m with
  | nil => simp
  | cons k keys ih =>
    rw [List.foldl_cons, ih, lookup_remove, Option.ite_none_left_eq_some, List.forall_mem_cons]
    tauto

theorem Finds.removeAll_iff (h : Finds f known index) (howned : Owned f index) :
    Finds f (known.removeAll id keys) (index.removeAll f keys) ↔
      ∀ k ∈ keys, ∀ k' ∉ keys, (known.lookup k').isSome → f k' ≠ f k := by
  have hkept : ∀ k, ((known.removeAll id keys).lookup k).isSome ↔ (known.lookup k).isSome ∧ k ∉ keys := by
    intro k
    simp only [Option.isSome_iff_exists, lookup_removeAll, id_eq, exists_and_right, and_congr_right_iff]
    exact fun _ => ⟨fun hne hmem => hne k hmem rfl, fun hmem k' hk' heq => hmem (heq ▸ hk')⟩
  constructor
  · intro h' k hk k' hk' hsome heq
    obtain ⟨k₁, hlookup, -⟩ := h' k' ((hkept k').mpr ⟨hsome, hk'⟩)
    exact (lookup_removeAll.mp hlookup).2 k hk heq
  intro hapart k hk
  obtain ⟨hsome, hmem⟩ := (hkept k).mp hk
  obtain ⟨k₁, hlookup, hsome₁⟩ := h k hsome
  have hk₁ : k₁ ∉ keys := fun hmem₁ => hapart k₁ hmem₁ k hmem hsome (howned _ _ hlookup).symm
  exact ⟨k₁, lookup_removeAll.mpr ⟨hlookup, fun k₂ hk₂ => hapart k₂ hk₂ k hmem hsome⟩, (hkept k₁).mpr ⟨hsome₁, hk₁⟩⟩

end HashMap

namespace Yggdrasil

/-- The infos are those of their keys, and the two maps hold keys under their own address and subnet. -/
structure KeyStoreLookups.Consistent (pfx : UInt8) (lookups : KeyStoreLookups) : Prop where
  keyToInfo : ∀ k info, lookups.keyToInfo.lookup k = some info →
    info.address = addrForKey pfx k ∧ info.subnet = subnetForKey pfx k
  addrToInfo : HashMap.Owned (addrForKey pfx) lookups.addrToInfo
  subnetToInfo : HashMap.Owned (subnetForKey pfx) lookups.subnetToInfo

section
open HashMap
variable {pfx : UInt8} {lookups : KeyStoreLookups} (h : lookups.Consistent pfx)
include h

theorem KeyStoreLookups.Consistent.learn (key : PublicKey) (now : Instant) : KeyStoreLookups.Consistent pfx
      { keyToInfo := lookups.keyToInfo.insert key
          { address := addrForKey pfx key, subnet := subnetForKey pfx key, lastSeen := now }
        addrToInfo := lookups.addrToInfo.insert (addrForKey pfx key) key
        subnetToInfo := lookups.subnetToInfo.insert (subnetForKey pfx key) key } where
  keyToInfo := forall_insert h.keyToInfo ⟨rfl, rfl⟩
  addrToInfo := forall_insert h.addrToInfo rfl
  subnetToInfo := forall_insert h.subnetToInfo rfl

theorem KeyStoreLookups.Consistent.removeKey (key : PublicKey) :
    (ReadWriteCloser.removeKey lookups key).Consistent pfx := by
  unfold ReadWriteCloser.removeKey
  split
  next info _ =>
    constructor
    · exact forall_remove h.keyToInfo key
    · exact forall_remove h.addrToInfo info.address
    · exact forall_remove h.subnetToInfo info.subnet
  · exact h

theorem KeyStoreLookups.Consistent.removeKeys (keys : List PublicKey) :
    (keys.foldl ReadWriteCloser.removeKey lookups).Consistent pfx := by
  induction keys generalizing lookups with
  | nil => exact h
  | cons key keys ih => exact ih (h.removeKey key)

end

namespace ReadWriteCloser
open List
variable (pfx : UInt8)

/-- Every known key is found by its address and by its subnet. -/
structure Reachable (lookups : KeyStoreLookups) : Prop where
  addrs : HashMap.Finds (addrForKey pfx) lookups.keyToInfo lookups.addrToInfo
  subnets : HashMap.Finds (subnetForKey pfx) lookups.keyToInfo lookups.subnetToInfo

def expiredKeys (self : ReadWriteCloser) (now : Instant) : List PublicKey :=
  (self.lookups.keyToInfo.toList.filter fun entry => KEY_STORE_TIMEOUT < elapsed now entry.2.lastSeen).map Prod.fst

/-- No key that expires shares its address or its subnet with a known key that does not. -/
def Apart (self : ReadWriteCloser) (now : Instant) : Prop :=
  ∀ k ∈ self.expiredKeys now, ∀ k' ∉ self.expiredKeys now, (self.lookups.keyToInfo.lookup k').isSome →
    addrForKey pfx k' ≠ addrForKey pfx k ∧ subnetForKey pfx k' ≠ subnetForKey pfx k

variable {pfx} {self : ReadWriteCloser} {lookups : KeyStoreLookups}

theorem foldl_removeKey (keys : List PublicKey) : ∀ {lookups : KeyStoreLookups}, keys.Nodup →
    (∀ key info, lookups.keyToInfo.lookup key = some info →
      info.address = addrForKey pfx key ∧ info.subnet = subnetForKey pfx key) →
    (∀ k ∈ keys, (lookups.keyToInfo.lookup k).isSome) → keys.foldl removeKey lookups =
      { keyToInfo := lookups.keyToInfo.removeAll id keys
        addrToInfo := lookups.addrToInfo.removeAll (addrForKey pfx) keys
        subnetToInfo := lookups.subnetToInfo.removeAll (subnetForKey pfx) keys } := by
  induction keys with
  | nil => exact fun _ _ _ => rfl
  | cons key keys ih =>
    intro lookups hnodup hinfos hknown
    rw [nodup_cons] at hnodup
    obtain ⟨info, hinfo⟩ := Option.isSome_iff_exists.mp (hknown key mem_cons_self)
    obtain ⟨haddr, hsubnet⟩ := hinfos key info hinfo
    have hkey : removeKey lookups key =
        { keyToInfo := lookups.keyToInfo.remove key, addrToInfo := lookups.addrToInfo.remove (addrForKey pfx key)
          subnetToInfo := lookups.subnetToInfo.remove (subnetForKey pfx key) } := by
      simp only [removeKey, hinfo, haddr, hsubnet]
    rw [foldl_cons, hkey, ih hnodup.2 (HashMap.forall_remove hinfos key)]
    · rfl
    intro k hk
    have hne : k ≠ key := by
      rintro rfl
      exact hnodup.1 hk
    rw [HashMap.lookup_remove, if_neg hne]
    exact hknown k (mem_cons_of_mem _ hk)

theorem Reachable.updateKey (h : Reachable pfx self.lookups) (key : PublicKey) (now : Instant) :
    Reachable pfx (self.updateKey pfx key now).2.lookups := by
  rw [ReadWriteCloser.updateKey]
  split
  · exact h
  · exact ⟨h.addrs.insert key _, h.subnets.insert key _⟩

theorem consistent_updateKey (h : self.lookups.Consistent pfx) (key : PublicKey) (now : Instant) :
    (self.updateKey pfx key now).2.lookups.Consistent pfx := by
  rw [ReadWriteCloser.updateKey]
  split
  · exact h
  · exact h.learn key now

theorem consistent_cleanup (h : self.lookups.Consistent pfx) (now : Instant) :
    (self.cleanup now).lookups.Consistent pfx := h.removeKeys (self.expiredKeys now)

theorem Reachable.cleanup_iff (hreach : Reachable pfx self.lookups) (h : self.lookups.Consistent pfx) (now : Instant) :
    Reachable pfx (self.cleanup now).lookups ↔ self.Apart pfx now := by
  have hknown : ∀ k ∈ self.expiredKeys now, (self.lookups.keyToInfo.lookup k).isSome := by
    intro k hk
    obtain ⟨⟨k', info⟩, hmem, rfl⟩ := mem_map.mp hk
    exact Option.isSome_iff_exists.mpr ⟨info, HashMap.mem_toList.mp (mem_filter.mp hmem).1⟩
  have hfold : (self.cleanup now).lookups = _ :=
    foldl_removeKey (self.expiredKeys now) (HashMap.nodup_filter_toList _ _) h.keyToInfo hknown
  rw [hfold]
  constructor
  · intro h' k hk k' hk' hsome
    exact ⟨(hreach.addrs.removeAll_iff h.addrToInfo).mp h'.addrs k hk k' hk' hsome,
      (hreach.subnets.removeAll_iff h.subnetToInfo).mp h'.subnets k hk k' hk' hsome⟩
  · intro hapart
    exact ⟨(hreach.addrs.removeAll_iff h.addrToInfo).mpr fun k hk k' hk' hsome => (hapart k hk k' hk' hsome).1,
      (hreach.subnets.removeAll_iff h.subnetToInfo).mpr fun k hk k' hk' hsome => (hapart k hk k' hk' hsome).2⟩

/-! ## All calls -/

inductive Op where
  | updateKey (key : PublicKey) (now : Instant)
  | cleanup (now : Instant)

def exec (pfx : UInt8) (self : ReadWriteCloser) : Op → ReadWriteCloser
  | .updateKey key now => (self.updateKey pfx key now).2
  | .cleanup now => self.cleanup now

def Spares (pfx : UInt8) (self : ReadWriteCloser) : Op → Prop
  | .updateKey _ _ => True
  | .cleanup now => self.Apart pfx now

/-- **Known keys stay reachable** if no key expires that shares its address or subnet with one that does not; and a
further `cleanup` leaves them reachable exactly if it is such a one. -/
theorem known_keys_reachable (pfx : UInt8) (publicKey : PublicKey) (ops : List Op)
    (hops : Lts.Admitted (exec pfx) (Spares pfx) (new pfx publicKey) ops) :
    Reachable pfx (ops.foldl (exec pfx) (new pfx publicKey)).lookups ∧
      ∀ now, Reachable pfx ((ops.foldl (exec pfx) (new pfx publicKey)).cleanup now).lookups ↔
        (ops.foldl (exec pfx) (new pfx publicKey)).Apart pfx now := by
  have hrun : Lts.Run (fun s op t => Spares pfx s op ∧ t = exec pfx s op) _ ops _ := hops.run fun s op hok => ⟨hok, rfl⟩
  obtain ⟨hconsistent, hreach⟩ := hrun.invariant (I := fun s => s.lookups.Consistent pfx ∧ Reachable pfx s.lookups)
    ⟨⟨by simp [new], by simp [new, HashMap.Owned], by simp [new, HashMap.Owned]⟩, by simp [new, HashMap.Finds],
      by simp [new, HashMap.Finds]⟩ <| by
    rintro s op t ⟨hconsistent, hreach⟩ ⟨hok, rfl⟩
    cases op with
    | updateKey key now => exact ⟨consistent_updateKey hconsistent key now, hreach.updateKey key now⟩
    | cleanup now => exact ⟨consistent_cleanup hconsistent now, (hreach.cleanup_iff hconsistent now).mpr hok⟩
  exact ⟨hreach, hreach.cleanup_iff hconsistent⟩

def oldKey : PublicKey := 1 <<< 255
def newKey : PublicKey := 1 <<< 255 ||| 1

def twoAges : List Op := [.updateKey oldKey 0, .updateKey newKey (Duration.fromSecs 100)]

def otherKey : PublicKey := 1 <<< 254

def expiryOps : List Op :=
  [.updateKey oldKey 0, .updateKey otherKey (Duration.fromSecs 100), .cleanup (Duration.fromSecs 121)]

/-- The older of two keys without a common address expires; the other one stays reachable. -/
theorem known_keys_reachable_expiry : ((expiryOps.foldl (exec 2) (new 2 0)).lookups.keyToInfo.lookup oldKey).isNone ∧
    ((expiryOps.foldl (exec 2) (new 2 0)).lookups.keyToInfo.lookup otherKey).isSome ∧
    Reachable 2 (expiryOps.foldl (exec 2) (new 2 0)).lookups := by
  have hexpired : ((expiryOps.take 2).foldl (exec 2) (new 2 0)).expiredKeys (Duration.fromSecs 121) = [oldKey] := by
    decide +kernel
  have hknown : ((expiryOps.take 2).foldl (exec 2) (new 2 0)).lookups.keyToInfo.keys = [otherKey, oldKey] := by
    decide +kernel
  have hapart : ((expiryOps.take 2).foldl (exec 2) (new 2 0)).Apart 2 (Duration.fromSecs 121) := by
    intro k hk k' hk' hsome
    have hmem := HashMap.mem_keys_iff.mpr (Option.isSome_iff_exists.mp hsome)
    rw [hknown] at hmem
    rw [hexpired, mem_singleton] at hk hk'
    obtain rfl : k' = otherKey := by simpa [hk'] using hmem
    rw [hk]
    decide +kernel
  have hops : Lts.Admitted (exec 2) (Spares 2) (new 2 0) expiryOps := ⟨trivial, trivial, hapart, trivial⟩
  exact ⟨by decide +kernel, by decide +kernel, (known_keys_reachable 2 0 expiryOps hops).1⟩

/-- Two keys share an address. When the older one expires, the other one has none. -/
theorem expiry_takes_shared_address : ¬ ∀ (pfx : UInt8) (publicKey : PublicKey) (ops : List Op),
    Reachable pfx (ops.foldl (exec pfx) (new pfx publicKey)).lookups := by
  intro hclaim
  obtain ⟨k, hk, -⟩ := (hclaim 2 0 (twoAges ++ [.cleanup (Duration.fromSecs 121)])).addrs newKey (by decide +kernel)
  exact absurd hk (by rw [show HashMap.lookup _ (addrForKey 2 newKey) = none by decide +kernel]; simp)

end ReadWriteCloser

end Yggdrasil
