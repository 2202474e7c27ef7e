import Mathlib.Data.BitVec

/-!
# Types shared by the session layer, the router and the key store
-/

namespace Yggdrasil

abbrev Bytes := List UInt8

/-- An ed25519 key, 32 bytes read big-endian, so that `<` is the byte order of `[u8; 32]`. -/
abbrev PublicKey := BitVec 256

abbrev Instant := Nat

abbrev Duration := Nat

def Duration.fromSecs (n : Nat) : Duration := n * 1000000000

def Duration.fromMillis (n : Nat) : Duration := n * 1000000

def elapsed (now t : Instant) : Duration := now - t

def u64Max : UInt64 := 0xffffffffffffffff

theorem le_u64Max (n : UInt64) : n ≤ u64Max := by
  have h := n.toNat_lt
  show n.toNat ≤ 18446744073709551615
  omega

def saturatingSub (a b : UInt64) : UInt64 := if a < b then 0 else a - b

theorem toNat_saturatingSub (a b : UInt64) : (saturatingSub a b).toNat = a.toNat - b.toNat := by
  rw [saturatingSub]
  split
  next h =>
    rw [UInt64.lt_iff_toNat_lt] at h
    show 0 = _
    omega
  next h =>
    rw [UInt64.lt_iff_toNat_lt] at h
    rw [UInt64.toNat_sub_of_le _ _ (by rw [UInt64.le_iff_toNat_le]; omega)]

/-- The two clocks: `Instant::now()`, and the seconds of `SystemTime::now()` since the epoch (`0` before it). -/
structure Clock where
  now : Instant
  unixSecs : UInt64
deriving DecidableEq, Repr

end Yggdrasil
