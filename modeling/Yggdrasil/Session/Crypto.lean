import Mathlib.Data.Sym.Sym2
import Yggdrasil.Types

/-!
# The cryptography of the encrypted layer, as symbolic terms

What the session layer relies on in `crypto_box`, `ed25519_dalek` and `OsRng` is built into the terms.
-/

namespace Yggdrasil.Session

structure CurvePrivateKey where
  host : PublicKey
  idx : Nat
deriving DecidableEq, Repr

structure CurvePublicKey where
  secret : CurvePrivateKey
deriving DecidableEq, Repr

abbrev CurvePublicKey.host (k : CurvePublicKey) : PublicKey := k.secret.host

abbrev CurvePublicKey.idx (k : CurvePublicKey) : Nat := k.secret.idx

def CurvePrivateKey.publicKey (k : CurvePrivateKey) : CurvePublicKey := ⟨k⟩

structure BoxKeys where
  priv : CurvePrivateKey
deriving DecidableEq, Repr

def BoxKeys.pub (k : BoxKeys) : CurvePublicKey := k.priv.publicKey

structure Rng where
  host : PublicKey
  drawn : Nat
deriving DecidableEq, Repr

/-- A key pair is named by the host and a running number, so that no pair is drawn twice. -/
def newBoxKeys (rng : Rng) : BoxKeys × Rng :=
  (⟨⟨rng.host, rng.drawn⟩⟩, { rng with drawn := rng.drawn + 1 })

/-- The unordered pair of two X25519 public keys. -/
abbrev SalsaBox := Sym2 CurvePublicKey

def makeSalsaBox (theirPub : CurvePublicKey) (ourPriv : CurvePrivateKey) : SalsaBox :=
  s(theirPub, ourPriv.publicKey)

theorem makeSalsaBox_comm (a b : BoxKeys) : makeSalsaBox a.pub b.priv = makeSalsaBox b.pub a.priv :=
  Sym2.eq_swap

theorem makeSalsaBox_inj {x y : CurvePublicKey} {a b : BoxKeys} (h : makeSalsaBox x a.priv = makeSalsaBox y b.priv)
    (hx : x.host ≠ b.pub.host) : x = y ∧ a = b := by
  rcases Sym2.eq_iff.mp h with ⟨hxy, hab⟩ | ⟨hxb, -⟩
  · refine ⟨hxy, ?_⟩
    cases a
    cases b
    simpa [CurvePrivateKey.publicKey] using hab
  · exact absurd (congrArg CurvePublicKey.host hxb) hx

theorem makeSalsaBox_right_inj {x y : CurvePublicKey} {a : CurvePrivateKey} :
    makeSalsaBox x a = makeSalsaBox y a ↔ x = y := by
  constructor
  · intro h
    rcases Sym2.eq_iff.mp h with ⟨h, -⟩ | ⟨h1, h2⟩
    · exact h
    · rw [h1, h2]
  · rintro rfl; rfl

/-- A box opens under the key and nonce it was sealed with only. -/
structure Sealed (α : Type) where
  key : SalsaBox
  nonce : UInt64
  plain : α
deriving DecidableEq

variable {α : Type}

def boxSealPrecomputed (msg : α) (nonce : UInt64) (salsaBox : SalsaBox) : Sealed α := ⟨salsaBox, nonce, msg⟩

def boxOpenPrecomputed (c : Sealed α) (nonce : UInt64) (salsaBox : SalsaBox) : Option α :=
  if c.key = salsaBox ∧ c.nonce = nonce then some c.plain else none

theorem boxOpen_eq_some {c : Sealed α} {nonce : UInt64} {k : SalsaBox} {m : α} :
    boxOpenPrecomputed c nonce k = some m ↔ c.key = k ∧ c.nonce = nonce ∧ c.plain = m := by
  unfold boxOpenPrecomputed
  split
  next h => simp [h]
  next h => simp only [reduceCtorEq, false_iff]; exact fun h' => h ⟨h'.1, h'.2.1⟩

/-- The secret a group password hashes to; `none` when no password is set. -/
structure GroupAuth where
  secret : Option (BitVec 256)
deriving DecidableEq, Repr

/-! ## Handshake messages -/

structure SessionInit where
  current : CurvePublicKey
  next : CurvePublicKey
  keySeq : UInt64
  seq : UInt64
deriving DecidableEq, Repr

def SessionInit.new (current next : CurvePublicKey) (keySeq : UInt64) (clk : Clock) : SessionInit :=
  { current, next, keySeq, seq := clk.unixSecs }

/-- Decrypts for its recipient only, against the signer's key and the group secret that were signed. -/
structure SealedInit where
  signer : PublicKey
  recipient : PublicKey
  preimage : GroupAuth
  init : SessionInit
deriving DecidableEq, Repr

/-- The ephemeral pair the payload is sealed with is used once and dropped, so the term does not name it. -/
def SessionInit.encrypt (self : SessionInit) (ourKey toKey : PublicKey) (preimage : GroupAuth) : SealedInit :=
  { signer := ourKey, recipient := toKey, preimage, init := self }

def SessionInit.decrypt (data : SealedInit) (ourKey fromKey : PublicKey) (preimage : GroupAuth) :
    Option SessionInit :=
  -- the box opens for its recipient only, then the signature is checked against the sender's key
  if data.recipient = ourKey then
    if data.signer = fromKey ∧ data.preimage = preimage then some data.init else none
  else none

theorem SessionInit.decrypt_eq_some {data : SealedInit} {ourKey fromKey : PublicKey} {preimage : GroupAuth}
    {init : SessionInit} : SessionInit.decrypt data ourKey fromKey preimage = some init ↔
      data.recipient = ourKey ∧ data.signer = fromKey ∧ data.preimage = preimage ∧ data.init = init := by
  unfold SessionInit.decrypt
  split
  next h =>
    split
    next h' => simp [h, h']
    next h' => simp only [reduceCtorEq, false_iff]; exact fun hc => h' ⟨hc.2.1, hc.2.2.1⟩
  next h => simp [h]

end Yggdrasil.Session
