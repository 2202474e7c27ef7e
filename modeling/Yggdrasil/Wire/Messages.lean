import Yggdrasil.Base.Cursor
import Yggdrasil.Base.Words
import Yggdrasil.Wire.Varint

/-!
# Messages on the wire

The encoders and decoders of `wire.rs`. Paths are sequences of ports that end with a zero.
-/

namespace Yggdrasil
open List StateT
open Cursor (Reads Completes Exhausts Returns returns_any)

inductive Error where
  | decode
  | badMessage
  | oversizedMessage
  | unrecognizedMessage
  | io
deriving DecidableEq, Repr

/-- A cursor over the bytes of a message. -/
abbrev WireReader := Cursor Error UInt8

variable (path : List PeerPort)

def Ported : Prop := ∀ port ∈ path, port ≠ 0

/-! ## Paths -/

def pathSize : Nat := (path.map uvarintSize).sum + uvarintSize 0

theorem pathSize_eq : pathSize path = (encodePath path).length := by
  rw [pathSize, encodePath, length_append, length_flatMap, uvarintSize_eq]
  congr 2
  exact map_congr_left fun port _ => uvarintSize_eq port

def decodePath (data : Bytes) : Except Error (List PeerPort × Nat) :=
  match _h : decodeUvarint data with
  | none => .error .decode
  | some (value, len) =>
    if value = 0 then .ok ([], len)
    else
      match decodePath (data.drop len) with
      | .error e => .error e
      | .ok (path, consumed) => .ok (value :: path, len + consumed)
termination_by data.length
decreasing_by
  have hlen := decodeUvarintLoop_length _h
  rw [length_drop]
  omega

variable {data : Bytes}

theorem decodePath_of_none (h : decodeUvarint data = none) : decodePath data = .error .decode := by
  rw [decodePath]
  split
  · rfl
  next value len hvalue => cases h.symm.trans hvalue

theorem decodePath_of_zero {len : Nat} (h : decodeUvarint data = some (0, len)) :
    decodePath data = .ok ([], len) := by
  rw [decodePath]
  split
  next hnone => cases h.symm.trans hnone
  next value len' hvalue =>
    cases h.symm.trans hvalue
    rfl

theorem decodePath_of_port {value : UInt64} {len : Nat} (h : decodeUvarint data = some (value, len))
    (hne : value ≠ 0) :
    decodePath data = (decodePath (data.drop len)).map fun found => (value :: found.1, len + found.2) := by
  rw [decodePath]
  split
  next hnone => cases h.symm.trans hnone
  next value' len' hvalue =>
    cases h.symm.trans hvalue
    rw [if_neg hne]
    cases decodePath (data.drop len) <;> rfl

theorem decodePath_encodePath (hpath : Ported path) (rest : Bytes) :
    decodePath (encodePath path ++ rest) = .ok (path, (encodePath path).length) := by
  induction path with
  | nil => exact decodePath_of_zero (decodeUvarint_encodeUvarint 0 rest)
  | cons port path ih =>
    have hcons : encodePath (port :: path) = encodeUvarint port ++ encodePath path := by
      rw [encodePath, encodePath, flatMap_cons, append_assoc]
    have hport := decodeUvarint_encodeUvarint port (encodePath path ++ rest)
    have hrest := ih fun port' hport' => hpath port' (mem_cons_of_mem _ hport')
    rw [hcons, append_assoc, decodePath_of_port hport (hpath port mem_cons_self), drop_left, hrest, length_append]
    rfl

theorem decodePath_cases (data : Bytes) : decodePath data = .error .decode ∨
      ∃ path consumed, decodePath data = .ok (path, consumed) ∧ Ported path ∧ consumed ≤ data.length := by
  induction h : data.length using Nat.strongRecOn generalizing data with
  | ind n ih =>
    cases hvalue : decodeUvarint data with
    | none => exact .inl (decodePath_of_none hvalue)
    | some found =>
      obtain ⟨value, len⟩ := found
      have hlen := decodeUvarintLoop_length hvalue
      by_cases hzero : value = 0
      · subst hzero
        exact .inr ⟨[], len, decodePath_of_zero hvalue, fun _ hport => absurd hport not_mem_nil, by omega⟩
      have hdrop : (data.drop len).length = data.length - len := length_drop
      rw [decodePath_of_port hvalue hzero]
      rcases ih _ (by omega) (data.drop len) rfl with herror | ⟨path, consumed, hrest, hports, hle⟩
      · rw [herror]
        exact .inl rfl
      rw [hrest]
      refine .inr ⟨value :: path, len + consumed, rfl, ?_, by omega⟩
      intro port hport
      rcases mem_cons.mp hport with rfl | hport
      · exact hzero
      · exact hports port hport

/-! ## Reading -/

def readUvarint : WireReader UInt64 := do
  let data ← get
  match decodeUvarint data with
  | none => throw .decode
  | some (value, len) =>
    set (data.drop len)
    return value

def readFixed (n : Nat) : WireReader Bytes := Cursor.take .decode n

def PUBLIC_KEY_SIZE : Nat := 32
def SIGNATURE_SIZE : Nat := 64

def readPublicKey : WireReader PublicKey := do
  return BitVec.ofBeBytes 256 (← readFixed PUBLIC_KEY_SIZE)

def readSignature : WireReader Sig := do
  return BitVec.ofBeBytes 512 (← readFixed SIGNATURE_SIZE)

def readPath : WireReader (List PeerPort) := do
  let data ← get
  match decodePath data with
  | .error e => throw e
  | .ok (path, consumed) =>
    set (data.drop consumed)
    return path

def sigBytes (sig : Sig) : Bytes := sig.beBytes SIGNATURE_SIZE

theorem keyBytes_eq (key : PublicKey) : keyBytes key = key.beBytes PUBLIC_KEY_SIZE := by
  rfl

@[simp] theorem length_keyBytes (key : PublicKey) : (keyBytes key).length = PUBLIC_KEY_SIZE := by
  rw [keyBytes_eq, BitVec.length_beBytes]

theorem reads_uvarint (v : UInt64) : Reads readUvarint (encodeUvarint v) v := by
  intro rest
  have h := decodeUvarint_encodeUvarint v rest
  simp only [readUvarint, run_bind, run_get, pure_bind, h, run_set, run_pure]
  rw [drop_left]
  rfl

theorem reads_path {path : List PeerPort} (hpath : Ported path) : Reads readPath (encodePath path) path := by
  intro rest
  have h := decodePath_encodePath path hpath rest
  simp only [readPath, run_bind, run_get, pure_bind, h, run_set, run_pure]
  rw [drop_left]
  rfl

theorem reads_publicKey (key : PublicKey) : Reads readPublicKey (keyBytes key) key := by
  have htake := Cursor.reads_take Error.decode (key.beBytes PUBLIC_KEY_SIZE)
  have h := htake.bind_pure fun bs => (BitVec.ofBeBytes 256 bs : PublicKey)
  rw [BitVec.ofBeBytes_beBytes key rfl, ← keyBytes_eq] at h
  exact h

theorem reads_signature (sig : Sig) : Reads readSignature (sigBytes sig) sig := by
  have htake := Cursor.reads_take Error.decode (sigBytes sig)
  rw [sigBytes, BitVec.length_beBytes] at htake
  have h := htake.bind_pure fun bs => (BitVec.ofBeBytes 512 bs : Sig)
  rw [BitVec.ofBeBytes_beBytes sig rfl] at h
  exact h

theorem readPath_returns : Returns readPath Ported := by
  intro data path rest h
  simp only [readPath, run_bind, run_get, pure_bind] at h
  rcases decodePath_cases data with herror | ⟨found, consumed, hok, hports, -⟩
  · rw [herror] at h
    cases h
  rw [hok] at h
  cases h
  exact hports

/-! ## Messages -/

def SigReq.encode (self : SigReq) : Bytes := encodeUvarint self.seq ++ encodeUvarint self.nonce

def SigReq.decode : WireReader SigReq := do
  let seq ← readUvarint
  let nonce ← readUvarint
  return { seq, nonce }

def SigRes.encode (self : SigRes) : Bytes :=
  encodeUvarint self.seq ++ encodeUvarint self.nonce ++ encodeUvarint self.port ++ sigBytes self.psig

def SigRes.decode : WireReader SigRes := do
  let seq ← readUvarint
  let nonce ← readUvarint
  let port ← readUvarint
  let psig ← readSignature
  return { seq, nonce, port, psig }

def Announce.encode (self : Announce) : Bytes :=
  keyBytes self.key ++ keyBytes self.parent ++ self.sigRes.encode ++ sigBytes self.sig

def Announce.decode (data : Bytes) : Except Error Announce :=
  StateT.run' (s := data) do
    let key ← readPublicKey
    let parent ← readPublicKey
    let sigRes ← SigRes.decode
    let sig ← readSignature
    Cursor.finish .decode
    return { key, parent, sigRes, sig }

def PathLookup.encode (self : PathLookup) : Bytes :=
  keyBytes self.source ++ keyBytes self.dest ++ encodePath self.fromPath

def PathLookup.decode (data : Bytes) : Except Error PathLookup :=
  StateT.run' (s := data) do
    let source ← readPublicKey
    let dest ← readPublicKey
    let fromPath ← readPath
    Cursor.finish .decode
    return { source, dest, fromPath }

def PathNotifyInfo.encode (self : PathNotifyInfo) : Bytes :=
  encodeUvarint self.seq ++ encodePath self.path ++ sigBytes self.sig

def PathNotifyInfo.decode : WireReader PathNotifyInfo := do
  let seq ← readUvarint
  let path ← readPath
  let sig ← readSignature
  return { seq, path, sig }

def PathNotify.encode (self : PathNotify) : Bytes :=
  encodePath self.path ++ encodeUvarint self.watermark ++ keyBytes self.source ++ keyBytes self.dest ++ self.info.encode

def PathNotify.decode (data : Bytes) : Except Error PathNotify :=
  StateT.run' (s := data) do
    let path ← readPath
    let watermark ← readUvarint
    let source ← readPublicKey
    let dest ← readPublicKey
    let info ← PathNotifyInfo.decode
    Cursor.finish .decode
    return { path, watermark, source, dest, info }

def PathBroken.encode (self : PathBroken) : Bytes :=
  encodePath self.path ++ encodeUvarint self.watermark ++ keyBytes self.source ++ keyBytes self.dest

def PathBroken.decode (data : Bytes) : Except Error PathBroken :=
  StateT.run' (s := data) do
    let path ← readPath
    let watermark ← readUvarint
    let source ← readPublicKey
    let dest ← readPublicKey
    Cursor.finish .decode
    return { path, watermark, source, dest }

/-- A user traffic packet on the wire; the payload is what is left. -/
structure Traffic where
  path : List PeerPort
  fromPath : List PeerPort
  source : PublicKey
  dest : PublicKey
  watermark : UInt64
  payload : Bytes
deriving DecidableEq

def Traffic.size (self : Traffic) : Nat :=
  pathSize self.path + pathSize self.fromPath + PUBLIC_KEY_SIZE + PUBLIC_KEY_SIZE + uvarintSize self.watermark +
    self.payload.length

def Traffic.encode (self : Traffic) : Bytes :=
  encodePath self.path ++ encodePath self.fromPath ++ keyBytes self.source ++ keyBytes self.dest ++
    encodeUvarint self.watermark ++ self.payload

def Traffic.decode (data : Bytes) : Except Error Traffic :=
  StateT.run' (s := data) do
    let path ← readPath
    let fromPath ← readPath
    let source ← readPublicKey
    let dest ← readPublicKey
    let watermark ← readUvarint
    let payload ← get
    return { path, fromPath, source, dest, watermark, payload }

theorem Traffic.length_encode (tr : Traffic) : tr.encode.length = tr.size := by
  simp only [Traffic.encode, Traffic.size, length_append, length_keyBytes, pathSize_eq, uvarintSize_eq]

/-! ## Round trips -/

/-- `data` decodes to `a`, and no longer with bytes behind it. -/
def Decodes {α : Type} (decode : Bytes → Except Error α) (data : Bytes) (a : α) : Prop :=
  decode data = .ok a ∧ ∀ rest, rest ≠ [] → decode (data ++ rest) = .error .decode

theorem SigReq.reads (req : SigReq) : Reads SigReq.decode req.encode req :=
  (reads_uvarint req.seq).bind ((reads_uvarint req.nonce).bind_pure _)

theorem SigRes.reads (res : SigRes) : Reads SigRes.decode res.encode res := by
  simp only [SigRes.encode, append_assoc]
  exact (reads_uvarint res.seq).bind <| (reads_uvarint res.nonce).bind <| (reads_uvarint res.port).bind <|
    (reads_signature res.psig).bind_pure _

theorem Announce.decodes (ann : Announce) : Decodes Announce.decode ann.encode ann := by
  simp only [Announce.encode, append_assoc]
  exact Exhausts.bind (reads_publicKey ann.key) <| Exhausts.bind (reads_publicKey ann.parent) <|
    Exhausts.bind ann.sigRes.reads <| Exhausts.finish (reads_signature ann.sig) _ _

theorem PathLookup.decodes {lookup : PathLookup} (h : Ported lookup.fromPath) :
    Decodes PathLookup.decode lookup.encode lookup := by
  simp only [PathLookup.encode, append_assoc]
  exact Exhausts.bind (reads_publicKey lookup.source) <| Exhausts.bind (reads_publicKey lookup.dest) <|
    Exhausts.finish (reads_path h) _ _

theorem PathNotifyInfo.reads {info : PathNotifyInfo} (h : Ported info.path) :
    Reads PathNotifyInfo.decode info.encode info := by
  simp only [PathNotifyInfo.encode, append_assoc]
  exact (reads_uvarint info.seq).bind <| (reads_path h).bind <| (reads_signature info.sig).bind_pure _

theorem PathNotify.decodes {notify : PathNotify} (h : Ported notify.path) (hinfo : Ported notify.info.path) :
    Decodes PathNotify.decode notify.encode notify := by
  simp only [PathNotify.encode, append_assoc]
  exact Exhausts.bind (reads_path h) <| Exhausts.bind (reads_uvarint notify.watermark) <|
    Exhausts.bind (reads_publicKey notify.source) <| Exhausts.bind (reads_publicKey notify.dest) <|
    Exhausts.finish (PathNotifyInfo.reads hinfo) _ _

theorem PathBroken.decodes {broken : PathBroken} (h : Ported broken.path) :
    Decodes PathBroken.decode broken.encode broken := by
  simp only [PathBroken.encode, append_assoc]
  exact Exhausts.bind (reads_path h) <| Exhausts.bind (reads_uvarint broken.watermark) <|
    Exhausts.bind (reads_publicKey broken.source) <| Exhausts.finish (reads_publicKey broken.dest) _ _

/-- A packet is decoded from its encoding. -/
theorem Traffic.decode_encode (tr : Traffic) (hpath : Ported tr.path) (hfrom : Ported tr.fromPath) :
    Traffic.decode tr.encode = .ok tr := by
  simp only [Traffic.encode, append_assoc]
  exact Completes.bind (reads_path hpath) <| Completes.bind (reads_path hfrom) <|
    Completes.bind (reads_publicKey tr.source) <| Completes.bind (reads_publicKey tr.dest) <|
    Completes.bind (reads_uvarint tr.watermark) rfl

/-! ## What is accepted -/

theorem PathLookup.decode_ported {lookup : PathLookup} (h : PathLookup.decode data = .ok lookup) :
    Ported lookup.fromPath := by
  refine Returns.run' (P := fun l : PathLookup => Ported l.fromPath) ?_ h
  refine Returns.bind (returns_any _) fun source _ => ?_
  refine Returns.bind (returns_any _) fun dest _ => ?_
  refine Returns.bind readPath_returns fun fromPath hpath => ?_
  exact Returns.bind (returns_any _) fun _ _ => Returns.pure hpath

theorem PathNotifyInfo.decode_returns : Returns PathNotifyInfo.decode fun info => Ported info.path := by
  refine Returns.bind (returns_any _) fun seq _ => ?_
  refine Returns.bind readPath_returns fun path hpath => ?_
  exact Returns.bind (returns_any _) fun sig _ => Returns.pure hpath

theorem PathNotify.decode_ported {notify : PathNotify} (h : PathNotify.decode data = .ok notify) :
    Ported notify.path ∧ Ported notify.info.path := by
  refine Returns.run' (P := fun n : PathNotify => Ported n.path ∧ Ported n.info.path) ?_ h
  refine Returns.bind readPath_returns fun path hpath => ?_
  refine Returns.bind (returns_any _) fun watermark _ => ?_
  refine Returns.bind (returns_any _) fun source _ => ?_
  refine Returns.bind (returns_any _) fun dest _ => ?_
  refine Returns.bind PathNotifyInfo.decode_returns fun info hinfo => ?_
  exact Returns.bind (returns_any _) fun _ _ => Returns.pure ⟨hpath, hinfo⟩

theorem PathBroken.decode_ported {broken : PathBroken} (h : PathBroken.decode data = .ok broken) :
    Ported broken.path := by
  refine Returns.run' (P := fun b : PathBroken => Ported b.path) ?_ h
  refine Returns.bind readPath_returns fun path hpath => ?_
  refine Returns.bind (returns_any _) fun watermark _ => ?_
  refine Returns.bind (returns_any _) fun source _ => ?_
  refine Returns.bind (returns_any _) fun dest _ => ?_
  exact Returns.bind (returns_any _) fun _ _ => Returns.pure hpath

theorem Traffic.decode_ported {tr : Traffic} (h : Traffic.decode data = .ok tr) :
    Ported tr.path ∧ Ported tr.fromPath := by
  refine Returns.run' (P := fun tr : Traffic => Ported tr.path ∧ Ported tr.fromPath) ?_ h
  refine Returns.bind readPath_returns fun path hpath => ?_
  refine Returns.bind readPath_returns fun fromPath hfrom => ?_
  refine Returns.bind (returns_any _) fun source _ => ?_
  refine Returns.bind (returns_any _) fun dest _ => ?_
  refine Returns.bind (returns_any _) fun watermark _ => ?_
  exact Returns.bind (returns_any _) fun payload _ => Returns.pure ⟨hpath, hfrom⟩

end Yggdrasil
