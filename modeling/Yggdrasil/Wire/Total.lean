import Yggdrasil.Base.Fault
import Yggdrasil.Wire.BloomCodec

/-!
# The decoders do not panic

The decoders of `wire.rs` once more, with slices, indices and shifts that panic where the source's do, and with the
offset of `decode_path` as the source keeps it. Each of them mirrors the decoder without such operations: on every byte
string it returns a value or `Error::Decode`.
-/

namespace Yggdrasil
open List
open Cursor (Mirrors Reads takeSlice takeSlice_mirrors)
open Fault (Total)

abbrev SliceReader := Cursor (Fault Error) UInt8

/-! ## Integers and paths -/

def decodeUvarintLoopSliced : Bytes → UInt64 → Nat → Nat → Except (Fault Error) (Option (UInt64 × Nat))
  | [], _, _, _ => .ok none
  | byte :: data, value, shift, i =>
    if shift ≥ 63 ∧ byte > 1 then .ok none
    else do
      let bits ← Fault.shl (byte &&& 0x7f).toUInt64 shift
      let value := value ||| bits
      if byte &&& 0x80 = 0 then return some (value, i + 1)
      else if i ≥ 9 then return none
      else decodeUvarintLoopSliced data value (shift + 7) (i + 1)

variable (data : Bytes)

def decodeUvarintSliced : Except (Fault Error) (Option (UInt64 × Nat)) :=
  decodeUvarintLoopSliced data 0 0 0

def decodePathLoopSliced (data : Bytes) : Nat → List PeerPort → Nat → Except (Fault Error) (List PeerPort × Nat)
  | 0, _, _ => .error .panic
  | fuel + 1, path, offset => do
    let rest ← Fault.sliceFrom data offset
    match ← decodeUvarintSliced rest with
    | none => throw (.error .decode)
    | some (value, len) =>
      if value = 0 then return (path, offset + len)
      else decodePathLoopSliced data fuel (path ++ [value]) (offset + len)

def decodePathSliced : Except (Fault Error) (List PeerPort × Nat) :=
  decodePathLoopSliced data (data.length + 1) [] 0

variable (data : Bytes)

theorem decodeUvarintLoopSliced_eq : ∀ (value : UInt64) (i : Nat), i ≤ 9 →
    decodeUvarintLoopSliced data value (7 * i) i = .ok (decodeUvarintLoop data value (7 * i) i) := by
  induction data with
  | nil => exact fun _ _ _ => rfl
  | cons byte data ih =>
    intro value i hi
    rw [decodeUvarintLoopSliced, decodeUvarintLoop, Fault.shl_eq (by omega), pure_bind]
    split
    · rfl
    split
    · rfl
    split
    · rfl
    next hmore =>
      rw [show 7 * i + 7 = 7 * (i + 1) by omega]
      exact ih _ _ (by omega)

theorem decodeUvarintSliced_eq : decodeUvarintSliced data = .ok (decodeUvarint data) :=
  decodeUvarintLoopSliced_eq data 0 0 (by omega)

theorem decodePathLoopSliced_eq : ∀ (fuel : Nat) (path : List PeerPort) (offset : Nat),
    offset ≤ data.length → data.length < fuel + offset → decodePathLoopSliced data fuel path offset =
        ((decodePath (data.drop offset)).map fun found => (path ++ found.1, offset + found.2)).mapError .error := by
  intro fuel
  induction fuel with
  | zero =>
    omega
  | succ fuel ih =>
    intro path offset hle hlt
    rw [decodePathLoopSliced, Fault.sliceFrom_eq hle, pure_bind, decodeUvarintSliced_eq]
    cases hvalue : decodeUvarint (data.drop offset) with
    | none =>
      rw [decodePath_of_none hvalue]
      rfl
    | some found =>
      obtain ⟨value, len⟩ := found
      have hlen := decodeUvarintLoop_length hvalue
      rw [length_drop] at hlen
      by_cases hzero : value = 0
      · subst hzero
        rw [decodePath_of_zero hvalue]
        show Except.ok (path, offset + len) = Except.ok (path ++ [], offset + len)
        rw [append_nil]
      show (if value = 0 then _ else decodePathLoopSliced data fuel (path ++ [value]) (offset + len)) = _
      rw [if_neg hzero, ih _ _ (by omega) (by omega), decodePath_of_port hvalue hzero, drop_drop]
      cases decodePath (data.drop (offset + len)) with
      | error e => rfl
      | ok rest =>
        show Except.ok (path ++ [value] ++ rest.1, offset + len + rest.2) =
          Except.ok (path ++ value :: rest.1, offset + (len + rest.2))
        rw [append_assoc, singleton_append, Nat.add_assoc]

theorem decodePathSliced_eq : decodePathSliced data = (decodePath data).mapError .error := by
  rw [decodePathSliced, decodePathLoopSliced_eq data _ _ _ (Nat.zero_le _) (by omega), drop_zero]
  cases decodePath data with
  | error e => rfl
  | ok found =>
    show Except.ok ([] ++ found.1, 0 + found.2) = Except.ok found
    rw [nil_append, Nat.zero_add]

theorem decodePath_total : Total decodePathSliced decodePath .decode := by
  intro data
  refine ⟨decodePathSliced_eq data, ?_⟩
  rcases decodePath_cases data with herror | ⟨path, consumed, hok, -, -⟩
  · exact .inr herror
  · exact .inl ⟨_, hok⟩

/-! ## Readers -/

def readUvarintSliced : SliceReader UInt64 := do
  let data ← get
  match ← decodeUvarintSliced data with
  | none => throw (.error .decode)
  | some (value, len) =>
    set (← Fault.sliceFrom data len)
    return value

def readFixedSliced (n : Nat) : SliceReader Bytes := takeSlice .decode n

def readPublicKeySliced : SliceReader PublicKey := do
  return BitVec.ofBeBytes 256 (← readFixedSliced PUBLIC_KEY_SIZE)

def readSignatureSliced : SliceReader Sig := do
  return BitVec.ofBeBytes 512 (← readFixedSliced SIGNATURE_SIZE)

def readPathSliced : SliceReader (List PeerPort) := do
  let data ← get
  let (path, consumed) ← decodePathSliced data
  set (← Fault.sliceFrom data consumed)
  return path

theorem readUvarint_mirrors : Mirrors readUvarintSliced readUvarint .decode fun _ => True := by
  intro data
  simp only [readUvarintSliced, readUvarint, decodeUvarintSliced_eq, StateT.run_bind, StateT.run_get, pure_bind]
  cases hvalue : decodeUvarint data with
  | none => exact .inr ⟨rfl, rfl⟩
  | some found =>
    have hlen := decodeUvarintLoop_length hvalue
    refine .inl ⟨found.1, data.drop found.2, ?_, rfl, trivial⟩
    show StateT.run (do set (← Fault.sliceFrom data found.2); return found.1 : SliceReader UInt64) data = _
    rw [Fault.sliceFrom_eq (by omega)]
    rfl

theorem readFixed_mirrors (n : Nat) : Mirrors (readFixedSliced n) (readFixed n) .decode fun bs => bs.length = n :=
  takeSlice_mirrors _ n

theorem readPublicKey_mirrors : Mirrors readPublicKeySliced readPublicKey .decode fun _ => True :=
  (readFixed_mirrors _).bind fun _ _ => Mirrors.pure trivial

theorem readSignature_mirrors : Mirrors readSignatureSliced readSignature .decode fun _ => True :=
  (readFixed_mirrors _).bind fun _ _ => Mirrors.pure trivial

theorem readPath_mirrors : Mirrors readPathSliced readPath .decode fun _ => True := by
  intro data
  simp only [readPathSliced, readPath, decodePathSliced_eq, StateT.run_bind, StateT.run_get, pure_bind]
  rcases decodePath_cases data with herror | ⟨path, consumed, hok, -, hle⟩
  · rw [herror]
    exact .inr ⟨rfl, rfl⟩
  rw [hok]
  refine .inl ⟨path, data.drop consumed, ?_, rfl, trivial⟩
  show StateT.run (do set (← Fault.sliceFrom data consumed); return path : SliceReader _) data = _
  rw [Fault.sliceFrom_eq hle]
  rfl

/-! ## Messages -/

def SigReq.decodeSliced : SliceReader SigReq := do
  let seq ← readUvarintSliced
  let nonce ← readUvarintSliced
  return { seq, nonce }

def SigRes.decodeSliced : SliceReader SigRes := do
  let seq ← readUvarintSliced
  let nonce ← readUvarintSliced
  let port ← readUvarintSliced
  let psig ← readSignatureSliced
  return { seq, nonce, port, psig }

def Announce.decodeSliced : Except (Fault Error) Announce :=
  StateT.run' (s := data) do
    let key ← readPublicKeySliced
    let parent ← readPublicKeySliced
    let sigRes ← SigRes.decodeSliced
    let sig ← readSignatureSliced
    Cursor.finish (.error .decode)
    return { key, parent, sigRes, sig }

def PathLookup.decodeSliced : Except (Fault Error) PathLookup :=
  StateT.run' (s := data) do
    let source ← readPublicKeySliced
    let dest ← readPublicKeySliced
    let fromPath ← readPathSliced
    Cursor.finish (.error .decode)
    return { source, dest, fromPath }

def PathNotifyInfo.decodeSliced : SliceReader PathNotifyInfo := do
  let seq ← readUvarintSliced
  let path ← readPathSliced
  let sig ← readSignatureSliced
  return { seq, path, sig }

def PathNotify.decodeSliced : Except (Fault Error) PathNotify :=
  StateT.run' (s := data) do
    let path ← readPathSliced
    let watermark ← readUvarintSliced
    let source ← readPublicKeySliced
    let dest ← readPublicKeySliced
    let info ← PathNotifyInfo.decodeSliced
    Cursor.finish (.error .decode)
    return { path, watermark, source, dest, info }

def PathBroken.decodeSliced : Except (Fault Error) PathBroken :=
  StateT.run' (s := data) do
    let path ← readPathSliced
    let watermark ← readUvarintSliced
    let source ← readPublicKeySliced
    let dest ← readPublicKeySliced
    Cursor.finish (.error .decode)
    return { path, watermark, source, dest }

def Traffic.decodeSliced : Except (Fault Error) Traffic :=
  StateT.run' (s := data) do
    let path ← readPathSliced
    let fromPath ← readPathSliced
    let source ← readPublicKeySliced
    let dest ← readPublicKeySliced
    let watermark ← readUvarintSliced
    let payload ← get
    return { path, fromPath, source, dest, watermark, payload }

theorem SigReq.mirrors : Mirrors SigReq.decodeSliced SigReq.decode .decode fun _ => True :=
  readUvarint_mirrors.bind fun _ _ => readUvarint_mirrors.bind fun _ _ => Mirrors.pure trivial

theorem SigRes.mirrors : Mirrors SigRes.decodeSliced SigRes.decode .decode fun _ => True :=
  readUvarint_mirrors.bind fun _ _ => readUvarint_mirrors.bind fun _ _ => readUvarint_mirrors.bind fun _ _ =>
    readSignature_mirrors.bind fun _ _ => Mirrors.pure trivial

theorem Announce.total : Total Announce.decodeSliced Announce.decode .decode :=
  Mirrors.total_run' <| readPublicKey_mirrors.bind fun _ _ => readPublicKey_mirrors.bind fun _ _ =>
    SigRes.mirrors.bind fun _ _ => readSignature_mirrors.bind fun _ _ => Mirrors.finish.bind fun _ _ =>
    Mirrors.pure (P := fun _ => True) trivial

theorem PathLookup.total : Total PathLookup.decodeSliced PathLookup.decode .decode :=
  Mirrors.total_run' <| readPublicKey_mirrors.bind fun _ _ => readPublicKey_mirrors.bind fun _ _ =>
    readPath_mirrors.bind fun _ _ => Mirrors.finish.bind fun _ _ => Mirrors.pure (P := fun _ => True) trivial

theorem PathNotifyInfo.mirrors : Mirrors PathNotifyInfo.decodeSliced PathNotifyInfo.decode .decode fun _ => True :=
  readUvarint_mirrors.bind fun _ _ => readPath_mirrors.bind fun _ _ => readSignature_mirrors.bind fun _ _ =>
    Mirrors.pure trivial

theorem PathNotify.total : Total PathNotify.decodeSliced PathNotify.decode .decode :=
  Mirrors.total_run' <| readPath_mirrors.bind fun _ _ => readUvarint_mirrors.bind fun _ _ =>
    readPublicKey_mirrors.bind fun _ _ => readPublicKey_mirrors.bind fun _ _ => PathNotifyInfo.mirrors.bind fun _ _ =>
    Mirrors.finish.bind fun _ _ => Mirrors.pure (P := fun _ => True) trivial

theorem PathBroken.total : Total PathBroken.decodeSliced PathBroken.decode .decode :=
  Mirrors.total_run' <| readPath_mirrors.bind fun _ _ => readUvarint_mirrors.bind fun _ _ =>
    readPublicKey_mirrors.bind fun _ _ => readPublicKey_mirrors.bind fun _ _ => Mirrors.finish.bind fun _ _ =>
    Mirrors.pure (P := fun _ => True) trivial

theorem Traffic.total : Total Traffic.decodeSliced Traffic.decode .decode :=
  Mirrors.total_run' <| readPath_mirrors.bind fun _ _ => readPath_mirrors.bind fun _ _ =>
    readPublicKey_mirrors.bind fun _ _ => readPublicKey_mirrors.bind fun _ _ => readUvarint_mirrors.bind fun _ _ =>
    Mirrors.get.bind fun _ _ => Mirrors.pure (P := fun _ => True) trivial

/-! ## Bloom filters -/

def hasFlagSliced (flags : Bytes) (idx : Nat) : SliceReader Bool := do
  let byte ← Fault.index flags (idx / 8)
  return byte &&& flagMask idx ≠ 0

def readBloomWordSliced (flags0 flags1 : Bytes) (idx : Nat) : SliceReader UInt64 := do
  let f0 ← hasFlagSliced flags0 idx
  let f1 ← hasFlagSliced flags1 idx
  if f0 && f1 then throw (.error .decode)
  else if f0 then return 0
  else if f1 then return u64Max
  else return ⟨BitVec.ofBeBytes 64 (← readFixedSliced 8)⟩

def readBloomWordsSliced (flags0 flags1 : Bytes) : List Nat → List UInt64 → SliceReader (List UInt64)
  | [], result => return result
  | idx :: idxs, result => do
    let word ← readBloomWordSliced flags0 flags1 idx
    let result ← Fault.assign result idx word
    readBloomWordsSliced flags0 flags1 idxs result

def decodeBloomSliced : Except (Fault Error) (List UInt64) :=
  StateT.run' (s := data) do
    let flags0 ← readFixedSliced BLOOM_FILTER_FLAGS
    let flags1 ← readFixedSliced BLOOM_FILTER_FLAGS
    let result ← readBloomWordsSliced flags0 flags1 (List.range BLOOM_FILTER_U64S) (List.replicate BLOOM_FILTER_U64S 0)
    Cursor.finish (.error .decode)
    return result

section
variable {flags0 flags1 : Bytes} (h0 : flags0.length = BLOOM_FILTER_FLAGS) (h1 : flags1.length = BLOOM_FILTER_FLAGS)
include h0 in
theorem hasFlagSliced_eq {idx : Nat} (hidx : idx < BLOOM_FILTER_U64S) :
    hasFlagSliced flags0 idx = pure (hasFlag flags0 idx) := by
  have hbyte : idx / 8 < flags0.length := by
    rw [h0]
    simp only [BLOOM_FILTER_U64S] at hidx
    simp only [BLOOM_FILTER_FLAGS]
    omega
  rw [hasFlagSliced, Fault.index_eq hbyte 0, pure_bind]
  rfl

include h0 h1 in
theorem readBloomWord_mirrors {idx : Nat} (hidx : idx < BLOOM_FILTER_U64S) :
    Mirrors (readBloomWordSliced flags0 flags1 idx) (readBloomWord flags0 flags1 idx) .decode fun _ => True := by
  refine Mirrors.bind_pure (hasFlagSliced_eq h0 hidx) (Mirrors.bind_pure (hasFlagSliced_eq h1 hidx) ?_)
  rw [readBloomWord]
  split
  · exact Mirrors.throw
  split
  · exact Mirrors.pure trivial
  split
  · exact Mirrors.pure trivial
  · exact (readFixed_mirrors 8).bind fun _ _ => Mirrors.pure trivial

include h0 h1 in
theorem readBloomWords_mirrors (n : Nat) :
    ∀ (k : Nat) (done : List UInt64), done.length = k → k + n ≤ BLOOM_FILTER_U64S →
    Mirrors (readBloomWordsSliced flags0 flags1 (List.range' k n) (done ++ List.replicate n 0))
      ((List.range' k n).mapM (readBloomWord flags0 flags1) >>= fun words => pure (done ++ words)) .decode
      fun _ => True := by
  induction n with
  | zero => exact fun k done _ _ => Mirrors.pure trivial
  | succ n ih =>
    intro k done hdone hle
    have hplace : k < (done ++ List.replicate (n + 1) (0 : UInt64)).length := by
      rw [length_append, length_replicate]
      omega
    rw [List.range'_succ, mapM_cons, bind_assoc]
    refine (readBloomWord_mirrors h0 h1 (by omega)).bind fun word _ => ?_
    refine Mirrors.bind_pure (Fault.assign_eq hplace word) ?_
    have hset : (done ++ List.replicate (n + 1) 0).set k word = done ++ [word] ++ List.replicate n 0 := by
      rw [← hdone, set_append_right _ _ (Nat.le_refl _), Nat.sub_self, append_assoc]
      rfl
    have hrest := ih (k + 1) (done ++ [word]) (by rw [length_append, hdone]; rfl) (by omega)
    rw [hset, bind_assoc]
    simpa only [pure_bind, append_assoc, singleton_append] using hrest

end

theorem decodeBloom_total : Total decodeBloomSliced decodeBloom .decode := by
  refine Mirrors.total_run' (P := fun _ => True) ?_
  refine (readFixed_mirrors _).bind fun flags0 h0 => (readFixed_mirrors _).bind fun flags1 h1 => ?_
  have hwords := readBloomWords_mirrors h0 h1 BLOOM_FILTER_U64S 0 [] rfl (Nat.le_of_eq (Nat.zero_add _))
  simp only [nil_append, bind_pure, ← range_eq_range'] at hwords
  exact hwords.bind fun _ _ => Mirrors.finish.bind fun _ _ => Mirrors.pure trivial

/-! ## The codec -/

/-- Messages are decoded from their encodings, sizes are as computed, and no decoder panics. -/
structure WireCodec : Prop where
  sigReq : ∀ req : SigReq, Reads SigReq.decode req.encode req
  sigRes : ∀ res : SigRes, Reads SigRes.decode res.encode res
  announce : ∀ ann : Announce, Decodes Announce.decode ann.encode ann
  pathLookup : ∀ lookup : PathLookup, Ported lookup.fromPath → Decodes PathLookup.decode lookup.encode lookup
  pathNotifyInfo : ∀ info : PathNotifyInfo, Ported info.path → Reads PathNotifyInfo.decode info.encode info
  pathNotify : ∀ notify : PathNotify, Ported notify.path → Ported notify.info.path →
    Decodes PathNotify.decode notify.encode notify
  pathBroken : ∀ broken : PathBroken, Ported broken.path → Decodes PathBroken.decode broken.encode broken
  traffic : ∀ tr : Traffic, Ported tr.path → Ported tr.fromPath → Traffic.decode tr.encode = .ok tr
  bloom : ∀ words : List UInt64, words.length = BLOOM_FILTER_U64S → Decodes decodeBloom (encodeBloom words) words
  uvarintSize : ∀ v, (encodeUvarint v).length = uvarintSize v
  pathSize : ∀ path, (encodePath path).length = pathSize path
  trafficSize : ∀ tr : Traffic, tr.encode.length = tr.size
  uvarint_total : ∀ data, decodeUvarintSliced data = .ok (decodeUvarint data)
  path_total : Total decodePathSliced decodePath .decode
  sigReq_total : Total SigReq.decodeSliced.run SigReq.decode.run .decode
  sigRes_total : Total SigRes.decodeSliced.run SigRes.decode.run .decode
  announce_total : Total Announce.decodeSliced Announce.decode .decode
  pathLookup_total : Total PathLookup.decodeSliced PathLookup.decode .decode
  pathNotifyInfo_total : Total PathNotifyInfo.decodeSliced.run PathNotifyInfo.decode.run .decode
  pathNotify_total : Total PathNotify.decodeSliced PathNotify.decode .decode
  pathBroken_total : Total PathBroken.decodeSliced PathBroken.decode .decode
  traffic_total : Total Traffic.decodeSliced Traffic.decode .decode
  bloom_total : Total decodeBloomSliced decodeBloom .decode

/-- **Every message is decoded from its encoding, and every decoder is total.** -/
theorem wire_codec_round_trip : WireCodec where
  sigReq := SigReq.reads
  sigRes := SigRes.reads
  announce := Announce.decodes
  pathLookup _ h := PathLookup.decodes h
  pathNotifyInfo _ h := PathNotifyInfo.reads h
  pathNotify _ h hinfo := PathNotify.decodes h hinfo
  pathBroken _ h := PathBroken.decodes h
  traffic := Traffic.decode_encode
  bloom _ h := decodeBloom_decodes h
  uvarintSize v := (uvarintSize_eq v).symm
  pathSize path := (pathSize_eq path).symm
  trafficSize := Traffic.length_encode
  uvarint_total := decodeUvarintSliced_eq
  path_total := decodePath_total
  sigReq_total := SigReq.mirrors.total
  sigRes_total := SigRes.mirrors.total
  announce_total := Announce.total
  pathLookup_total := PathLookup.total
  pathNotifyInfo_total := PathNotifyInfo.mirrors.total
  pathNotify_total := PathNotify.total
  pathBroken_total := PathBroken.total
  traffic_total := Traffic.total
  bloom_total := decodeBloom_total

end Yggdrasil
