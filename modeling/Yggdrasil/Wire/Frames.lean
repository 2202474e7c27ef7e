import Mathlib.Algebra.BigOperators.Group.List.Basic
import Yggdrasil.Router.Actor
import Yggdrasil.Wire.BloomCodec

/-!
# Frames

`encode_frame`, `encode_traffic_frame` and `encode_action_frame` on the sending side; on the receiving side the loop of
`peer_reader`, which takes frames from the connection, checks what it decodes and hands it to the router. Deadlines and
keepalives are left out.
-/

namespace Yggdrasil
open Nat UInt64 List RouterAnnounce
open Cursor (Reads)
open FullRouter (Msg)
open Router (PathMsg)

inductive PacketType where
  | dummy
  | keepAlive
  | protoSigReq
  | protoSigRes
  | protoAnnounce
  | protoBloomFilter
  | protoPathLookup
  | protoPathNotify
  | protoPathBroken
  | traffic
deriving DecidableEq, Repr

namespace PacketType

def toByte : PacketType → UInt8
  | dummy => 0
  | keepAlive => 1
  | protoSigReq => 2
  | protoSigRes => 3
  | protoAnnounce => 4
  | protoBloomFilter => 5
  | protoPathLookup => 6
  | protoPathNotify => 7
  | protoPathBroken => 8
  | traffic => 9

def tryFrom (v : UInt8) : Except Error PacketType :=
  match v.toNat with
  | 0 => .ok dummy
  | 1 => .ok keepAlive
  | 2 => .ok protoSigReq
  | 3 => .ok protoSigRes
  | 4 => .ok protoAnnounce
  | 5 => .ok protoBloomFilter
  | 6 => .ok protoPathLookup
  | 7 => .ok protoPathNotify
  | 8 => .ok protoPathBroken
  | 9 => .ok traffic
  | _ => .error .unrecognizedMessage

@[simp] theorem tryFrom_toByte (t : PacketType) : tryFrom t.toByte = .ok t := by cases t <;> rfl

end PacketType

/-! ## Sending -/

def encodeFrame (packetType : PacketType) (payload : Bytes) : Bytes :=
  let contentLen := 1 + payload.length
  encodeUvarint (UInt64.ofNat contentLen) ++ packetType.toByte :: payload

def encodeTrafficFrame (path fromPath : List PeerPort) (source dest : PublicKey) (watermark : UInt64)
    (payload : Bytes) :
    Bytes :=
  let contentLen := 1 + pathSize path + pathSize fromPath + PUBLIC_KEY_SIZE + PUBLIC_KEY_SIZE + uvarintSize watermark +
    payload.length
  encodeUvarint (UInt64.ofNat contentLen) ++ PacketType.traffic.toByte ::
    (encodePath path ++ encodePath fromPath ++ keyBytes source ++ keyBytes dest ++ encodeUvarint watermark ++ payload)

/-- Encode a router action into a frame for its connection. Other actions than messages don't produce frames. -/
def encodeActionFrame : RouterAction → Option (PeerId × Bytes)
  | .sendSigReq peerId req => some (peerId, encodeFrame .protoSigReq req.encode)
  | .sendSigRes peerId res => some (peerId, encodeFrame .protoSigRes res.encode)
  | .sendAnnounce peerId ann => some (peerId, encodeFrame .protoAnnounce ann.encode)
  | .sendBloom peerId bloom => some (peerId, encodeFrame .protoBloomFilter (encodeBloom bloom.asRaw))
  | .sendTraffic peerId tr =>
    some (peerId, encodeTrafficFrame tr.path tr.fromPath tr.source tr.dest tr.watermark tr.payload)
  | .sendPathLookup peerId lookup => some (peerId, encodeFrame .protoPathLookup lookup.encode)
  | .sendPathNotify peerId notify => some (peerId, encodeFrame .protoPathNotify notify.encode)
  | .sendPathBroken peerId broken => some (peerId, encodeFrame .protoPathBroken broken.encode)
  | .deliverTraffic _ => none
  | .pathNotifyCallback _ => none

/-! ## Receiving -/

def readUvarintLoop : Bytes → UInt64 → Nat → Except Error (UInt64 × Bytes)
  | [], _, _ => .error .io
  | byte :: stream, value, shift =>
    if shift ≥ 63 ∧ byte > 1 then .error .decode
    else
      let value := value ||| ((byte &&& 0x7f).toUInt64 <<< UInt64.ofNat shift)
      if byte &&& 0x80 = 0 then .ok (value, stream)
      else if shift + 7 ≥ 70 then .error .decode
      else readUvarintLoop stream value (shift + 7)

def readFrameLen : WireReader UInt64 := fun stream => readUvarintLoop stream 0 0

def readFrame (maxMessageSize : UInt64) : WireReader Bytes := do
  let frameLen ← readFrameLen
  if frameLen > maxMessageSize then throw .oversizedMessage
  Cursor.take .io frameLen.toNat

/-- One end of a connection: the node's key, its id for the connection and the key of the node at the other end. -/
structure Link where
  ourKey : PublicKey
  peerId : PeerId
  peerKey : PublicKey

/-- An error ends the connection; empty frames, keepalives and unknown types lead to no message. -/
def dispatch (env : Env) (link : Link) (rtt : Duration) : Bytes → Except Error (Option Msg)
  | [] => .ok none
  | ptype :: payload =>
    match PacketType.tryFrom ptype with
    | .error _ => .ok none
    | .ok .dummy => .ok none
    | .ok .keepAlive => .ok none
    | .ok .protoSigReq =>
      match SigReq.decode.run' payload with
      | .error _ => .error .decode
      | .ok req => .ok (some (.handleRequest link.peerId link.peerKey req))
    | .ok .protoSigRes =>
      match SigRes.decode.run' payload with
      | .error _ => .error .decode
      | .ok res =>
        -- verify the response before sending to the actor
        if !checkSigRes env res link.ourKey link.peerKey then .error .badMessage
        else .ok (some (.handleResponse link.peerId link.peerKey res rtt))
    | .ok .protoAnnounce =>
      match Announce.decode payload with
      | .error _ => .error .decode
      | .ok ann =>
        if !(fromWire ann).check env then .error .badMessage
        else .ok (some (.handleAnnounce link.peerId link.peerKey (fromWire ann)))
    | .ok .protoBloomFilter =>
      match decodeBloom payload with
      | .error _ => .error .decode
      | .ok raw => .ok (some (.handleBloom link.peerKey (BloomFilter.fromRaw raw)))
    | .ok .protoPathLookup =>
      match PathLookup.decode payload with
      | .error _ => .error .decode
      | .ok lookup => .ok (some (.path (.handleLookup link.peerKey lookup)))
    | .ok .protoPathNotify =>
      match PathNotify.decode payload with
      | .error _ => .error .decode
      | .ok notify => .ok (some (.path (.handleNotify notify)))
    | .ok .protoPathBroken =>
      match PathBroken.decode payload with
      | .error _ => .error .decode
      | .ok broken => .ok (some (.path (.handleBroken broken)))
    | .ok .traffic =>
      match Traffic.decode payload with
      | .error _ => .error .decode
      | .ok tr =>
        .ok (some (.path (.handleTraffic
          { path := tr.path, fromPath := tr.fromPath, source := tr.source, dest := tr.dest, watermark := tr.watermark
            payload := tr.payload, keepalive := false })))

structure Reading where
  msgs : List Msg
  error : Error

def peerReaderLoop (env : Env) (link : Link) (maxMessageSize : UInt64) (rtt : Duration) : Nat → Bytes → Reading
  | 0, _ => { msgs := [], error := .io }
  | fuel + 1, stream =>
    match (readFrame maxMessageSize).run stream with
    | .error e => { msgs := [], error := e }
    | .ok (buf, stream) =>
      match dispatch env link rtt buf with
      | .error e => { msgs := [], error := e }
      | .ok msg =>
        let rest := peerReaderLoop env link maxMessageSize rtt fuel stream
        { rest with msgs := msg.toList ++ rest.msgs }

/-- The peer reader task, on all that comes in on a connection. Every frame takes at least one byte. -/
def peerReader (env : Env) (link : Link) (maxMessageSize : UInt64) (rtt : Duration) (stream : Bytes) : Reading :=
  peerReaderLoop env link maxMessageSize rtt (stream.length + 1) stream

/-! ## Frames and their content -/

def framed (content : Bytes) : Bytes := encodeUvarint (UInt64.ofNat content.length) ++ content

theorem encodeFrame_eq (packetType : PacketType) (payload : Bytes) :
    encodeFrame packetType payload = framed (packetType.toByte :: payload) := by
  rw [framed, length_cons, add_comm]
  rfl

theorem encodeTrafficFrame_eq (path fromPath : List PeerPort) (source dest : PublicKey) (watermark : UInt64)
    (payload : Bytes) : encodeTrafficFrame path fromPath source dest watermark payload =
      encodeFrame .traffic (Traffic.encode { path, fromPath, source, dest, watermark, payload }) := by
  simp only [encodeFrame, Traffic.length_encode]
  simp only [encodeTrafficFrame, Traffic.size, Traffic.encode, add_assoc]

theorem readUvarintLoop_eq (stream : Bytes) : ∀ (value : UInt64) (i : Nat) {v : UInt64} {n : Nat},
    decodeUvarintLoop stream value (7 * i) i = some (v, n) →
      readUvarintLoop stream value (7 * i) = .ok (v, stream.drop (n - i)) := by
  induction stream with
  | nil => exact fun value i v n h => absurd h (by simp [decodeUvarintLoop])
  | cons byte stream ih =>
    intro value i v n h
    simp only [decodeUvarintLoop] at h
    simp only [readUvarintLoop]
    split at h
    · cases h
    next hfit =>
      rw [if_neg hfit]
      split at h
      next hlast =>
        cases h
        rw [if_pos hlast, Nat.add_sub_cancel_left]
        rfl
      next hmore =>
        rw [if_neg hmore]
        split at h
        · cases h
        next hi =>
          have hnext := decodeUvarintLoop_length h
          rw [show 7 * i + 7 = 7 * (i + 1) by omega] at h ⊢
          rw [if_neg (by omega), ih _ _ h, show n - i = n - (i + 1) + 1 by omega, drop_succ_cons]

theorem readUvarintLoop_of_none (stream : Bytes) : ∀ (value : UInt64) (i : Nat),
    decodeUvarintLoop stream value (7 * i) i = none → ∃ e, readUvarintLoop stream value (7 * i) = .error e := by
  induction stream with
  | nil => exact fun _ _ _ => ⟨_, rfl⟩
  | cons byte stream ih =>
    intro value i h
    simp only [decodeUvarintLoop] at h
    simp only [readUvarintLoop]
    split at h
    next hbig => exact ⟨_, if_pos hbig⟩
    next hfit =>
      rw [if_neg hfit]
      split at h
      · cases h
      next hmore =>
        rw [if_neg hmore]
        split at h
        next hlong => exact ⟨_, if_pos (by omega)⟩
        next hi =>
          rw [show 7 * i + 7 = 7 * (i + 1) by omega] at h ⊢
          rw [if_neg (by omega)]
          exact ih _ _ h

theorem reads_frameLen (v : UInt64) : Reads readFrameLen (encodeUvarint v) v := by
  intro rest
  have h := readUvarintLoop_eq _ 0 0 (decodeUvarint_encodeUvarint v rest)
  rw [Nat.sub_zero, drop_left] at h
  exact h

variable {content : Bytes} {maxMessageSize : UInt64} {env : Env} {link : Link}

theorem readFrame_framed (h : content.length ≤ maxMessageSize.toNat) :
    Reads (readFrame maxMessageSize) (framed content) content := by
  have hlen : (ofNat content.length).toNat = content.length := by
    have := maxMessageSize.toNat_lt
    rw [toNat_ofNat', mod_eq_of_lt (by omega)]
  have hfits : ¬ ofNat content.length > maxMessageSize := by
    rw [gt_iff_lt, lt_iff_toNat_lt, hlen]
    omega
  have htake := Cursor.reads_take Error.io content
  refine (reads_frameLen _).bind ?_
  simp only [hfits, if_false, hlen]
  exact htake

theorem readFrame_oversized (h : maxMessageSize.toNat < content.length)
    (hlen : content.length < 2 ^ 64) (rest : Bytes) :
    (readFrame maxMessageSize).run (framed content ++ rest) = .error .oversizedMessage := by
  have hbig : ofNat content.length > maxMessageSize := by
    rw [gt_iff_lt, lt_iff_toNat_lt, toNat_ofNat', mod_eq_of_lt hlen]
    exact h
  rw [framed, append_assoc, readFrame, StateT.run_bind, reads_frameLen]
  show (if _ then _ else _ : WireReader Bytes).run _ = _
  rw [if_pos hbig]
  rfl

theorem framed_ne_nil (content : Bytes) : framed content ≠ [] := by
  exact append_ne_nil_of_left_ne_nil (encodeUvarint_ne_nil _) _

/-! ## What a frame carries -/

/-- The message that an action carries to the node at the other end of a connection; `keepalive` is local only. -/
def RouterAction.message (link : Link) (rtt : Duration) : RouterAction → Option Msg
  | .sendSigReq _ req => some (.handleRequest link.peerId link.peerKey req)
  | .sendSigRes _ res => some (.handleResponse link.peerId link.peerKey res rtt)
  | .sendAnnounce _ ann => some (.handleAnnounce link.peerId link.peerKey (fromWire ann))
  | .sendBloom _ bloom => some (.handleBloom link.peerKey bloom)
  | .sendTraffic _ tr => some (.path (.handleTraffic { tr with keepalive := false }))
  | .sendPathLookup _ lookup => some (.path (.handleLookup link.peerKey lookup))
  | .sendPathNotify _ notify => some (.path (.handleNotify notify))
  | .sendPathBroken _ broken => some (.path (.handleBroken broken))
  | .deliverTraffic _ => none
  | .pathNotifyCallback _ => none

/-- The signatures in an action are good at the other end, and its paths have no zero in them. -/
def RouterAction.Sound (env : Env) (link : Link) : RouterAction → Prop
  | .sendSigRes _ res => checkSigRes env res link.ourKey link.peerKey = true
  | .sendAnnounce _ ann => (fromWire ann).check env = true
  | .sendTraffic _ tr => Ported tr.path ∧ Ported tr.fromPath
  | .sendPathLookup _ lookup => Ported lookup.fromPath
  | .sendPathNotify _ notify => Ported notify.path ∧ Ported notify.info.path
  | .sendPathBroken _ broken => Ported broken.path
  | _ => True

theorem dispatch_action {a : RouterAction} {id : PeerId} {frame : Bytes}
    (hframe : encodeActionFrame a = some (id, frame)) (hsound : a.Sound env link) (rtt : Duration) :
    ∃ content msg, frame = framed content ∧ a.message link rtt = some msg ∧
      dispatch env link rtt content = .ok (some msg) := by
  cases a with
  | sendSigReq peerId req =>
    cases hframe
    refine ⟨_, _, encodeFrame_eq _ _, rfl, ?_⟩
    rw [dispatch, PacketType.tryFrom_toByte]
    simp only [(show SigReq.decode.run' req.encode = .ok req from req.reads.completes)]
  | sendSigRes peerId res =>
    cases hframe
    refine ⟨_, _, encodeFrame_eq _ _, rfl, ?_⟩
    have hcheck : checkSigRes env res link.ourKey link.peerKey = true := hsound
    rw [dispatch, PacketType.tryFrom_toByte]
    simp only [(show SigRes.decode.run' res.encode = .ok res from res.reads.completes), hcheck, Bool.not_true,
      Bool.false_eq_true, if_false]
  | sendAnnounce peerId ann =>
    cases hframe
    refine ⟨_, _, encodeFrame_eq _ _, rfl, ?_⟩
    have hcheck : (fromWire ann).check env = true := hsound
    rw [dispatch, PacketType.tryFrom_toByte]
    simp only [ann.decodes.1, hcheck, Bool.not_true, Bool.false_eq_true, if_false]
  | sendBloom peerId bloom =>
    cases hframe
    refine ⟨_, _, encodeFrame_eq _ _, rfl, ?_⟩
    rw [dispatch, PacketType.tryFrom_toByte]
    simp only [(decodeBloom_decodes bloom.length_asRaw).1, BloomFilter.fromRaw_asRaw]
  | sendTraffic peerId tr =>
    cases hframe
    refine ⟨_, _, (encodeTrafficFrame_eq _ _ _ _ _ _).trans (encodeFrame_eq _ _), rfl, ?_⟩
    rw [dispatch, PacketType.tryFrom_toByte]
    simp only [Traffic.decode_encode { tr with } hsound.1 hsound.2]
  | sendPathNotify peerId notify =>
    cases hframe
    refine ⟨_, _, encodeFrame_eq _ _, rfl, ?_⟩
    rw [dispatch, PacketType.tryFrom_toByte]
    simp only [(PathNotify.decodes hsound.1 hsound.2).1]
  | sendPathLookup peerId lookup =>
    cases hframe
    refine ⟨_, _, encodeFrame_eq _ _, rfl, ?_⟩
    rw [dispatch, PacketType.tryFrom_toByte]
    simp only [(PathLookup.decodes hsound).1]
  | sendPathBroken peerId broken =>
    cases hframe
    refine ⟨_, _, encodeFrame_eq _ _, rfl, ?_⟩
    rw [dispatch, PacketType.tryFrom_toByte]
    simp only [(PathBroken.decodes hsound).1]
  | deliverTraffic tr | pathNotifyCallback key => cases hframe

/-! ## What the reader lets through -/

/-- What the router may count on: the checks of the reader, and the ports of `Peers`. -/
def Vetted (env : Env) (ourKey : PublicKey) : Msg → Prop
  | .addPeer entry => entry.port ≠ 0
  | .handleResponse _ key res _ => checkSigRes env res ourKey key = true
  | .handleAnnounce _ _ ann => ann.check env = true
  | .path (.handleTraffic tr) => Ported tr.path ∧ Ported tr.fromPath
  | .path (.handleLookup _ lookup) => Ported lookup.fromPath
  | .path (.handleNotify notify) => Ported notify.path ∧ Ported notify.info.path
  | .path (.handleBroken broken) => Ported broken.path
  | _ => True

theorem dispatch_vetted {rtt : Duration} {buf : Bytes} {msg : Msg}
    (h : dispatch env link rtt buf = .ok (some msg)) : Vetted env link.ourKey msg := by
  cases buf with
  | nil => cases h
  | cons ptype payload =>
    simp only [dispatch] at h
    split at h
    · cases h
    · cases h
    · cases h
    · split at h
      · cases h
      cases h
      trivial
    · split at h
      · cases h
      split at h
      · cases h
      next hcheck =>
        cases h
        rwa [Bool.not_eq_true', Bool.not_eq_false] at hcheck
    · split at h
      · cases h
      split at h
      · cases h
      next hcheck =>
        cases h
        rwa [Bool.not_eq_true', Bool.not_eq_false] at hcheck
    · split at h
      · cases h
      cases h
      trivial
    · split at h
      · cases h
      next hdecode =>
        cases h
        exact PathLookup.decode_ported hdecode
    · split at h
      · cases h
      next hdecode =>
        cases h
        exact PathNotify.decode_ported hdecode
    · split at h
      · cases h
      next hdecode =>
        cases h
        exact PathBroken.decode_ported hdecode
    split at h
    · cases h
    next hdecode =>
      cases h
      exact Traffic.decode_ported hdecode

/-! ## A stream of frames -/

def readFramesLoop (maxMessageSize : UInt64) : Nat → Bytes → List Bytes × Error
  | 0, _ => ([], .io)
  | fuel + 1, stream =>
    match (readFrame maxMessageSize).run stream with
    | .error e => ([], e)
    | .ok (buf, stream) =>
      let rest := readFramesLoop maxMessageSize fuel stream
      (buf :: rest.1, rest.2)

def readFrames (maxMessageSize : UInt64) (stream : Bytes) : List Bytes × Error :=
  readFramesLoop maxMessageSize (stream.length + 1) stream

theorem readFrames_framed {contents : List Bytes} (h : ∀ content ∈ contents, content.length ≤ maxMessageSize.toNat) :
    readFrames maxMessageSize (contents.flatMap framed) = (contents, .io) := by
  have hloop : ∀ fuel, contents.length < fuel →
      readFramesLoop maxMessageSize fuel (contents.flatMap framed) = (contents, .io) := by
    induction contents with
    | nil =>
      intro fuel hfuel
      obtain ⟨fuel, rfl⟩ := exists_eq_succ_of_ne_zero (ne_zero_of_lt hfuel)
      rfl
    | cons content contents ih =>
      intro fuel hfuel
      obtain ⟨fuel, rfl⟩ := exists_eq_succ_of_ne_zero (ne_zero_of_lt hfuel)
      rw [length_cons] at hfuel
      have hrest := ih (fun content' hmem => h content' (mem_cons_of_mem _ hmem)) fuel (by omega)
      rw [flatMap_cons, readFramesLoop, readFrame_framed (h content mem_cons_self)]
      simp only [hrest]
  refine hloop _ ?_
  -- every frame takes at least one byte
  have hlen : contents.length ≤ (contents.flatMap framed).length := by
    rw [length_flatMap, ← length_map (f := fun content => (framed content).length)]
    refine length_le_sum_of_one_le _ fun n hn => ?_
    obtain ⟨content, -, rfl⟩ := mem_map.mp hn
    exact length_pos_iff.mpr (framed_ne_nil content)
  omega

def dispatchAll (env : Env) (link : Link) (rtt : Duration) : List Bytes → Error → Reading
  | [], e => { msgs := [], error := e }
  | buf :: bufs, e =>
    match dispatch env link rtt buf with
    | .error e => { msgs := [], error := e }
    | .ok msg =>
      let rest := dispatchAll env link rtt bufs e
      { rest with msgs := msg.toList ++ rest.msgs }

theorem peerReader_eq (env : Env) (link : Link) (maxMessageSize : UInt64) (rtt : Duration) (stream : Bytes) :
    peerReader env link maxMessageSize rtt stream =
      dispatchAll env link rtt (readFrames maxMessageSize stream).1 (readFrames maxMessageSize stream).2 := by
  rw [peerReader, readFrames]
  generalize stream.length + 1 = fuel
  induction fuel generalizing stream with
  | zero => rfl
  | succ fuel ih =>
    rw [peerReaderLoop, readFramesLoop]
    cases (readFrame maxMessageSize).run stream with
    | error e => rfl
    | ok read =>
      simp only [dispatchAll, ih]

def Fits (maxMessageSize : UInt64) (frame : Bytes) : Prop :=
  ∃ content, frame = framed content ∧ content.length ≤ maxMessageSize.toNat

theorem framed_inj {content' : Bytes} (h : framed content = framed content') : content = content' := by
  have hread := reads_frameLen (ofNat content.length) content
  have hread' := reads_frameLen (ofNat content'.length) content'
  rw [← framed] at hread hread'
  rw [h, hread', Except.ok.injEq, Prod.mk.injEq] at hread
  exact hread.2.symm

theorem peerReader_frames (rtt : Duration) (sent : List (RouterAction × Bytes))
    (h : ∀ p ∈ sent, p.1.Sound env link ∧ (∃ id, encodeActionFrame p.1 = some (id, p.2)) ∧ Fits maxMessageSize p.2) :
    peerReader env link maxMessageSize rtt (sent.flatMap Prod.snd) =
      { msgs := sent.filterMap fun p => p.1.message link rtt, error := .io } := by
  have hcontents : ∃ contents : List Bytes, contents.flatMap framed = sent.flatMap Prod.snd ∧
      (∀ content ∈ contents, content.length ≤ maxMessageSize.toNat) ∧
      dispatchAll env link rtt contents .io =
        { msgs := sent.filterMap fun p => p.1.message link rtt, error := .io } := by
    induction sent with
    | nil => exact ⟨[], rfl, fun _ hmem => absurd hmem not_mem_nil, rfl⟩
    | cons p sent ih =>
      obtain ⟨hsound, ⟨id, hframe⟩, content', hcontent', hfits⟩ := h p mem_cons_self
      obtain ⟨content, msg, hcontent, hmsg, hdispatch⟩ := dispatch_action hframe hsound rtt
      obtain ⟨contents, hflat, hall, hrest⟩ := ih fun p hp => h p (mem_cons_of_mem _ hp)
      have hsame : content' = content := framed_inj (hcontent'.symm.trans hcontent)
      refine ⟨content :: contents, ?_, ?_, ?_⟩
      · rw [flatMap_cons, flatMap_cons, hflat, hcontent]
      · intro c hc
        rcases mem_cons.mp hc with rfl | hc
        · exact hsame ▸ hfits
        · exact hall c hc
      rw [filterMap_cons, hmsg, dispatchAll, hdispatch]
      simp only [hrest, Option.toList_some, singleton_append]
  obtain ⟨contents, hflat, hall, hdispatched⟩ := hcontents
  rw [peerReader_eq, ← hflat, readFrames_framed hall]
  exact hdispatched

end Yggdrasil
