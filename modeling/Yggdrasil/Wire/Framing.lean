import Yggdrasil.Wire.Frames

/-!
# The framing of a connection

What one end writes as frames, the other end reads as the same packets: the loop of `peer_reader` as far as it takes
frames off the stream. `encode_traffic_frame` has to compute the length of what `Traffic::encode` writes, and
`read_uvarint` has to read from a connection what `decode_uvarint` decodes from memory.
-/

namespace Yggdrasil
open List

/-- Split off the type byte. Empty frames and frames of unknown type are skipped. -/
def splitType : Bytes → Option (PacketType × Bytes)
  | [] => none
  | ptype :: payload =>
    match PacketType.tryFrom ptype with
    | .error _ => none
    | .ok t => some (t, payload)

def readPackets (maxMessageSize : UInt64) (stream : Bytes) : List (PacketType × Bytes) × Error :=
  ((readFrames maxMessageSize stream).1.filterMap splitType, (readFrames maxMessageSize stream).2)

/-- A message that is framed by `encode_frame`, or a traffic packet that is framed by `encode_traffic_frame`. -/
inductive Outbound where
  | message (packetType : PacketType) (payload : Bytes)
  | traffic (tr : Traffic)

namespace Outbound

def frame : Outbound → Bytes
  | message packetType payload => encodeFrame packetType payload
  | traffic tr => encodeTrafficFrame tr.path tr.fromPath tr.source tr.dest tr.watermark tr.payload

def packet : Outbound → PacketType × Bytes
  | message packetType payload => (packetType, payload)
  | traffic tr => (.traffic, tr.encode)

def content (m : Outbound) : Bytes := m.packet.1.toByte :: m.packet.2

theorem frame_eq (m : Outbound) : m.frame = framed m.content := by
  cases m with
  | message packetType payload => exact encodeFrame_eq packetType payload
  | traffic tr => exact (encodeTrafficFrame_eq _ _ _ _ _ _).trans (encodeFrame_eq _ _)

theorem splitType_content (m : Outbound) : splitType m.content = some m.packet := by
  simp only [content, splitType, PacketType.tryFrom_toByte]

end Outbound

theorem readPackets_frames {maxMessageSize : UInt64} {sent : List Outbound}
    (h : ∀ m ∈ sent, m.content.length ≤ maxMessageSize.toNat) :
    readPackets maxMessageSize (sent.flatMap Outbound.frame) = (sent.map Outbound.packet, .io) := by
  have hstream : sent.flatMap Outbound.frame = (sent.map Outbound.content).flatMap framed := by
    rw [flatMap_map]
    exact congrArg (sent.flatMap ·) (funext Outbound.frame_eq)
  have hread : readFrames maxMessageSize (sent.flatMap Outbound.frame) = (sent.map Outbound.content, .io) := by
    rw [hstream]
    refine readFrames_framed fun content hmem => ?_
    obtain ⟨m, hm, rfl⟩ := mem_map.mp hmem
    exact h m hm
  rw [readPackets, hread, filterMap_map]
  have hsplit : splitType ∘ Outbound.content = some ∘ Outbound.packet := funext Outbound.splitType_content
  rw [hsplit, filterMap_eq_map]

/-- The two decoders of lengths agree. -/
theorem readUvarint_iff (stream : Bytes) (v : UInt64) (rest : Bytes) : readUvarintLoop stream 0 0 = .ok (v, rest) ↔
      ∃ n, decodeUvarint stream = some (v, n) ∧ n ≤ stream.length ∧ rest = stream.drop n := by
  cases hdecode : decodeUvarint stream with
  | none =>
    obtain ⟨e, he⟩ := readUvarintLoop_of_none stream 0 0 hdecode
    rw [he]
    simp
  | some found =>
    obtain ⟨v', n⟩ := found
    have hlen := decodeUvarintLoop_length hdecode
    have hread := readUvarintLoop_eq stream 0 0 hdecode
    rw [hread, Except.ok.injEq, Prod.mk.injEq]
    constructor
    · rintro ⟨rfl, rfl⟩
      exact ⟨n, rfl, by omega, rfl⟩
    rintro ⟨n', heq, -, rfl⟩
    cases heq
    exact ⟨rfl, rfl⟩

/-- **What is framed at one end of a connection is read at the other**, and the two encoders of traffic and the two
decoders of lengths agree. -/
theorem stream_framing :
    (∀ (maxMessageSize : UInt64) (sent : List Outbound), (∀ m ∈ sent, m.content.length ≤ maxMessageSize.toNat) →
      readPackets maxMessageSize (sent.flatMap Outbound.frame) = (sent.map Outbound.packet, .io)) ∧
    (∀ path fromPath source dest watermark payload, encodeTrafficFrame path fromPath source dest watermark payload =
        encodeFrame .traffic (Traffic.encode { path, fromPath, source, dest, watermark, payload })) ∧
    ∀ stream v rest, readUvarintLoop stream 0 0 = .ok (v, rest) ↔
      ∃ n, decodeUvarint stream = some (v, n) ∧ n ≤ stream.length ∧ rest = stream.drop n :=
  ⟨fun _ _ h => readPackets_frames h, encodeTrafficFrame_eq, readUvarint_iff⟩

end Yggdrasil
