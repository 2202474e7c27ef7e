import Yggdrasil.Wire.Mtu

/-!
# Key sequence numbers

The additions on key sequence numbers in `recv_snapshot`, `handle_update` and `maybe_ratchet_on_recv`. A release build
takes them modulo `2^64`, as the model of the session does; a build with overflow checks panics, as `execChecked` does.
-/

namespace Yggdrasil
open Option

def checkedAdd (a b : UInt64) : Option UInt64 := if a.toNat + b.toNat < UInt64.size then some (a + b) else none

theorem checkedAdd_one (a : UInt64) : checkedAdd a 1 = if a = u64Max then none else some (a + 1) := by
  have hone : (1 : UInt64).toNat = 1 := rfl
  have hmax : u64Max.toNat = 18446744073709551615 := rfl
  have hlt := a.toNat_lt
  unfold checkedAdd UInt64.size
  by_cases h : a = u64Max
  · subst h
    rw [hmax, if_neg (by omega), if_pos rfl]
  have hne : a.toNat ≠ u64Max.toNat := fun heq => h (UInt64.toNat.inj heq)
  rw [if_pos (by omega), if_neg h]

namespace Session

/-- The numbers of a traffic packet, or nothing if it is too short, of another type or not decodable. -/
def readHeader (msg : Bytes) : Option TrafficHeader :=
  if msg.length < SESSION_TRAFFIC_OVERHEAD_MIN ∨ msg.head? ≠ some SESSION_TYPE_TRAFFIC then none
  else
    (decodeUvarint (msg.drop 1)).bind fun remoteKeySeq =>
      (decodeUvarint (msg.drop (1 + remoteKeySeq.2))).bind fun localKeySeq =>
        (decodeUvarint (msg.drop (1 + remoteKeySeq.2 + localKeySeq.2))).map fun nonce =>
          { localKeySeq := remoteKeySeq.1, remoteKeySeq := localKeySeq.1, nonce := nonce.1 }

/-- A byte string that was received, with the box that stands behind its header. -/
structure Datagram where
  bytes : Bytes
  body : Sealed TrafficInner

def Datagram.msg (self : Datagram) : TrafficMsg := { header := readHeader self.bytes, body := self.body }

namespace SessionInfo

/-! ## With overflow checks -/

variable (self : SessionInfo)

def ratchetKeysChecked (newNext : BoxKeys) : Option SessionInfo :=
  (checkedAdd self.localKeySeq 1).map fun localKeySeq =>
    { self with recvKeys := self.sendKeys, sendKeys := self.nextKeys, nextKeys := newNext, localKeySeq }

def handleUpdateChecked (init : SessionInit) (now : Instant) (rng : Rng) :
    Option (SessionInfo × Rng) :=
  let self := { self with
    current := init.current
    next := init.next
    seq := init.seq
    remoteKeySeq := init.keySeq }
  let newNext := newBoxKeys rng
  (self.ratchetKeysChecked newNext.1).map fun self =>
    ({ self.fixShared 0 self.sendNonce with lastActivity := now }, newNext.2)

def recvSnapshotChecked (msg : TrafficMsg) : Option (Except RecvSnapshotError RecvSnapshot) :=
  match msg.header with
  | none => some (.error .drop)
  | some ⟨remoteKeySeq, localKeySeq, nonce⟩ =>
    (checkedAdd self.remoteKeySeq 1).bind fun nextRemote =>
      (checkedAdd localKeySeq 1).map fun nextLocal =>
        let fromCurrent := remoteKeySeq = self.remoteKeySeq
        let fromNext := remoteKeySeq = nextRemote
        let toRecv := nextLocal = self.localKeySeq
        let toSend := localKeySeq = self.localKeySeq
        let snapshot (case : DecryptCase) : Except RecvSnapshotError RecvSnapshot :=
          if ¬ self.caseNonce case < nonce then .error .drop
          else .ok { remoteKeySeq := self.remoteKeySeq, nonce, shared := self.caseShared case, case }
        if fromCurrent ∧ toRecv then snapshot .currentToRecv
        else if fromNext ∧ toSend then snapshot .nextToSend
        else if fromNext ∧ toRecv then snapshot .nextToRecv
        else .error (.sendInit self.sendKeys.pub self.nextKeys.pub self.localKeySeq)

def maybeRatchetOnRecvChecked (innerKey : CurvePublicKey) (nonce : UInt64) (now : Instant)
    (rng : Rng) : Option (SessionInfo × Rng) :=
  if self.shouldRotate now then
    (checkedAdd self.remoteKeySeq 1).bind fun remoteKeySeq =>
      let self := { self with current := self.next, next := innerKey, remoteKeySeq }
      let newNext := newBoxKeys rng
      (self.ratchetKeysChecked newNext.1).map fun self =>
        ({ self.fixShared nonce 0 with rotated := some now }, newNext.2)
  else some (self, rng)

def recvFinalizeChecked (snap : RecvSnapshot) (innerKey : CurvePublicKey) (payloadLen : UInt64)
    (now : Instant) (rng : Rng) : Option (SessionInfo × Rng) :=
  let touch (s : SessionInfo) : SessionInfo := { s with rx := s.rx + payloadLen, lastActivity := now }
  if self.remoteKeySeq ≠ snap.remoteKeySeq then some (touch self, rng)
  else
    match snap.case with
    | .currentToRecv => some (touch { self with recvNonce := snap.nonce }, rng)
    | .nextToSend =>
      let self := { self with nextSendNonce := snap.nonce }
      (self.maybeRatchetOnRecvChecked innerKey snap.nonce now rng).map fun r => (touch r.1, r.2)
    | .nextToRecv =>
      let self := { self with nextRecvNonce := snap.nonce }
      (self.maybeRatchetOnRecvChecked innerKey snap.nonce now rng).map fun r => (touch r.1, r.2)

/-! ## When a function panics -/

variable (self : SessionInfo)

theorem ratchetKeysChecked_eq (newNext : BoxKeys) :
    self.ratchetKeysChecked newNext = if self.localKeySeq = u64Max then none else some (self.ratchetKeys newNext) := by
  unfold ratchetKeysChecked
  rw [checkedAdd_one]
  split <;> rfl

theorem handleUpdateChecked_eq (init : SessionInit) (now : Instant) (rng : Rng) :
    self.handleUpdateChecked init now rng =
      if self.localKeySeq = u64Max then none else some (self.handleUpdate init now rng) := by
  simp only [handleUpdateChecked, ratchetKeysChecked_eq]
  split <;> rfl

theorem recvSnapshotChecked_eq (msg : TrafficMsg) : self.recvSnapshotChecked msg =
      if ∃ hdr, msg.header = some hdr ∧ (self.remoteKeySeq = u64Max ∨ hdr.remoteKeySeq = u64Max) then none
      else some (self.recvSnapshot msg) := by
  unfold recvSnapshotChecked recvSnapshot
  cases hheader : msg.header with
  | none => rw [if_neg (by simp)]
  | some hdr =>
    obtain ⟨remoteKeySeq, localKeySeq, nonce⟩ := hdr
    simp only [some.injEq, exists_eq_left', checkedAdd_one]
    by_cases hremote : self.remoteKeySeq = u64Max
    · rw [if_pos hremote, if_pos (Or.inl hremote), bind_none]
    by_cases hlocal : localKeySeq = u64Max
    · rw [if_neg hremote, bind_some, if_pos hlocal, if_pos (Or.inr hlocal), map_none]
    · rw [if_neg hremote, bind_some, if_neg hlocal, if_neg (not_or.mpr ⟨hremote, hlocal⟩), map_some]

theorem maybeRatchetOnRecvChecked_eq (innerKey : CurvePublicKey) (nonce : UInt64) (now : Instant) (rng : Rng) :
    self.maybeRatchetOnRecvChecked innerKey nonce now rng =
      if self.shouldRotate now ∧ (self.remoteKeySeq = u64Max ∨ self.localKeySeq = u64Max) then none
      else some (self.maybeRatchetOnRecv innerKey nonce now rng) := by
  unfold maybeRatchetOnRecvChecked maybeRatchetOnRecv
  by_cases hrotate : self.shouldRotate now
  · rw [if_pos hrotate, if_pos hrotate, checkedAdd_one]
    by_cases hremote : self.remoteKeySeq = u64Max
    · rw [if_pos hremote, if_pos ⟨hrotate, .inl hremote⟩, bind_none]
    rw [if_neg hremote, bind_some]
    simp only [ratchetKeysChecked_eq]
    by_cases hlocal : self.localKeySeq = u64Max
    · rw [if_pos hlocal, if_pos ⟨hrotate, .inr hlocal⟩, map_none]
    · rw [if_neg hlocal, if_neg (fun h => not_or.mpr ⟨hremote, hlocal⟩ h.2), map_some]
  · rw [if_neg hrotate, if_neg hrotate, if_neg fun h => hrotate h.1]

theorem recvFinalizeChecked_eq {snap : RecvSnapshot}
    (hsnap : snap.remoteKeySeq = self.remoteKeySeq) (innerKey : CurvePublicKey) (payloadLen : UInt64) (now : Instant)
    (rng : Rng) :
    self.recvFinalizeChecked snap innerKey payloadLen now rng =
      if snap.case ≠ .currentToRecv ∧ self.shouldRotate now ∧
        (self.remoteKeySeq = u64Max ∨ self.localKeySeq = u64Max) then none
      else some (self.recvFinalize snap innerKey payloadLen now rng) := by
  unfold recvFinalizeChecked recvFinalize
  simp only [hsnap, ne_eq, not_true_eq_false, if_false]
  -- the counter of the path is written before the ratchet, which does not look at it
  have hratchet : ∀ s : SessionInfo, s.rotated = self.rotated → s.remoteKeySeq = self.remoteKeySeq →
      s.localKeySeq = self.localKeySeq → s.maybeRatchetOnRecvChecked innerKey snap.nonce now rng =
        if self.shouldRotate now ∧ (self.remoteKeySeq = u64Max ∨ self.localKeySeq = u64Max) then none
        else some (s.maybeRatchetOnRecv innerKey snap.nonce now rng) := by
    intro s hrotated hremote hlocal
    rw [maybeRatchetOnRecvChecked_eq, hremote, hlocal, shouldRotate, hrotated, ← shouldRotate]
  cases hcase : snap.case with
  | currentToRecv => rw [if_neg (by simp)]
  | nextToSend =>
    simp only [hratchet { self with nextSendNonce := snap.nonce } rfl rfl rfl, reduceCtorEq,
      not_false_eq_true, true_and]
    split <;> rfl
  | nextToRecv =>
    simp only [hratchet { self with nextRecvNonce := snap.nonce } rfl rfl rfl, reduceCtorEq,
      not_false_eq_true, true_and]
    split <;> rfl

end SessionInfo

/-! ## Runs of one session -/

inductive SessionEvent where
  | handshake (m : SessionInit) (now : Instant) (rng : Rng)
  | send (msg : Bytes) (now : Instant) (rng : Rng)
  | recv (packet : Datagram) (now : Instant) (rng : Rng)

namespace SessionInfo
variable (self : SessionInfo)

def receive (msg : TrafficMsg) (now : Instant) (rng : Rng) : SessionInfo :=
  match self.recvSnapshot msg with
  | .error _ => self
  | .ok snap =>
    match decryptOutsideLock snap msg with
    | .error _ => self
    | .ok (payload, innerKey) => (self.recvFinalize snap innerKey payload.length.toUInt64 now rng).1

def receiveChecked (msg : TrafficMsg) (now : Instant) (rng : Rng) : Option SessionInfo :=
  match self.recvSnapshotChecked msg with
  | none => none
  | some (.error _) => some self
  | some (.ok snap) =>
    match decryptOutsideLock snap msg with
    | .error _ => some self
    | .ok (payload, innerKey) => (self.recvFinalizeChecked snap innerKey payload.length.toUInt64 now rng).map Prod.fst

def exec : SessionEvent → SessionInfo
  | .handshake m now rng => if m.seq ≤ self.seq then self else (self.handleUpdate m now rng).1
  | .send msg now rng => (self.doSend msg now rng).2.1
  | .recv packet now rng => self.receive packet.msg now rng

def execChecked : SessionEvent → Option SessionInfo
  | .handshake m now rng => if m.seq ≤ self.seq then some self else (self.handleUpdateChecked m now rng).map Prod.fst
  | .send msg now rng => some (self.doSend msg now rng).2.1
  | .recv packet now rng => self.receiveChecked packet.msg now rng

/-- The packet is accepted on a key of the peer that is not in use yet, and the keys ratchet. -/
def Ratchets (msg : TrafficMsg) (now : Instant) : Prop :=
  ∃ snap opened, self.recvSnapshot msg = .ok snap ∧ decryptOutsideLock snap msg = .ok opened ∧
    snap.case ≠ .currentToRecv ∧ self.shouldRotate now

/-- No addition overflows at the event. -/
def Fits : SessionEvent → Prop
  | .handshake m _ _ => self.seq < m.seq → self.localKeySeq ≠ u64Max
  | .send _ _ _ => True
  | .recv packet now _ => ∀ hdr, readHeader packet.bytes = some hdr →
      self.remoteKeySeq ≠ u64Max ∧ hdr.remoteKeySeq ≠ u64Max ∧
        (self.Ratchets packet.msg now → self.localKeySeq ≠ u64Max)

theorem receiveChecked_of_fits {self : SessionInfo} {msg : TrafficMsg} {now : Instant}
    (h : ∀ hdr, msg.header = some hdr →
      self.remoteKeySeq ≠ u64Max ∧ hdr.remoteKeySeq ≠ u64Max ∧ (self.Ratchets msg now → self.localKeySeq ≠ u64Max))
    (rng : Rng) : self.receiveChecked msg now rng = some (self.receive msg now rng) := by
  have hsnapshot : self.recvSnapshotChecked msg = some (self.recvSnapshot msg) := by
    rw [recvSnapshotChecked_eq, if_neg]
    intro ⟨hdr, hheader, hmax⟩
    obtain ⟨hremote, hlocal, -⟩ := h hdr hheader
    exact hmax.elim hremote hlocal
  unfold receiveChecked receive
  rw [hsnapshot]
  cases hsnap : self.recvSnapshot msg with
  | error e => rfl
  | ok snap =>
    simp only
    split
    · rfl
    next payload innerKey hopened =>
      obtain ⟨hdr, hheader, -, -, hseq, -⟩ := recvSnapshot_ok hsnap
      obtain ⟨hremote, -, hratchets⟩ := h hdr hheader
      rw [recvFinalizeChecked_eq self hseq, if_neg]
      · rfl
      intro ⟨hcase, hrotate, hmax⟩
      exact hmax.elim hremote (hratchets ⟨snap, _, hsnap, hopened, hcase, hrotate⟩)

theorem receiveChecked_of_not_fits {self : SessionInfo} {msg : TrafficMsg} {now : Instant} {hdr : TrafficHeader}
    (hheader : msg.header = some hdr) (h : ¬ (self.remoteKeySeq ≠ u64Max ∧ hdr.remoteKeySeq ≠ u64Max ∧
      (self.Ratchets msg now → self.localKeySeq ≠ u64Max))) (rng : Rng) : self.receiveChecked msg now rng = none := by
  unfold receiveChecked
  rw [recvSnapshotChecked_eq]
  by_cases hmax : self.remoteKeySeq = u64Max ∨ hdr.remoteKeySeq = u64Max
  · rw [if_pos ⟨hdr, hheader, hmax⟩]
  obtain ⟨hremote, hlocal⟩ := not_or.mp hmax
  have hratchets : self.Ratchets msg now ∧ self.localKeySeq = u64Max := by
    by_contra hcon
    exact h ⟨hremote, hlocal, fun hr heq => hcon ⟨hr, heq⟩⟩
  obtain ⟨⟨snap, opened, hsnap, hopened, hcase, hrotate⟩, hmaxLocal⟩ := hratchets
  obtain ⟨-, -, -, -, hseq, -⟩ := recvSnapshot_ok hsnap
  rw [if_neg, hsnap]
  · simp only [hopened]
    rw [recvFinalizeChecked_eq self hseq, if_pos ⟨hcase, hrotate, .inr hmaxLocal⟩, map_none]
  intro ⟨hdr', hheader', hmax'⟩
  rw [hheader, some.injEq] at hheader'
  subst hheader'
  exact hmax hmax'

theorem execChecked_of_fits {self : SessionInfo} {e : SessionEvent} (h : self.Fits e) :
    self.execChecked e = some (self.exec e) := by
  unfold execChecked exec
  cases e with
  | handshake m now rng =>
    simp only
    split
    · rfl
    next hnew => rw [handleUpdateChecked_eq, if_neg (h (UInt64.not_le.mp hnew)), map_some]
  | send msg now rng => rfl
  | recv packet now rng =>
    show self.receiveChecked packet.msg now rng = _
    apply receiveChecked_of_fits
    exact h

theorem execChecked_of_not_fits {self : SessionInfo} {e : SessionEvent} (h : ¬ self.Fits e) :
    self.execChecked e = none := by
  unfold execChecked
  cases e with
  | handshake m now rng =>
    obtain ⟨hlt, hmax⟩ := Classical.not_imp.mp h
    simp only
    rw [if_neg (UInt64.not_le.mpr hlt), handleUpdateChecked_eq, if_pos (not_not.mp hmax), map_none]
  | send msg now rng => exact absurd trivial h
  | recv packet now rng =>
    obtain ⟨hdr, hheader⟩ := not_forall.mp h
    obtain ⟨hread, hmax⟩ := Classical.not_imp.mp hheader
    exact receiveChecked_of_not_fits hread hmax rng

end SessionInfo

open SessionInfo in
/-- **When no addition on key sequence numbers overflows**: a session gets through any events exactly if each of them
fits the state it meets. -/
theorem keySeq_overflow_iff (self : SessionInfo) (es : List SessionEvent) :
    (∃ t, es.foldlM execChecked self = some t) ↔ Lts.Admitted exec SessionInfo.Fits self es := by
  induction es generalizing self with
  | nil => exact iff_of_true ⟨self, rfl⟩ trivial
  | cons e es ih =>
    rw [List.foldlM_cons]
    by_cases h : self.Fits e
    · rw [execChecked_of_fits h]
      show (∃ t, es.foldlM execChecked (self.exec e) = some t) ↔ _
      rw [ih]
      exact (and_iff_right h).symm
    rw [execChecked_of_not_fits h]
    refine iff_of_false (fun ⟨t, ht⟩ => ?_) fun hadmitted => h hadmitted.1
    cases ht

def maxSeqPacket : Datagram :=
  { bytes := [3, 0, 255, 255, 255, 255, 255, 255, 255, 255, 255, 1, 1] ++ List.replicate 48 0
    body := ⟨makeSalsaBox ⟨⟨7, 0⟩⟩ ⟨7, 0⟩, 1, ⟨none, []⟩⟩ }

/-- **A packet makes a session panic**: its sender names the largest number as the key of the receiver. -/
theorem keySeq_overflows : ∃ (info : SessionInfo) (ack : SessionInit),
    info = (SessionInfo.new ⟨⟨7, 0⟩⟩ ⟨⟨7, 1⟩⟩ 10 0 ⟨1, 0⟩).1 ∧
    [SessionEvent.recv maxSeqPacket 0 ⟨1, 3⟩].foldlM SessionInfo.execChecked info = none ∧
    [.handshake ack 0 ⟨1, 3⟩, SessionEvent.recv { maxSeqPacket with bytes := 3 :: List.replicate 60 0 } 0 ⟨1, 4⟩].foldlM
      SessionInfo.execChecked info = none := by
  refine ⟨_, ⟨⟨⟨7, 0⟩⟩, ⟨⟨7, 1⟩⟩, u64Max, 11⟩, rfl, ?_, ?_⟩ <;> rfl

end Session

end Yggdrasil
