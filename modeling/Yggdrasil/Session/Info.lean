import Yggdrasil.Session.Crypto

/-!
# `SessionInfo`: one session and its three-tier key ratchet

The functions of `encrypted/session.rs` on a single session. A traffic message is the header and the sealed inner
plaintext.
-/

namespace Yggdrasil.Session

def KEEPALIVE_PROBE : Bytes := [0, 121, 103, 103, 45, 107, 97]

def KEEPALIVE_ACK : Bytes := [0, 121, 103, 103, 45, 107, 97, 45, 97, 99, 107]

/-- The sender's key sequence number, the one it holds for the receiver, and the nonce. -/
structure TrafficHeader where
  localKeySeq : UInt64
  remoteKeySeq : UInt64
  nonce : UInt64
deriving DecidableEq, Repr

/-- `innerKey = none` : a plaintext shorter than the 32 bytes of a key. -/
structure TrafficInner where
  innerKey : Option CurvePublicKey
  payload : Bytes
deriving DecidableEq, Repr

/-- `header = none` : bytes that `recv_snapshot` cannot parse, too few of them or a varint that does not decode. -/
structure TrafficMsg where
  header : Option TrafficHeader
  body : Sealed TrafficInner
deriving DecidableEq

structure SessionInfo where
  -- remote state
  seq : UInt64
  remoteKeySeq : UInt64
  current : CurvePublicKey
  next : CurvePublicKey
  -- local key material
  localKeySeq : UInt64
  recvKeys : BoxKeys
  recvShared : SalsaBox
  recvNonce : UInt64
  sendKeys : BoxKeys
  sendShared : SalsaBox
  sendNonce : UInt64
  nextKeys : BoxKeys
  -- forward secrecy preparation
  nextSendShared : SalsaBox
  nextSendNonce : UInt64
  nextRecvShared : SalsaBox
  nextRecvNonce : UInt64
  -- timing and stats
  since : Instant
  rotated : Option Instant
  lastActivity : Instant
  rx : UInt64
  tx : UInt64
deriving DecidableEq

namespace SessionInfo

def new (current next : CurvePublicKey) (seq : UInt64) (now : Instant) (rng : Rng) : SessionInfo × Rng :=
  let recv := newBoxKeys rng
  let send := newBoxKeys recv.2
  let nextPair := newBoxKeys send.2
  ({ seq := seq - 1 -- so first update works
     remoteKeySeq := 0
     current
     next
     localKeySeq := 0
     recvKeys := recv.1
     recvShared := makeSalsaBox current recv.1.priv
     recvNonce := 0
     sendKeys := send.1
     sendShared := makeSalsaBox current send.1.priv
     sendNonce := 0
     nextKeys := nextPair.1
     nextSendShared := makeSalsaBox next send.1.priv
     nextSendNonce := 0
     nextRecvShared := makeSalsaBox next recv.1.priv
     nextRecvNonce := 0
     since := now
     rotated := none
     lastActivity := now
     rx := 0
     tx := 0 }, nextPair.2)

variable (self : SessionInfo)

def fixShared (recvNonce sendNonce : UInt64) : SessionInfo :=
  { self with
    recvShared := makeSalsaBox self.current self.recvKeys.priv
    sendShared := makeSalsaBox self.current self.sendKeys.priv
    nextSendShared := makeSalsaBox self.next self.sendKeys.priv
    nextRecvShared := makeSalsaBox self.next self.recvKeys.priv
    nextSendNonce := 0
    nextRecvNonce := 0
    recvNonce
    sendNonce }

/-- The local half of a ratchet: recv = send, send = next, new next. -/
def ratchetKeys (newNext : BoxKeys) : SessionInfo :=
  { self with
    recvKeys := self.sendKeys
    sendKeys := self.nextKeys
    nextKeys := newNext
    localKeySeq := self.localKeySeq + 1 }

def handleUpdate (init : SessionInit) (now : Instant) (rng : Rng) : SessionInfo × Rng :=
  let self := { self with
    current := init.current
    next := init.next
    seq := init.seq
    remoteKeySeq := init.keySeq }
  let newNext := newBoxKeys rng
  let self := self.ratchetKeys newNext.1
  -- preserve send nonce
  let self := self.fixShared 0 self.sendNonce
  ({ self with lastActivity := now }, newNext.2)

structure SendSnapshot where
  localKeySeq : UInt64
  remoteKeySeq : UInt64
  sendNonce : UInt64
  nextPub : CurvePublicKey
  sendShared : SalsaBox

def sendSnapshot (rng : Rng) : SendSnapshot × SessionInfo × Rng :=
  let self := { self with sendNonce := self.sendNonce + 1 }
  let ratcheted :=
    -- nonce overflow: ratchet
    if self.sendNonce = 0 then
      let newNext := newBoxKeys rng
      ((self.ratchetKeys newNext.1).fixShared 0 0, newNext.2)
    else (self, rng)
  let self := ratcheted.1
  ({ localKeySeq := self.localKeySeq
     remoteKeySeq := self.remoteKeySeq
     sendNonce := self.sendNonce
     nextPub := self.nextKeys.pub
     sendShared := self.sendShared }, self, ratcheted.2)

def sendFinalize (msgLen : UInt64) (now : Instant) : SessionInfo :=
  { self with tx := self.tx + msgLen, lastActivity := now }

def encryptOutsideLock (snap : SendSnapshot) (msg : Bytes) : TrafficMsg :=
  { header := some ⟨snap.localKeySeq, snap.remoteKeySeq, snap.sendNonce⟩
    body := boxSealPrecomputed ⟨some snap.nextPub, msg⟩ snap.sendNonce snap.sendShared }

def doSend (msg : Bytes) (now : Instant) (rng : Rng) : TrafficMsg × SessionInfo × Rng :=
  let snap := self.sendSnapshot rng
  let result := encryptOutsideLock snap.1 msg
  (result, snap.2.1.sendFinalize msg.length.toUInt64 now, snap.2.2)

inductive DecryptCase where
  | currentToRecv
  | nextToSend
  | nextToRecv
deriving DecidableEq, Repr

structure RecvSnapshot where
  remoteKeySeq : UInt64
  nonce : UInt64
  shared : SalsaBox
  case : DecryptCase
deriving DecidableEq

inductive RecvSnapshotError where
  | drop
  | sendInit (sendPub nextPub : CurvePublicKey) (localKeySeq : UInt64)
deriving DecidableEq

def remoteKey : DecryptCase → CurvePublicKey
  | .currentToRecv => self.current
  | .nextToSend => self.next
  | .nextToRecv => self.next

def localKeys : DecryptCase → BoxKeys
  | .currentToRecv => self.recvKeys
  | .nextToSend => self.sendKeys
  | .nextToRecv => self.recvKeys

def caseShared : DecryptCase → SalsaBox
  | .currentToRecv => self.recvShared
  | .nextToSend => self.nextSendShared
  | .nextToRecv => self.nextRecvShared

def caseNonce : DecryptCase → UInt64
  | .currentToRecv => self.recvNonce
  | .nextToSend => self.nextSendNonce
  | .nextToRecv => self.nextRecvNonce

/-- Phase 1 of split recv. The sender's `localKeySeq` is the remote one here. -/
def recvSnapshot (msg : TrafficMsg) : Except RecvSnapshotError RecvSnapshot :=
  match msg.header with
  | none => .error .drop
  | some ⟨remoteKeySeq, localKeySeq, nonce⟩ =>
    let fromCurrent := remoteKeySeq = self.remoteKeySeq
    let fromNext := remoteKeySeq = self.remoteKeySeq + 1
    let toRecv := localKeySeq + 1 = self.localKeySeq
    let toSend := localKeySeq = self.localKeySeq
    let snapshot (case : DecryptCase) : Except RecvSnapshotError RecvSnapshot :=
      if ¬ self.caseNonce case < nonce then .error .drop
      else .ok { remoteKeySeq := self.remoteKeySeq, nonce, shared := self.caseShared case, case }
    if fromCurrent ∧ toRecv then snapshot .currentToRecv
    else if fromNext ∧ toSend then snapshot .nextToSend
    else if fromNext ∧ toRecv then snapshot .nextToRecv
    else .error (.sendInit self.sendKeys.pub self.nextKeys.pub self.localKeySeq)

inductive RecvAction where
  | drop
  | sendInit
deriving DecidableEq, Repr

def decryptOutsideLock (snap : RecvSnapshot) (msg : TrafficMsg) : Except RecvAction (Bytes × CurvePublicKey) :=
  match boxOpenPrecomputed msg.body snap.nonce snap.shared with
  | none => .error .sendInit
  | some unboxed =>
    match unboxed.innerKey with
    | none => .error .drop
    | some innerKey => .ok (unboxed.payload, innerKey)

/-- The ratchet is due when the session has never rotated or did so more than 60 seconds ago. -/
def shouldRotate (now : Instant) : Bool :=
  match self.rotated with
  | none => true
  | some t => decide (elapsed now t > Duration.fromSecs 60)

def maybeRatchetOnRecv (innerKey : CurvePublicKey) (nonce : UInt64) (now : Instant)
    (rng : Rng) : SessionInfo × Rng :=
  if self.shouldRotate now then
    let self := { self with
      current := self.next
      next := innerKey
      remoteKeySeq := self.remoteKeySeq + 1 }
    let newNext := newBoxKeys rng
    let self := (self.ratchetKeys newNext.1).fixShared nonce 0
    ({ self with rotated := some now }, newNext.2)
  else (self, rng)

def recvFinalize (snap : RecvSnapshot) (innerKey : CurvePublicKey) (payloadLen : UInt64)
    (now : Instant) (rng : Rng) : SessionInfo × Rng :=
  let touch (s : SessionInfo) : SessionInfo := { s with rx := s.rx + payloadLen, lastActivity := now }
  -- a ratchet between snapshot and finalize: do not update nonces for a stale epoch
  if self.remoteKeySeq ≠ snap.remoteKeySeq then (touch self, rng)
  else
    match snap.case with
    | .currentToRecv => (touch { self with recvNonce := snap.nonce }, rng)
    | .nextToSend =>
      let r := { self with nextSendNonce := snap.nonce }.maybeRatchetOnRecv innerKey snap.nonce now rng
      (touch r.1, r.2)
    | .nextToRecv =>
      let r := { self with nextRecvNonce := snap.nonce }.maybeRatchetOnRecv innerKey snap.nonce now rng
      (touch r.1, r.2)

def isExpired (timeout : Duration) (now : Instant) : Bool :=
  decide (elapsed now self.lastActivity > timeout)

/-! ## The precomputed secrets are in step with the keys -/

/-- The shared secrets belong to the keys. -/
structure Synced (s : SessionInfo) : Prop where
  recv : s.recvShared = makeSalsaBox s.current s.recvKeys.priv
  send : s.sendShared = makeSalsaBox s.current s.sendKeys.priv
  nextSend : s.nextSendShared = makeSalsaBox s.next s.sendKeys.priv
  nextRecv : s.nextRecvShared = makeSalsaBox s.next s.recvKeys.priv

variable (s : SessionInfo)

theorem fixShared_synced (rn sn : UInt64) : (s.fixShared rn sn).Synced := ⟨rfl, rfl, rfl, rfl⟩

theorem new_synced (cur nxt : CurvePublicKey) (seq : UInt64) (now : Instant) (rng : Rng) :
    (new cur nxt seq now rng).1.Synced := ⟨rfl, rfl, rfl, rfl⟩

theorem handleUpdate_synced (init : SessionInit) (now : Instant) (rng : Rng) :
    (s.handleUpdate init now rng).1.Synced := ⟨rfl, rfl, rfl, rfl⟩

variable {s : SessionInfo} {hdr : TrafficHeader} {c : DecryptCase} {t : TrafficMsg} {snap : RecvSnapshot}

theorem Synced.caseShared (h : s.Synced) (c : DecryptCase) :
    s.caseShared c = makeSalsaBox (s.remoteKey c) (s.localKeys c).priv := by
  cases c
  · exact h.recv
  · exact h.nextSend
  · exact h.nextRecv

/-! ## What `recvSnapshot` and `decryptOutsideLock` accept -/

def Matches (s : SessionInfo) (hdr : TrafficHeader) : DecryptCase → Prop
  | .currentToRecv => hdr.localKeySeq = s.remoteKeySeq ∧ hdr.remoteKeySeq + 1 = s.localKeySeq
  | .nextToSend => hdr.localKeySeq = s.remoteKeySeq + 1 ∧ hdr.remoteKeySeq = s.localKeySeq
  | .nextToRecv => hdr.localKeySeq = s.remoteKeySeq + 1 ∧ hdr.remoteKeySeq + 1 = s.localKeySeq

theorem Matches.unique {d : DecryptCase} (hc : s.Matches hdr c) (hd : s.Matches hdr d) : c = d := by
  cases c <;> cases d <;> simp only [Matches] at hc hd <;> first | rfl | (exfalso; grind)

theorem recvSnapshot_of_matches (ht : t.header = some hdr) (hm : s.Matches hdr c) : s.recvSnapshot t =
      if s.caseNonce c < hdr.nonce then
        .ok { remoteKeySeq := s.remoteKeySeq, nonce := hdr.nonce, shared := s.caseShared c, case := c }
      else .error .drop := by
  unfold recvSnapshot
  rw [ht]
  cases c with
  | currentToRecv =>
    simp only [Matches] at hm
    simp only [if_pos hm, ite_not]
  | nextToSend =>
    simp only [Matches] at hm
    have h1 : ¬ (hdr.localKeySeq = s.remoteKeySeq ∧ hdr.remoteKeySeq + 1 = s.localKeySeq) := by grind
    simp only [if_neg h1, if_pos hm, ite_not]
  | nextToRecv =>
    simp only [Matches] at hm
    have h1 : ¬ (hdr.localKeySeq = s.remoteKeySeq ∧ hdr.remoteKeySeq + 1 = s.localKeySeq) := by grind
    have h2 : ¬ (hdr.localKeySeq = s.remoteKeySeq + 1 ∧ hdr.remoteKeySeq = s.localKeySeq) := by grind
    simp only [if_neg h1, if_neg h2, if_pos hm, ite_not]

theorem recvSnapshot_no_match (ht : t.header = some hdr) (hm : ∀ c, ¬ s.Matches hdr c) :
    s.recvSnapshot t = .error (.sendInit s.sendKeys.pub s.nextKeys.pub s.localKeySeq) := by
  unfold recvSnapshot
  rw [ht]
  have h1 := hm .currentToRecv
  have h2 := hm .nextToSend
  have h3 := hm .nextToRecv
  simp only [Matches] at h1 h2 h3
  simp [h1, h2, h3]

theorem recvSnapshot_ok (h : s.recvSnapshot t = .ok snap) :
    ∃ hdr, t.header = some hdr ∧ s.Matches hdr snap.case ∧ s.caseNonce snap.case < hdr.nonce ∧
      snap.remoteKeySeq = s.remoteKeySeq ∧ snap.nonce = hdr.nonce ∧ snap.shared = s.caseShared snap.case := by
  cases ht : t.header with
  | none => simp [recvSnapshot, ht] at h
  | some hdr =>
    by_cases hm : ∃ c, s.Matches hdr c
    · obtain ⟨c, hc⟩ := hm
      rw [recvSnapshot_of_matches ht hc] at h
      split at h
      next hn =>
        cases h
        exact ⟨hdr, rfl, hc, hn, rfl, rfl, rfl⟩
      · cases h
    rw [recvSnapshot_no_match ht (not_exists.mp hm)] at h
    cases h

theorem recvSnapshot_sendInit {a b : CurvePublicKey} {k : UInt64} (h : s.recvSnapshot t = .error (.sendInit a b k)) :
    a = s.sendKeys.pub ∧ b = s.nextKeys.pub ∧ k = s.localKeySeq := by
  cases ht : t.header with
  | none => simp [recvSnapshot, ht] at h
  | some hdr =>
    by_cases hm : ∃ c, s.Matches hdr c
    · obtain ⟨c, hc⟩ := hm
      rw [recvSnapshot_of_matches ht hc] at h
      split at h <;> cases h
    rw [recvSnapshot_no_match ht (not_exists.mp hm)] at h
    cases h
    exact ⟨rfl, rfl, rfl⟩

theorem decryptOutsideLock_ok {payload : Bytes} {innerKey : CurvePublicKey} :
    decryptOutsideLock snap t = .ok (payload, innerKey) ↔
      t.body.key = snap.shared ∧ t.body.nonce = snap.nonce ∧ t.body.plain = ⟨some innerKey, payload⟩ := by
  unfold decryptOutsideLock
  cases ho : boxOpenPrecomputed t.body snap.nonce snap.shared with
  | none =>
    simp only [reduceCtorEq, false_iff]
    rintro ⟨hk, hn, -⟩
    simp [boxOpenPrecomputed, hk, hn] at ho
  | some unboxed =>
    obtain ⟨hk, hn, hp⟩ := boxOpen_eq_some.mp ho
    obtain ⟨ik, pl⟩ := unboxed
    cases ik <;> simp [hk, hn, hp, and_comm]

/-! ## What a send does -/

theorem doSend_eq (h : s.sendNonce + 1 ≠ 0) (msg : Bytes) (now : Instant) (rng : Rng) : s.doSend msg now rng =
      (⟨some ⟨s.localKeySeq, s.remoteKeySeq, s.sendNonce + 1⟩, s.sendShared, s.sendNonce + 1, some s.nextKeys.pub, msg⟩,
        { s with sendNonce := s.sendNonce + 1, tx := s.tx + msg.length.toUInt64, lastActivity := now }, rng) := by
  simp only [doSend, sendSnapshot, if_neg h]
  rfl

def overflowed (s : SessionInfo) (rng : Rng) : SessionInfo := (s.ratchetKeys (newBoxKeys rng).1).fixShared 0 0

theorem doSend_overflow (h : s.sendNonce + 1 = 0) (msg : Bytes) (now : Instant) (rng : Rng) : s.doSend msg now rng =
      (⟨some ⟨s.localKeySeq + 1, s.remoteKeySeq, 0⟩, (s.overflowed rng).sendShared, 0,
        some (newBoxKeys rng).1.pub, msg⟩,
        { s.overflowed rng with tx := s.tx + msg.length.toUInt64, lastActivity := now }, (newBoxKeys rng).2) := by
  simp only [doSend, sendSnapshot, if_pos h]
  rfl

/-! ## What an accepted message does -/

structure Counted (s : SessionInfo) (c : DecryptCase) (nonce : UInt64) (s' : SessionInfo) : Prop where
  seq : s'.seq = s.seq
  remoteKeySeq : s'.remoteKeySeq = s.remoteKeySeq
  localKeySeq : s'.localKeySeq = s.localKeySeq
  current : s'.current = s.current
  next : s'.next = s.next
  recvKeys : s'.recvKeys = s.recvKeys
  sendKeys : s'.sendKeys = s.sendKeys
  nextKeys : s'.nextKeys = s.nextKeys
  recvShared : s'.recvShared = s.recvShared
  sendShared : s'.sendShared = s.sendShared
  nextSendShared : s'.nextSendShared = s.nextSendShared
  nextRecvShared : s'.nextRecvShared = s.nextRecvShared
  sendNonce : s'.sendNonce = s.sendNonce
  rotated : s'.rotated = s.rotated
  counter : ∀ d, s'.caseNonce d = if d = c then nonce else s.caseNonce d

structure Rotated (s : SessionInfo) (innerKey : CurvePublicKey) (nonce : UInt64) (now : Instant) (newNext : BoxKeys)
    (s' : SessionInfo) : Prop where
  seq : s'.seq = s.seq
  remoteKeySeq : s'.remoteKeySeq = s.remoteKeySeq + 1
  localKeySeq : s'.localKeySeq = s.localKeySeq + 1
  current : s'.current = s.next
  next : s'.next = innerKey
  recvKeys : s'.recvKeys = s.sendKeys
  sendKeys : s'.sendKeys = s.nextKeys
  nextKeys : s'.nextKeys = newNext
  synced : s'.Synced
  recvNonce : s'.recvNonce = nonce
  sendNonce : s'.sendNonce = 0
  nextSendNonce : s'.nextSendNonce = 0
  nextRecvNonce : s'.nextRecvNonce = 0
  rotated : s'.rotated = some now

theorem Counted.synced {s' : SessionInfo} {n : UInt64} (h : Counted s c n s') (hs : s.Synced) : s'.Synced := by
  refine ⟨?_, ?_, ?_, ?_⟩
  · rw [h.recvShared, h.current, h.recvKeys, hs.recv]
  · rw [h.sendShared, h.current, h.sendKeys, hs.send]
  · rw [h.nextSendShared, h.next, h.sendKeys, hs.nextSend]
  · rw [h.nextRecvShared, h.next, h.recvKeys, hs.nextRecv]

theorem maybeRatchetOnRecv_due {now : Instant} (h : s.shouldRotate now) (innerKey : CurvePublicKey)
    (nonce : UInt64) (rng : Rng) :
    Rotated s innerKey nonce now (newBoxKeys rng).1 (s.maybeRatchetOnRecv innerKey nonce now rng).1 ∧
      (s.maybeRatchetOnRecv innerKey nonce now rng).2 = (newBoxKeys rng).2 := by
  rw [maybeRatchetOnRecv, if_pos h]
  exact ⟨⟨rfl, rfl, rfl, rfl, rfl, rfl, rfl, rfl, ⟨rfl, rfl, rfl, rfl⟩, rfl, rfl, rfl, rfl, rfl⟩, rfl⟩

theorem maybeRatchetOnRecv_notDue {now : Instant} (h : ¬ s.shouldRotate now)
    (innerKey : CurvePublicKey) (nonce : UInt64) (rng : Rng) :
    s.maybeRatchetOnRecv innerKey nonce now rng = (s, rng) := by
  rw [maybeRatchetOnRecv, if_neg h]

theorem ratchet_cases {s' : SessionInfo} {nonce : UInt64} (hs : Counted s c nonce s')
    (innerKey : CurvePublicKey) (len : UInt64) (now : Instant) (rng : Rng) :
    let r := s'.maybeRatchetOnRecv innerKey nonce now rng
    let final : SessionInfo := { r.1 with rx := r.1.rx + len, lastActivity := now }
    (Counted s c nonce final ∧ r.2 = rng ∧ ¬ s.shouldRotate now) ∨
      (Rotated s innerKey nonce now (newBoxKeys rng).1 final ∧ r.2 = (newBoxKeys rng).2 ∧ s.shouldRotate now) := by
  have hdue : s'.shouldRotate now = s.shouldRotate now := by rw [shouldRotate, shouldRotate, hs.rotated]
  by_cases hr : s.shouldRotate now
  · obtain ⟨h, hrng⟩ := maybeRatchetOnRecv_due (hdue.trans hr) innerKey nonce rng
    refine .inr ⟨?_, hrng, hr⟩
    constructor
    · exact h.seq.trans hs.seq
    · exact h.remoteKeySeq.trans (by rw [hs.remoteKeySeq])
    · exact h.localKeySeq.trans (by rw [hs.localKeySeq])
    · exact h.current.trans hs.next
    · exact h.next
    · exact h.recvKeys.trans hs.sendKeys
    · exact h.sendKeys.trans hs.nextKeys
    · exact h.nextKeys
    · exact ⟨h.synced.recv, h.synced.send, h.synced.nextSend, h.synced.nextRecv⟩
    · exact h.recvNonce
    · exact h.sendNonce
    · exact h.nextSendNonce
    · exact h.nextRecvNonce
    · exact h.rotated
  rw [maybeRatchetOnRecv_notDue (hdue ▸ hr) innerKey nonce rng]
  refine .inl ⟨⟨hs.seq, hs.remoteKeySeq, hs.localKeySeq, hs.current, hs.next, hs.recvKeys, hs.sendKeys, hs.nextKeys,
    hs.recvShared, hs.sendShared, hs.nextSendShared, hs.nextRecvShared, hs.sendNonce, hs.rotated, ?_⟩, rfl, hr⟩
  intro d
  rw [← hs.counter d]
  cases d <;> rfl

theorem recvFinalize_cases (hseq : snap.remoteKeySeq = s.remoteKeySeq)
    (innerKey : CurvePublicKey) (len : UInt64) (now : Instant) (rng : Rng) :
    (Counted s snap.case snap.nonce (s.recvFinalize snap innerKey len now rng).1 ∧
      (s.recvFinalize snap innerKey len now rng).2 = rng ∧ (snap.case = .currentToRecv ∨ ¬ s.shouldRotate now)) ∨
    (Rotated s innerKey snap.nonce now (newBoxKeys rng).1 (s.recvFinalize snap innerKey len now rng).1 ∧
      (s.recvFinalize snap innerKey len now rng).2 = (newBoxKeys rng).2 ∧ snap.case ≠ .currentToRecv ∧
      s.shouldRotate now) := by
  have hfin : ¬ s.remoteKeySeq ≠ snap.remoteKeySeq := not_not.mpr hseq.symm
  unfold recvFinalize
  rw [if_neg hfin]
  cases hc : snap.case with
  | currentToRecv =>
    refine .inl ⟨⟨rfl, rfl, rfl, rfl, rfl, rfl, rfl, rfl, rfl, rfl, rfl, rfl, rfl, rfl, ?_⟩, rfl, .inl rfl⟩
    intro d; cases d <;> rfl
  | nextToSend =>
    have hcount : Counted s .nextToSend snap.nonce { s with nextSendNonce := snap.nonce } :=
      ⟨rfl, rfl, rfl, rfl, rfl, rfl, rfl, rfl, rfl, rfl, rfl, rfl, rfl, rfl, fun d => by cases d <;> rfl⟩
    rcases ratchet_cases hcount innerKey len now rng with ⟨h, hrng, hr⟩ | ⟨h, hrng, hr⟩
    · exact .inl ⟨h, hrng, .inr hr⟩
    · exact .inr ⟨h, hrng, by simp, hr⟩
  | nextToRecv =>
    have hcount : Counted s .nextToRecv snap.nonce { s with nextRecvNonce := snap.nonce } :=
      ⟨rfl, rfl, rfl, rfl, rfl, rfl, rfl, rfl, rfl, rfl, rfl, rfl, rfl, rfl, fun d => by cases d <;> rfl⟩
    rcases ratchet_cases hcount innerKey len now rng with ⟨h, hrng, hr⟩ | ⟨h, hrng, hr⟩
    · exact .inl ⟨h, hrng, .inr hr⟩
    · exact .inr ⟨h, hrng, by simp, hr⟩

end SessionInfo

end Yggdrasil.Session
