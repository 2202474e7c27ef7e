import Yggdrasil.Session.Net

/-!
# A handshake brings the two ends back in step

Side `a` holds a session and emits an init from it; `b` handles the init, `a` the ack `b` answers with, and `b` any
ack `a` answers with.
-/

namespace Yggdrasil.Session
open SessionInfo Option ConcurrentSessionManager Session.Net
open SessionInfo (decryptOutsideLock DecryptCase RecvSnapshot)

/-! ## One message between two sessions -/

def SessionInfo.Takes (s : SessionInfo) (t : TrafficMsg) (msg : Bytes) : Prop :=
  ∃ snap innerKey, s.recvSnapshot t = .ok snap ∧ decryptOutsideLock snap t = .ok (msg, innerKey)

theorem SessionInfo.takes_doSend {s x : SessionInfo} {c : DecryptCase} (hover : x.sendNonce + 1 ≠ 0)
    (hm : s.Matches ⟨x.localKeySeq, x.remoteKeySeq, x.sendNonce + 1⟩ c) (hn : s.caseNonce c < x.sendNonce + 1)
    (hkey : x.sendShared = s.caseShared c) (msg : Bytes) (now : Instant) (rng : Rng) :
    s.Takes (x.doSend msg now rng).1 msg := by
  rw [doSend_eq hover]
  refine ⟨⟨s.remoteKeySeq, x.sendNonce + 1, s.caseShared c, c⟩, x.nextKeys.pub, ?_, ?_⟩
  · rw [recvSnapshot_of_matches rfl hm, if_pos hn]
  · exact decryptOutsideLock_ok.mpr ⟨hkey, rfl, rfl⟩

theorem SessionInfo.Takes.header {s : SessionInfo} {t : TrafficMsg} {msg : Bytes} (h : s.Takes t msg) :
    ∃ hdr c, t.header = some hdr ∧ s.Matches hdr c ∧ s.caseNonce c < hdr.nonce := by
  obtain ⟨snap, k, hsnap, -⟩ := h
  obtain ⟨hdr, ht, hm, hn, -⟩ := recvSnapshot_ok hsnap
  exact ⟨hdr, snap.case, ht, hm, hn⟩

structure Aligned (x y : SessionInfo) : Prop where
  xSynced : x.Synced
  ySynced : y.Synced
  yCurrent : y.current = x.recvKeys.pub
  yNext : y.next = x.sendKeys.pub
  xCurrent : x.current = y.sendKeys.pub
  xNext : x.next = y.nextKeys.pub
  xRemote : x.remoteKeySeq = y.localKeySeq
  xLocal : x.localKeySeq = y.remoteKeySeq + 1

theorem pos_of_succ_ne_zero {n : UInt64} (h : n + 1 ≠ 0) : (0 : UInt64) < n + 1 := by grind

section Messages
variable {x y : SessionInfo}

section
variable (h : Aligned x y)
include h

theorem Aligned.key_right : x.sendShared = y.caseShared .nextToSend := by
  rw [h.xSynced.send, h.ySynced.caseShared, h.xCurrent, remoteKey, h.yNext]
  exact makeSalsaBox_comm ..

theorem Aligned.key_left : y.sendShared = x.caseShared .currentToRecv := by
  rw [h.ySynced.send, h.xSynced.caseShared, h.yCurrent, remoteKey, h.xCurrent]
  exact makeSalsaBox_comm ..

theorem Aligned.takes_right (hover : x.sendNonce + 1 ≠ 0) (hy : y.nextSendNonce = 0) (msg : Bytes)
    (now : Instant) (rng : Rng) : y.Takes (x.doSend msg now rng).1 msg := by
  have hn : y.caseNonce .nextToSend < x.sendNonce + 1 := by
    rw [caseNonce, hy]
    exact pos_of_succ_ne_zero hover
  exact takes_doSend (c := .nextToSend) hover ⟨h.xLocal, h.xRemote⟩ hn h.key_right msg now rng

theorem Aligned.takes_left (hover : y.sendNonce + 1 ≠ 0) (hx : x.recvNonce = 0) (msg : Bytes)
    (now : Instant) (rng : Rng) : x.Takes (y.doSend msg now rng).1 msg := by
  have hn : x.caseNonce .currentToRecv < y.sendNonce + 1 := by
    rw [caseNonce, hx]
    exact pos_of_succ_ne_zero hover
  exact takes_doSend (c := .currentToRecv) hover ⟨h.xRemote.symm, h.xLocal.symm⟩ hn h.key_left msg now rng

theorem Aligned.takes_rotated (hx : x.nextSendNonce = 0) {y' : SessionInfo} {k : CurvePublicKey}
    {n : UInt64} {t : Instant} {new : BoxKeys} (hrot : y.Rotated k n t new y') (msg : Bytes) (now : Instant)
    (rng : Rng) :
    x.Takes (y'.doSend msg now rng).1 msg := by
  have hover : y'.sendNonce + 1 ≠ 0 := by rw [hrot.sendNonce]; decide
  have hkey : y'.sendShared = x.caseShared .nextToSend := by
    rw [hrot.synced.send, h.xSynced.caseShared, hrot.current, hrot.sendKeys, h.yNext, remoteKey, h.xNext]
    exact makeSalsaBox_comm ..
  have hn : x.caseNonce .nextToSend < y'.sendNonce + 1 := by
    rw [caseNonce, hx]
    exact pos_of_succ_ne_zero hover
  refine takes_doSend (c := .nextToSend) hover ⟨?_, ?_⟩ hn hkey msg now rng
  · rw [hrot.localKeySeq, h.xRemote]
  · rw [hrot.remoteKeySeq, h.xLocal]

theorem Aligned.sent_left (hover : x.sendNonce + 1 ≠ 0) (msg : Bytes) (now : Instant) (rng : Rng) :
    Aligned (x.doSend msg now rng).2.1 y := by
  rw [doSend_eq hover]
  exact ⟨⟨h.xSynced.1, h.xSynced.2, h.xSynced.3, h.xSynced.4⟩, h.2, h.3, h.4, h.5, h.6, h.7, h.8⟩

theorem Aligned.sent_right (hover : y.sendNonce + 1 ≠ 0) (msg : Bytes) (now : Instant) (rng : Rng) :
    Aligned x (y.doSend msg now rng).2.1 := by
  rw [doSend_eq hover]
  exact ⟨h.1, ⟨h.ySynced.1, h.ySynced.2, h.ySynced.3, h.ySynced.4⟩, h.3, h.4, h.5, h.6, h.7, h.8⟩

theorem Aligned.counted_left {c : DecryptCase} {n : UInt64} {x' : SessionInfo} (hc : x.Counted c n x') :
    Aligned x' y := by
  refine ⟨hc.synced h.xSynced, h.ySynced, ?_, ?_, ?_, ?_, ?_, ?_⟩
  · rw [hc.recvKeys, h.yCurrent]
  · rw [hc.sendKeys, h.yNext]
  · rw [hc.current, h.xCurrent]
  · rw [hc.next, h.xNext]
  · rw [hc.remoteKeySeq, h.xRemote]
  · rw [hc.localKeySeq, h.xLocal]

theorem Aligned.counted_right {c : DecryptCase} {n : UInt64} {y' : SessionInfo}
    (hc : y.Counted c n y') : Aligned x y' := by
  refine ⟨h.xSynced, hc.synced h.ySynced, ?_, ?_, ?_, ?_, ?_, ?_⟩
  · rw [hc.current, h.yCurrent]
  · rw [hc.next, h.yNext]
  · rw [hc.sendKeys, h.xCurrent]
  · rw [hc.nextKeys, h.xNext]
  · rw [hc.localKeySeq, h.xRemote]
  · rw [hc.remoteKeySeq, h.xLocal]

end

end Messages

/-! ## The exchange -/

def Packet.isAck : Packet → Bool
  | .ack _ => true
  | _ => false

def acks (actions : List OutAction) : List Packet := (packets actions).filter Packet.isAck

def Net.handleAll (ids : Ids) (p : Side) (clk : Clock) : Net → List Packet → Net × List Packet
  | net, [] => (net, [])
  | net, d :: ds =>
    let rest := Net.handleAll ids p clk (net.exec ids (.receive p d clk)) ds
    (rest.1, acks (net.outcome ids (.receive p d clk)).actions ++ rest.2)

structure Clocks where
  emit : Clock
  init : Clock
  ack : Clock
  last : Clock

/-- Side `b` handles the init `a` emits from its session `s`, `a` the acks `b` answers with, `b` those of `a`. -/
def Net.resync (ids : Ids) (net : Net) (s : SessionInfo) (clks : Clocks) : Net :=
  let init := Packet.init ((s.announce clks.emit).encrypt (ids.key .a) (ids.key .b) (ids.auth .a))
  let atB := Net.handleAll ids .b clks.init net [init]
  let atA := Net.handleAll ids .a clks.ack atB.1 atB.2
  (Net.handleAll ids .b clks.last atA.1 atA.2).1

def Net.session (ids : Ids) (net : Net) (p : Side) : Option SessionInfo := (net.party p).mgr.sessions (ids.key p.other)

def Net.Heard (ids : Ids) (net : Net) (p : Side) (msg : Bytes) (clk : Clock) : Prop :=
  ∃ t info, packets (net.outcome ids (.write p msg clk)).actions = [.traffic t] ∧ net.session ids p.other = some info ∧
    info.Takes t msg

/-- The next messages decrypt: written first, while the other's is under way, or after it has arrived. -/
structure Net.Resynced (ids : Ids) (net : Net) : Prop where
  next : ∀ p msg clk, net.Heard ids p msg clk
  crossing : ∀ p msg clk msg' clk', (net.exec ids (.write p msg clk)).Heard ids p.other msg' clk'
  answer : ∀ p msg clk msg' clk' clk'' t, msg ≠ KEEPALIVE_PROBE →
    packets (net.outcome ids (.write p msg clk)).actions = [.traffic t] →
    ((net.exec ids (.write p msg clk)).exec ids (.receive p.other (.traffic t) clk')).Heard ids p.other msg' clk''

section Calls
variable {ids : Ids} {net : Net} {p : Side}

theorem Net.session_exec_other (e : Event) :
    (net.exec ids e).session ids e.side.other = net.session ids e.side.other := by
  simp [Net.session, Net.exec]

theorem Net.outcome_write {s : SessionInfo} (hs : net.session ids p = some s) (msg : Bytes) (clk : Clock) :
    net.outcome ids (.write p msg clk) =
      ⟨[.sendToInner (ids.key p.other) (.traffic (s.doSend msg clk.now (net.party p).rng).1)],
        (net.party p).mgr.insertSession (ids.key p.other) (s.doSend msg clk.now (net.party p).rng).2.1,
        (s.doSend msg clk.now (net.party p).rng).2.2⟩ := by
  have hs' : (net.party p).mgr.sessions (ids.key p.other) = some s := hs
  simp only [Net.outcome, ConcurrentSessionManager.writeTo, hs']

theorem Net.session_exec_write {s : SessionInfo} (hs : net.session ids p = some s) (msg : Bytes) (clk : Clock) :
    (net.exec ids (.write p msg clk)).session ids p = some (s.doSend msg clk.now (net.party p).rng).2.1 := by
  have ho := outcome_write hs msg clk
  simp [Net.session, Net.exec, Event.side, ho, insertSession]

theorem Net.heard_iff {x y : SessionInfo} (hx : net.session ids p = some x) (hy : net.session ids p.other = some y)
    (msg : Bytes) (clk : Clock) :
    net.Heard ids p msg clk ↔ y.Takes (x.doSend msg clk.now (net.party p).rng).1 msg := by
  have ho := outcome_write hx msg clk
  constructor
  · rintro ⟨t, info, ht, hinfo, htakes⟩
    obtain rfl : info = y := some.inj (hinfo.symm.trans hy)
    rw [ho] at ht
    obtain rfl : (x.doSend msg clk.now (net.party p).rng).1 = t := by simpa using ht
    exact htakes
  intro h
  exact ⟨_, y, by rw [ho]; rfl, hy, h⟩

theorem Net.session_exec_accept {y : SessionInfo} (hy : net.session ids p = some y) {t : TrafficMsg}
    {snap : RecvSnapshot} {msg : Bytes} {k : CurvePublicKey} (hmsg : msg ≠ KEEPALIVE_PROBE)
    (hsnap : y.recvSnapshot t = .ok snap) (hdec : decryptOutsideLock snap t = .ok (msg, k)) (clk : Clock) :
    (net.exec ids (.receive p (.traffic t) clk)).session ids p =
      some (y.recvFinalize snap k msg.length.toUInt64 clk.now (net.party p).rng).1 := by
  have ho : (net.outcome ids (.receive p (.traffic t) clk)).mgr = (net.party p).mgr.insertSession (ids.key p.other)
        (y.recvFinalize snap k msg.length.toUInt64 clk.now (net.party p).rng).1 := by
    have := handleTraffic_accept hy hsnap hdec (ids.key p) clk (net.party p).rng
    simp only [Net.outcome, handleData, this, afterAccept, if_neg hmsg]
    split <;> rfl
  simp [Net.session, Net.exec, Event.side, ho, insertSession]

end Calls

/-! ## Aligned ends understand each other -/

structure Fresh (x y : SessionInfo) : Prop extends Aligned x y where
  xOver : x.sendNonce + 1 ≠ 0
  yOver : y.sendNonce + 1 ≠ 0
  xRecv : x.recvNonce = 0
  xNextSend : x.nextSendNonce = 0
  yNextSend : y.nextSendNonce = 0

section Resynced
variable {ids : Ids} {net : Net} {x y : SessionInfo}

theorem Fresh.heard (h : Fresh x y) (hx : net.session ids .a = some x) (hy : net.session ids .b = some y) (p : Side)
    (msg : Bytes) (clk : Clock) : net.Heard ids p msg clk := by
  cases p with
  | a => exact (heard_iff hx hy msg clk).mpr (h.takes_right h.xOver h.yNextSend ..)
  | b => exact (heard_iff hy hx msg clk).mpr (h.takes_left h.yOver h.xRecv ..)

theorem doSend_counters {s : SessionInfo} (h : s.sendNonce + 1 ≠ 0) (msg : Bytes) (now : Instant) (rng : Rng) :
    (s.doSend msg now rng).2.1.recvNonce = s.recvNonce ∧
      (s.doSend msg now rng).2.1.nextSendNonce = s.nextSendNonce := by
  rw [doSend_eq h]
  exact ⟨rfl, rfl⟩

section
variable (h : Fresh x y) (hx : net.session ids .a = some x) (hy : net.session ids .b = some y)
include h hx hy

theorem Fresh.crossing (p : Side)
    (msg msg' : Bytes) (clk clk' : Clock) : (net.exec ids (.write p msg clk)).Heard ids p.other msg' clk' := by
  cases p with
  | a =>
    have hx1 := session_exec_write hx msg clk
    have hy1 := (session_exec_other (.write .a msg clk)).trans hy
    refine (heard_iff (p := .b) hy1 hx1 msg' clk').mpr ?_
    exact (h.sent_left h.xOver msg clk.now _).takes_left h.yOver ((doSend_counters h.xOver ..).1.trans h.xRecv) ..
  | b =>
    have hy1 := session_exec_write hy msg clk
    have hx1 := (session_exec_other (.write .b msg clk)).trans hx
    refine (heard_iff (p := .a) hx1 hy1 msg' clk').mpr ?_
    exact (h.sent_right h.yOver msg clk.now _).takes_right h.xOver
      ((doSend_counters h.yOver ..).2.trans h.yNextSend) ..

theorem Fresh.answer_right {msg : Bytes} (hmsg : msg ≠ KEEPALIVE_PROBE) (msg' : Bytes) (clk clk' clk'' : Clock) :
    ((net.exec ids (.write .a msg clk)).exec ids
      (.receive .b (.traffic (x.doSend msg clk.now (net.party .a).rng).1) clk')).Heard ids .b msg' clk'' := by
  have hx1 := session_exec_write hx msg clk
  have hy1 := (session_exec_other (.write .a msg clk)).trans hy
  obtain ⟨snap, k, hsnap, hdec⟩ := h.takes_right h.xOver h.yNextSend msg clk.now (net.party .a).rng
  have hy2 := session_exec_accept (p := .b) hy1 hmsg hsnap hdec clk'
  have hx2 := (session_exec_other (.receive .b (.traffic (x.doSend msg clk.now (net.party .a).rng).1) clk')).trans hx1
  refine (heard_iff (p := .b) hy2 hx2 msg' clk'').mpr ?_
  obtain ⟨hdr, -, -, -, hseq, -, -⟩ := recvSnapshot_ok hsnap
  have hal := h.sent_left h.xOver msg clk.now (net.party .a).rng
  rcases recvFinalize_cases hseq k msg.length.toUInt64 clk'.now
    ((net.exec ids (.write .a msg clk)).party .b).rng with ⟨hc, -, -⟩ | ⟨hrot, -, -, -⟩
  · refine (hal.counted_right hc).takes_left ?_ ((doSend_counters h.xOver ..).1.trans h.xRecv) ..
    rw [hc.sendNonce]; exact h.yOver
  · exact hal.takes_rotated ((doSend_counters h.xOver ..).2.trans h.xNextSend) hrot ..

theorem Fresh.answer_left {msg : Bytes} (hmsg : msg ≠ KEEPALIVE_PROBE) (msg' : Bytes) (clk clk' clk'' : Clock) :
    ((net.exec ids (.write .b msg clk)).exec ids
      (.receive .a (.traffic (y.doSend msg clk.now (net.party .b).rng).1) clk')).Heard ids .a msg' clk'' := by
  have hy1 := session_exec_write hy msg clk
  have hx1 := (session_exec_other (.write .b msg clk)).trans hx
  obtain ⟨snap, k, hsnap, hdec⟩ := h.takes_left h.yOver h.xRecv msg clk.now (net.party .b).rng
  have hx2 := session_exec_accept (p := .a) hx1 hmsg hsnap hdec clk'
  have hy2 := (session_exec_other (.receive .a (.traffic (y.doSend msg clk.now (net.party .b).rng).1) clk')).trans hy1
  refine (heard_iff (p := .a) hx2 hy2 msg' clk'').mpr ?_
  obtain ⟨hdr, hhdr, hm, -, hseq, -, -⟩ := recvSnapshot_ok hsnap
  have hcase : snap.case = .currentToRecv := by
    rw [doSend_eq h.yOver] at hhdr
    cases hhdr
    exact hm.unique (d := .currentToRecv) ⟨h.xRemote.symm, h.xLocal.symm⟩
  have hal := h.sent_right h.yOver msg clk.now (net.party .b).rng
  rcases recvFinalize_cases hseq k msg.length.toUInt64 clk'.now
    ((net.exec ids (.write .b msg clk)).party .a).rng with ⟨hc, -, -⟩ | ⟨-, -, hne, -⟩
  · refine (hal.counted_left hc).takes_right ?_ ((doSend_counters h.yOver ..).2.trans h.yNextSend) ..
    rw [hc.sendNonce]; exact h.xOver
  · exact absurd hcase hne

theorem Fresh.resynced : net.Resynced ids where
  next := h.heard hx hy
  crossing p msg clk msg' clk' := h.crossing hx hy p msg msg' clk clk'
  answer p msg clk msg' clk' clk'' t hmsg ht := by
    cases p with
    | a =>
      rw [outcome_write hx] at ht
      obtain rfl : (x.doSend msg clk.now (net.party .a).rng).1 = t := by simpa using ht
      exact h.answer_right hx hy hmsg msg' clk clk' clk''
    | b =>
      rw [outcome_write hy] at ht
      obtain rfl : (y.doSend msg clk.now (net.party .b).rng).1 = t := by simpa using ht
      exact h.answer_left hx hy hmsg msg' clk clk' clk''

end

end Resynced

/-! ## Where the exchange leads -/

structure Answers (s : SessionInfo) (old : Option SessionInfo) (y : SessionInfo) : Prop where
  synced : y.Synced
  current : y.current = s.sendKeys.pub
  next : y.next = s.nextKeys.pub
  nextSend : y.nextSendNonce = 0
  held : ∀ sB, old = some sB → y.remoteKeySeq = s.localKeySeq ∧ y.sendNonce = sB.sendNonce
  opened : old = none → y.remoteKeySeq = 0 ∧ y.localKeySeq = 0 ∧ y.sendNonce + 1 ≠ 0

structure TookOver (s y x : SessionInfo) : Prop where
  synced : x.Synced
  current : x.current = y.sendKeys.pub
  next : x.next = y.nextKeys.pub
  recvKeys : x.recvKeys = s.sendKeys
  sendKeys : x.sendKeys = s.nextKeys
  remote : x.remoteKeySeq = y.localKeySeq
  locals : x.localKeySeq = s.localKeySeq + 1
  sendNonce : x.sendNonce = s.sendNonce
  recvNonce : x.recvNonce = 0
  nextSend : x.nextSendNonce = 0

theorem Slot.created_answers (slot : Slot) (s : SessionInfo) (clk : Clock) (now : Instant) :
    Answers s none (slot.created (s.announce clk) now) := by
  unfold Slot.created
  cases slot.buffer with
  | none => exact ⟨new_synced .., rfl, rfl, rfl, nofun, fun _ => ⟨rfl, rfl, (by decide : (0 : UInt64) + 1 ≠ 0)⟩⟩
  | some buf =>
    exact ⟨fixShared_synced .., rfl, rfl, rfl, nofun, fun _ => ⟨rfl, rfl, (by decide : (0 : UInt64) + 1 ≠ 0)⟩⟩

theorem Answers.sendBuffered {s y : SessionInfo} (h : Answers s none y) (hy : y.sendNonce = 0) (peer : PublicKey)
    (buffered : Option Bytes) (now : Instant) (rng : Rng) :
    Answers s none (sendBuffered y peer buffered now rng).2.1 := by
  cases buffered with
  | none => exact h
  | some msg =>
    have hover : y.sendNonce + 1 ≠ 0 := by rw [hy]; decide
    obtain ⟨hr, hl, -⟩ := h.opened rfl
    simp only [ConcurrentSessionManager.sendBuffered, doSend_eq hover]
    refine ⟨⟨h.synced.1, h.synced.2, h.synced.3, h.synced.4⟩, h.current, h.next, h.nextSend, by simp,
      fun _ => ⟨hr, hl, ?_⟩⟩
    change y.sendNonce + 1 + 1 ≠ 0
    rw [hy]
    decide

theorem acks_sendBuffered (y : SessionInfo) (peer : PublicKey) (buffered : Option Bytes) (now : Instant) (rng : Rng) :
    acks (sendBuffered y peer buffered now rng).1 = [] := by
  cases buffered <;> rfl

theorem handleInit_answers (mgr : ConcurrentSessionManager) (peer ourKey : PublicKey) (s : SessionInfo)
    (clk clk' : Clock) (rng : Rng) (hseq : ∀ sB, mgr.sessions peer = some sB → sB.seq < clk.unixSecs) :
    ∃ y, (mgr.handleInit peer (s.announce clk) ourKey clk' rng).mgr.sessions peer = some y ∧
      Answers s (mgr.sessions peer) y ∧ acks (mgr.handleInit peer (s.announce clk) ourKey clk' rng).actions =
        [.ack ((y.announce clk').encrypt ourKey peer mgr.groupAuth)] := by
  cases hs : mgr.sessions peer with
  | some sB =>
    have hnew : ¬ (s.announce clk).seq ≤ sB.seq := UInt64.not_le.mpr (hseq sB hs)
    refine ⟨(sB.handleUpdate (s.announce clk) clk'.now rng).1, ?_, ?_, ?_⟩
    · simp only [handleInit, hs, if_neg hnew]
      exact Function.update_self ..
    · refine ⟨handleUpdate_synced .., rfl, rfl, rfl, ?_, ?_⟩
      · rintro _ ⟨⟩
        exact ⟨rfl, rfl⟩
      · rintro ⟨⟩
    simp only [handleInit, hs, if_neg hnew]
    rfl
  | none =>
    obtain ⟨mgr', hcreate, -, hauth⟩ := createSessionFromInit_eq mgr rng peer (s.announce clk) clk'.now
    have hzero := Slot.created_sendNonce (Slot.of mgr rng peer) (s.announce clk) clk'.now
    have hann := sendBuffered_announce ((Slot.of mgr rng peer).created (s.announce clk) clk'.now) peer
      ((mgr.buffers peer).bind (·.data)) clk'.now
        ((Slot.of mgr rng peer).opened (s.announce clk) clk'.now).rng clk' hzero
    refine ⟨_, ?_, ((Slot.of mgr rng peer).created_answers s clk clk'.now).sendBuffered hzero peer
      ((mgr.buffers peer).bind (·.data)) clk'.now ((Slot.of mgr rng peer).opened (s.announce clk) clk'.now).rng, ?_⟩
    · simp only [handleInit, hs, hcreate]
      exact Function.update_self ..
    simp only [handleInit, hs, hcreate, hauth]
    rw [acks, packets_append, List.filter_append, hann]
    exact congrArg (· ++ _) (acks_sendBuffered ..)

section Exchange
variable {ids : Ids} {net : Net} {s : SessionInfo} {clks : Clocks}

/-- Both sides use one group secret, `a` holds `s`, and the two messages are newer than what their receivers hold. -/
structure Net.Exchange (ids : Ids) (net : Net) (s : SessionInfo) (clks : Clocks) : Prop where
  auth : net.AuthKept ids
  sameAuth : ids.auth .a = ids.auth .b
  session : net.session ids .a = some s
  initNewer : ∀ sB, net.session ids .b = some sB → sB.seq < clks.emit.unixSecs
  ackNewer : s.seq < clks.init.unixSecs

theorem Net.handleAll_single (p : Side) (clk : Clock) (d : Packet) : Net.handleAll ids p clk net [d] =
    (net.exec ids (.receive p d clk), acks (net.outcome ids (.receive p d clk)).actions) := by
  simp [Net.handleAll]

theorem Net.Exchange.sessions (h : net.Exchange ids s clks) : ∃ x y, Answers s (net.session ids .b) y ∧
    TookOver s y x ∧ (net.resync ids s clks).session ids .b = some y ∧
    (net.resync ids s clks).session ids .a = some x := by
  -- `b` handles the init
  have hdecB : SessionInit.decrypt ((s.announce clks.emit).encrypt (ids.key .a) (ids.key .b) (ids.auth .a)) (ids.key .b)
      (ids.key .a) (net.party .b).mgr.groupAuth = some (s.announce clks.emit) :=
    SessionInit.decrypt_eq_some.mpr ⟨rfl, rfl, h.sameAuth.trans (h.auth .b).symm, rfl⟩
  obtain ⟨y, hy, hans, hacks⟩ := handleInit_answers (net.party .b).mgr (ids.key .a) (ids.key .b) s clks.emit clks.init
    (net.party .b).rng h.initNewer
  let init := Packet.init ((s.announce clks.emit).encrypt (ids.key .a) (ids.key .b) (ids.auth .a))
  let netB := net.exec ids (.receive .b init clks.init)
  have hB : net.outcome ids (.receive .b init clks.init) =
      (net.party .b).mgr.handleInit (ids.key .a) (s.announce clks.emit) (ids.key .b) clks.init (net.party .b).rng := by
    simp only [Net.outcome, handleData, Side.other, init, hdecB]
  have hyB : netB.session ids .b = some y := by
    simp only [Net.session, netB, Net.exec, Event.side, Function.update_self, hB]
    exact hy
  have hsB : netB.session ids .a = some s :=
    (session_exec_other (.receive .b init clks.init)).trans h.session
  have hauthB : netB.AuthKept ids := h.auth.exec _
  -- `a` handles the ack, and answers nothing
  let ack := (y.announce clks.init).encrypt (ids.key .b) (ids.key .a) (net.party .b).mgr.groupAuth
  have hdecA : SessionInit.decrypt ack (ids.key .a) (ids.key .b) (netB.party .a).mgr.groupAuth =
      some (y.announce clks.init) :=
    SessionInit.decrypt_eq_some.mpr ⟨rfl, rfl, (h.auth .b).trans (h.sameAuth.symm.trans (hauthB .a).symm), rfl⟩
  have hsA : (netB.party .a).mgr.sessions (ids.key .b) = some s := hsB
  have hA : netB.outcome ids (.receive .a (.ack ack) clks.ack) = ⟨[], (netB.party .a).mgr.insertSession (ids.key .b)
        (s.handleUpdate (y.announce clks.init) clks.ack.now (netB.party .a).rng).1,
        (s.handleUpdate (y.announce clks.init) clks.ack.now (netB.party .a).rng).2⟩ := by
    simp only [Net.outcome, handleData, Side.other, hdecA, ConcurrentSessionManager.handleAck, hsA]
    exact if_pos h.ackNewer
  have hresync : net.resync ids s clks = netB.exec ids (.receive .a (.ack ack) clks.ack) := by
    simp only [Net.resync, handleAll_single]
    rw [show acks (net.outcome ids (.receive .b init clks.init)).actions = [.ack ack] by rw [hB]; exact hacks,
      handleAll_single]
    rw [show acks (netB.outcome ids (.receive .a (.ack ack) clks.ack)).actions = [] by rw [hA]; rfl]
    rfl
  refine ⟨(s.handleUpdate (y.announce clks.init) clks.ack.now (netB.party .a).rng).1, y, hans,
    ⟨handleUpdate_synced .., rfl, rfl, rfl, rfl, rfl, rfl, rfl, rfl, rfl⟩, ?_, ?_⟩ <;> rw [hresync]
  · exact (session_exec_other (.receive .a (.ack ack) clks.ack)).trans hyB
  · simp [Net.session, Net.exec, Event.side, hA, insertSession, Side.other]

theorem SessionInfo.not_takes_overflow {x y : SessionInfo} (h : x.sendNonce + 1 = 0) (msg msg' : Bytes) (now : Instant)
    (rng : Rng) : ¬ y.Takes (x.doSend msg now rng).1 msg' := by
  intro ht
  obtain ⟨hdr, c, hhdr, -, hn⟩ := ht.header
  rw [doSend_overflow h] at hhdr
  cases hhdr
  exact UInt64.not_lt_zero hn

theorem Net.Exchange.needs (h : net.Exchange ids s clks) (hres : (net.resync ids s clks).Resynced ids) :
    ((net.session ids .b).isSome ∨ s.localKeySeq = 0) ∧ s.sendNonce + 1 ≠ 0 ∧
      ∀ sB, net.session ids .b = some sB → sB.sendNonce + 1 ≠ 0 := by
  obtain ⟨x, y, hans, htook, hy, hx⟩ := h.sessions
  have ha := (heard_iff hx hy [] clks.emit).mp (hres.next .a [] clks.emit)
  have hb := (heard_iff hy hx [] clks.emit).mp (hres.next .b [] clks.emit)
  have hover : x.sendNonce + 1 ≠ 0 := fun hover => not_takes_overflow hover _ _ _ _ ha
  refine ⟨?_, htook.sendNonce ▸ hover, ?_⟩
  · cases hold : net.session ids .b with
    | some sB => exact Or.inl rfl
    | none =>
      obtain ⟨hr, hl, -⟩ := hans.opened hold
      obtain ⟨hdr, c, hhdr, hm, -⟩ := ha.header
      rw [doSend_eq hover] at hhdr
      cases hhdr
      -- whatever path the header names, it names the remote number one
      have hone : x.localKeySeq = y.remoteKeySeq + 1 := by
        cases c with
        | currentToRecv =>
          have h1 : x.remoteKeySeq + 1 = y.localKeySeq := hm.2
          have h2 := htook.remote
          grind
        | nextToSend | nextToRecv => exact hm.1
      rw [hr, htook.locals] at hone
      exact Or.inr (by grind)
  intro sB hold hover'
  rw [← (hans.held sB hold).2] at hover'
  exact not_takes_overflow hover' _ _ _ _ hb

/-- The next messages of both sides decrypt exactly when `b` held a session or the sequence number of `a` is zero, and
no nonce overflows. -/
theorem resynced_iff (ids : Ids) (net : Net) (s : SessionInfo) (clks : Clocks) (h : net.Exchange ids s clks) :
    (net.resync ids s clks).Resynced ids ↔ ((net.session ids .b).isSome ∨ s.localKeySeq = 0) ∧ s.sendNonce + 1 ≠ 0 ∧
        ∀ sB, net.session ids .b = some sB → sB.sendNonce + 1 ≠ 0 := by
  refine ⟨h.needs, ?_⟩
  rintro ⟨hside, hover, hoverB⟩
  obtain ⟨x, y, hans, htook, hy, hx⟩ := h.sessions
  have hlocal : s.localKeySeq + 1 = y.remoteKeySeq + 1 := by
    cases hold : net.session ids .b with
    | some sB => rw [(hans.held sB hold).1]
    | none => rw [(hans.opened hold).1, hside.resolve_left (by rw [hold]; simp)]
  have hyOver : y.sendNonce + 1 ≠ 0 := by
    cases hold : net.session ids .b with
    | some sB => rw [(hans.held sB hold).2]; exact hoverB sB hold
    | none => exact (hans.opened hold).2.2
  have hal : Aligned x y := ⟨htook.synced, hans.synced, hans.current.trans (by rw [htook.recvKeys]),
    hans.next.trans (by rw [htook.sendKeys]), htook.current, htook.next, htook.remote, htook.locals.trans hlocal⟩
  exact Fresh.resynced ⟨hal, htook.sendNonce.symm ▸ hover, hyOver, htook.recvNonce, htook.nextSend, hans.nextSend⟩ hx hy

def exampleSession (updated : Bool) : SessionInfo :=
  let fresh := SessionInfo.new ⟨⟨2, 0⟩⟩ ⟨⟨2, 1⟩⟩ 1 0 ⟨1, 0⟩
  if updated then (fresh.1.handleUpdate ⟨⟨⟨2, 0⟩⟩, ⟨⟨2, 1⟩⟩, 0, 1⟩ 0 fresh.2).1 else fresh.1

def exampleNet (updated : Bool) : Net :=
  { Net.start exampleIds 0 with
    party := fun p => { (Net.start exampleIds 0).party p with
      mgr := if p = .a then ((Net.start exampleIds 0).party p).mgr.insertSession 2 (exampleSession updated)
        else ((Net.start exampleIds 0).party p).mgr } }

def exampleClocks : Clocks := ⟨⟨0, 5⟩, ⟨0, 5⟩, ⟨0, 5⟩, ⟨0, 5⟩⟩

theorem exampleNet_exchange (updated : Bool) :
    (exampleNet updated).Exchange exampleIds (exampleSession updated) exampleClocks := by
  refine ⟨fun p => by cases p <;> rfl, rfl, ?_, ?_, ?_⟩
  · cases updated <;> decide
  · intro sB hold
    cases updated <;> cases hold
  · cases updated <;> decide

theorem resynced_iff_fresh_session : (exampleNet false).Exchange exampleIds (exampleSession false) exampleClocks ∧
      ((exampleNet false).resync exampleIds (exampleSession false) exampleClocks).Resynced exampleIds := by
  refine ⟨exampleNet_exchange false, ?_⟩
  refine (resynced_iff exampleIds (exampleNet false) (exampleSession false) exampleClocks
    (exampleNet_exchange false)).mpr ⟨Or.inr rfl, by decide, ?_⟩
  intro sB hold
  cases hold

theorem restarted_peer_stays_out_of_step : ¬ ∀ (ids : Ids) (net : Net) (s : SessionInfo) (clks : Clocks),
    net.Exchange ids s clks → (net.resync ids s clks).Resynced ids := by
  intro h
  have hneeds := (exampleNet_exchange true).needs (h _ _ _ _ (exampleNet_exchange true))
  exact absurd hneeds.1 (by decide)

end Exchange

end Yggdrasil.Session
