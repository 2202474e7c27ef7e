import Yggdrasil.Session.Resync

/-!
# What a call leaves when a session is being opened

Each call of a manager that takes part in opening a session, as one lemma: what it leaves for the peer, and what it
puts out (`Net.Leaves`).
-/

namespace Yggdrasil.Session
open Function SessionInfo Option Slot Session.Net
open SessionInfo (decryptOutsideLock DecryptCase RecvSnapshot)

/-! ## Messages and sessions -/

def IsData (msg : Bytes) : Prop := msg ≠ [] ∧ msg ≠ KEEPALIVE_ACK ∧ msg ≠ KEEPALIVE_PROBE

abbrev Ids.sealInit (ids : Ids) (p : Side) (i : SessionInit) : SealedInit :=
  i.encrypt (ids.key p) (ids.key p.other) (ids.auth p)

structure Carries (t : TrafficMsg) (hdr : TrafficHeader) (key : SalsaBox) : Prop where
  header : t.header = some hdr
  nonce : t.body.nonce = hdr.nonce
  key : t.body.key = key
  inner : t.body.plain.innerKey.isSome

structure OpenedFrom (init : SessionInit) (s : SessionInfo) : Prop where
  synced : s.Synced
  current : s.current = init.current
  next : s.next = init.next
  localSeq : s.localKeySeq = 0
  remoteSeq : s.remoteKeySeq = 0
  seq : s.seq = init.seq - 1

structure Announces (s : SessionInfo) (i : SessionInit) : Prop where
  current : i.current = s.sendKeys.pub
  next : i.next = s.nextKeys.pub
  keySeq : i.keySeq = s.localKeySeq

def ReadBy (t : TrafficMsg) (s : SessionInfo) (wrote : Prop) : Prop :=
  ∃ hdr c, Carries t hdr (s.caseShared c) ∧ s.Matches hdr c ∧ s.caseNonce c < hdr.nonce ∧ (c = .currentToRecv ∨ wrote)

/-! ## What the calls leave -/

structure Net.Leaves (ids : Ids) (net : Net) (e : Event) (session : Option SessionInfo) (buffer : Option SessionBuffer)
    (ps : List Packet) (ds : List (PublicKey × Bytes)) : Prop where
  session : (net.outcome ids e).mgr.sessions (ids.key e.side.other) = session
  buffer : (net.outcome ids e).mgr.buffers (ids.key e.side.other) = buffer
  packets : packets (net.outcome ids e).actions = ps
  deliveries : deliveries (net.outcome ids e).actions = ds

def Net.buffer (ids : Ids) (net : Net) (p : Side) : Option SessionBuffer := (net.party p).mgr.buffers (ids.key p.other)

structure AckOpened (b : SessionBuffer) (a : SessionInit) (s : SessionInfo) : Prop where
  synced : s.Synced
  current : s.current = a.current
  next : s.next = a.next
  localSeq : s.localKeySeq = 1
  remoteSeq : s.remoteKeySeq = a.keySeq
  recvKeys : s.recvKeys = b.currentKeys
  sendKeys : s.sendKeys = b.nextKeys
  seq : s.seq = a.seq
  recvNonce : s.recvNonce = 0
  nextSendNonce : s.nextSendNonce = 0

structure Updated (s : SessionInfo) (i : SessionInit) (s' : SessionInfo) : Prop where
  synced : s'.Synced
  current : s'.current = i.current
  next : s'.next = i.next
  localSeq : s'.localKeySeq = s.localKeySeq + 1
  remoteSeq : s'.remoteKeySeq = i.keySeq
  recvKeys : s'.recvKeys = s.sendKeys
  sendKeys : s'.sendKeys = s.nextKeys
  seq : s'.seq = i.seq
  recvNonce : s'.recvNonce = 0
  sendNonce : s'.sendNonce = s.sendNonce

theorem Slot.created_openedFrom (slot : Slot) (init : SessionInit) (now : Instant) :
    OpenedFrom init (slot.created init now) := by
  unfold Slot.created
  cases slot.buffer with
  | none => exact ⟨new_synced .., rfl, rfl, rfl, rfl, rfl⟩
  | some b => exact ⟨fixShared_synced .., rfl, rfl, rfl, rfl, rfl⟩

variable {b : SessionBuffer} {s s' : SessionInfo}

theorem Slot.created_keys {s : Slot} (hb : s.buffer = some b) (init : SessionInit)
    (now : Instant) : (s.created init now).sendKeys = b.currentKeys ∧ (s.created init now).nextKeys = b.nextKeys := by
  unfold Slot.created
  rw [hb]
  exact ⟨rfl, rfl⟩

theorem pred_lt_of_ne_zero {n m : UInt64} (h : n ≠ 0) (hm : n ≤ m) : n - 1 < m := by grind

theorem Slot.ackSession_ackOpened {slot : Slot} (hb : slot.buffer = some b) {a : SessionInit}
    (ha : a.seq ≠ 0) (now : Instant) : AckOpened b a (slot.ackSession a now).1 := by
  obtain ⟨hsend, hnext⟩ := created_keys hb a now
  have hopen := slot.created_openedFrom a now
  have hnewer : a.seq > (slot.created a now).seq := by
    rw [hopen.seq]
    exact pred_lt_of_ne_zero ha (UInt64.le_refl _)
  simp only [ackSession, if_pos hnewer]
  generalize slot.created a now = s at hsend hnext hopen
  refine ⟨handleUpdate_synced .., rfl, rfl, ?_, rfl, hsend, hnext, rfl, rfl, rfl⟩
  change s.localKeySeq + 1 = 1
  rw [hopen.localSeq]
  rfl

structure Sent (s s' : SessionInfo) : Prop where
  seq : s'.seq = s.seq
  remoteKeySeq : s'.remoteKeySeq = s.remoteKeySeq
  localKeySeq : s'.localKeySeq = s.localKeySeq
  current : s'.current = s.current
  next : s'.next = s.next
  recvKeys : s'.recvKeys = s.recvKeys
  sendKeys : s'.sendKeys = s.sendKeys
  nextKeys : s'.nextKeys = s.nextKeys
  caseShared : ∀ c, s'.caseShared c = s.caseShared c
  caseNonce : ∀ c, s'.caseNonce c = s.caseNonce c
  synced : s.Synced → s'.Synced

theorem doSend_first (h : s.sendNonce = 0) (msg : Bytes) (now : Instant) (rng : Rng) :
    Sent s (s.doSend msg now rng).2.1 ∧
      Carries (s.doSend msg now rng).1 ⟨s.localKeySeq, s.remoteKeySeq, 1⟩ s.sendShared ∧
      (s.doSend msg now rng).1.body.plain.payload = msg := by
  have hover : s.sendNonce + 1 ≠ 0 := by rw [h]; decide
  rw [doSend_eq hover, h]
  refine ⟨⟨rfl, rfl, rfl, rfl, rfl, rfl, rfl, rfl, ?_, ?_, fun hs => ⟨hs.1, hs.2, hs.3, hs.4⟩⟩,
    ⟨rfl, rfl, rfl, rfl⟩, rfl⟩ <;>
    (intro c; cases c <;> rfl)

theorem Sent.openedFrom (h : Sent s s') {init : SessionInit} (ho : OpenedFrom init s) : OpenedFrom init s' :=
  ⟨h.synced ho.synced, h.current.trans ho.current, h.next.trans ho.next, h.localKeySeq.trans ho.localSeq,
    h.remoteKeySeq.trans ho.remoteSeq, h.seq.trans ho.seq⟩

theorem Sent.ackOpened (h : Sent s s') {a : SessionInit} (ho : AckOpened b a s) : AckOpened b a s' :=
  ⟨h.synced ho.synced, h.current.trans ho.current, h.next.trans ho.next, h.localKeySeq.trans ho.localSeq,
    h.remoteKeySeq.trans ho.remoteSeq, h.recvKeys.trans ho.recvKeys, h.sendKeys.trans ho.sendKeys, h.seq.trans ho.seq,
    (h.caseNonce .currentToRecv).trans ho.recvNonce, (h.caseNonce .nextToSend).trans ho.nextSendNonce⟩

theorem Sent.announces (h : Sent s s') {i : SessionInit} (hi : Announces s i) : Announces s' i :=
  ⟨by rw [h.sendKeys, hi.current], by rw [h.nextKeys, hi.next], by rw [h.localKeySeq, hi.keySeq]⟩

theorem SessionInfo.announce_announces (s : SessionInfo) (clk : Clock) : Announces s (s.announce clk) := ⟨rfl, rfl, rfl⟩

section Leaves
variable {ids : Ids} {net : Net} {q : Side}

section
variable (hauth : net.AuthKept ids) (hsame : ids.auth .a = ids.auth .b) (i : SessionInit)
include hauth hsame i

theorem Net.decrypt_sealInit :
    SessionInit.decrypt (ids.sealInit q.other i) (ids.key q) (ids.key q.other)
      (net.party q).mgr.groupAuth = some i := by
  have hpre : ids.auth q.other = (net.party q).mgr.groupAuth := by
    rw [hauth q]
    cases q
    · exact hsame.symm
    · exact hsame
  exact SessionInit.decrypt_eq_some.mpr ⟨by simp [SessionInit.encrypt], rfl, hpre, rfl⟩

theorem Net.outcome_init (clk : Clock) : net.outcome ids (.receive q (.init (ids.sealInit q.other i)) clk) =
      (net.party q).mgr.handleInit (ids.key q.other) i (ids.key q) clk (net.party q).rng := by
  simp only [Net.outcome, ConcurrentSessionManager.handleData, decrypt_sealInit hauth hsame]

theorem Net.outcome_ack (clk : Clock) : net.outcome ids (.receive q (.ack (ids.sealInit q.other i)) clk) =
      (net.party q).mgr.handleAck (ids.key q.other) i (ids.key q) clk (net.party q).rng := by
  simp only [Net.outcome, ConcurrentSessionManager.handleData, decrypt_sealInit hauth hsame]

end

open ConcurrentSessionManager (sendBuffered)

theorem handleInit_open {mgr : ConcurrentSessionManager} {peer : PublicKey} (hs : mgr.sessions peer = none)
    (i : SessionInit) (ourKey : PublicKey) (clk : Clock) (rng : Rng) :
    ∃ s0 rng', OpenedFrom i s0 ∧ s0.sendNonce = 0 ∧
      (∀ b, mgr.buffers peer = some b → s0.sendKeys = b.currentKeys ∧ s0.nextKeys = b.nextKeys) ∧
      (mgr.handleInit peer i ourKey clk rng).mgr.sessions peer =
        some (sendBuffered s0 peer ((mgr.buffers peer).bind (·.data)) clk.now rng').2.1 ∧
      (mgr.handleInit peer i ourKey clk rng).mgr.buffers peer = none ∧
      (mgr.handleInit peer i ourKey clk rng).actions =
        (sendBuffered s0 peer ((mgr.buffers peer).bind (·.data)) clk.now rng').1 ++
          [.sendToInner peer (.ack ((s0.announce clk).encrypt ourKey peer mgr.groupAuth))] := by
  obtain ⟨mgr', hcreate, hbuf, hauth⟩ := createSessionFromInit_eq mgr rng peer i clk.now
  simp only [ConcurrentSessionManager.handleInit, hs, hcreate, hauth]
  exact ⟨(Slot.of mgr rng peer).created i clk.now, _, created_openedFrom .., created_sendNonce ..,
    fun b hb => created_keys (s := Slot.of mgr rng peer) hb i clk.now, update_self .., hbuf, rfl⟩

theorem handleAck_open {mgr : ConcurrentSessionManager} {peer : PublicKey} (hs : mgr.sessions peer = none)
    {b : SessionBuffer} (hb : mgr.buffers peer = some b) {a : SessionInit} (ha : a.seq ≠ 0) (ourKey : PublicKey)
    (clk : Clock) (rng : Rng) :
    ∃ s0 rng', AckOpened b a s0 ∧ s0.sendNonce = 0 ∧
      (mgr.handleAck peer a ourKey clk rng).mgr.sessions peer = some (sendBuffered s0 peer b.data clk.now rng').2.1 ∧
      (mgr.handleAck peer a ourKey clk rng).mgr.buffers peer = none ∧ (mgr.handleAck peer a ourKey clk rng).actions =
        .sendToInner peer (.ack ((s0.announce clk).encrypt ourKey peer mgr.groupAuth)) ::
          (sendBuffered s0 peer b.data clk.now rng').1 := by
  obtain ⟨mgr', hcreate, hbuf, hauth⟩ := createSessionFromInit_eq mgr rng peer a clk.now
  rw [hb, bind_some] at hcreate
  simp only [ConcurrentSessionManager.handleAck, hs, hcreate, hauth]
  exact ⟨((Slot.of mgr rng peer).ackSession a clk.now).1, _, ackSession_ackOpened hb ha clk.now,
    ackSession_sendNonce .., update_self .., hbuf, rfl⟩

section Receives
variable (hauth : net.AuthKept ids) (hsame : ids.auth .a = ids.auth .b)
include hauth hsame

theorem Net.leaves_init_fresh (hs : net.session ids q = none) (hb : net.buffer ids q = none) (i : SessionInit)
    (clk : Clock) :
    ∃ s' a, OpenedFrom i s' ∧ s'.sendNonce = 0 ∧ Announces s' a ∧ a.seq = clk.unixSecs ∧
      net.Leaves ids (.receive q (.init (ids.sealInit q.other i)) clk) (some s') none [.ack (ids.sealInit q a)] [] := by
  obtain ⟨s0, rng', hopen, hzero, -, hsess, hbuf, hact⟩ :=
    handleInit_open hs i (ids.key q) clk (net.party q).rng
  have hb' : (net.party q).mgr.buffers (ids.key q.other) = none := hb
  rw [hb'] at hsess hact
  rw [hauth q] at hact
  refine ⟨s0, s0.announce clk, hopen, hzero, s0.announce_announces clk, rfl, ?_⟩
  refine ⟨?_, ?_, ?_, ?_⟩ <;> rw [outcome_init hauth hsame]
  · exact hsess
  · exact hbuf
  · rw [hact]; rfl
  · rw [hact]; rfl

theorem Net.leaves_init_buffered (hs : net.session ids q = none) {b : SessionBuffer} (hb : net.buffer ids q = some b)
    {msg : Bytes} (hmsg : b.data = some msg) (i : SessionInit) (clk : Clock) :
    ∃ s' a t, OpenedFrom i s' ∧ s'.sendKeys = b.currentKeys ∧ s'.nextKeys = b.nextKeys ∧ Announces s' a ∧
      a.seq = clk.unixSecs ∧ Carries t ⟨0, 0, 1⟩ (makeSalsaBox i.current b.currentKeys.priv) ∧
      t.body.plain.payload = msg ∧ net.Leaves ids (.receive q (.init (ids.sealInit q.other i)) clk) (some s') none
        [.traffic t, .ack (ids.sealInit q a)] [] := by
  obtain ⟨s0, rng', hopen, hzero, hkeys, hsess, hbuf, hact⟩ :=
    handleInit_open hs i (ids.key q) clk (net.party q).rng
  have hb' : (net.party q).mgr.buffers (ids.key q.other) = some b := hb
  obtain ⟨hsend, hnext⟩ := hkeys b hb'
  rw [hb', bind_some, hmsg] at hsess hact
  rw [hauth q] at hact
  obtain ⟨hsent, hcar, hpay⟩ := doSend_first hzero msg clk.now rng'
  rw [hopen.localSeq, hopen.remoteSeq, hopen.synced.send, hopen.current, hsend] at hcar
  refine ⟨_, _, _, hsent.openedFrom hopen, hsent.sendKeys.trans hsend, hsent.nextKeys.trans hnext,
    hsent.announces (s0.announce_announces clk), rfl, hcar, hpay, ?_⟩
  refine ⟨?_, ?_, ?_, ?_⟩ <;> rw [outcome_init hauth hsame]
  · exact hsess
  · exact hbuf
  · rw [hact]; rfl
  · rw [hact]; rfl

variable {i : SessionInit}

theorem Net.leaves_init_stale {s : SessionInfo} (hs : net.session ids q = some s) (hi : i.seq ≤ s.seq) (clk : Clock) :
    net.Leaves ids (.receive q (.init (ids.sealInit q.other i)) clk) (some s) (net.buffer ids q) [] [] := by
  have hs' : (net.party q).mgr.sessions (ids.key q.other) = some s := hs
  have hout : net.outcome ids (.receive q (.init (ids.sealInit q.other i)) clk) =
      ⟨[], (net.party q).mgr, (net.party q).rng⟩ := by
    rw [outcome_init hauth hsame]
    simp only [ConcurrentSessionManager.handleInit, hs', if_pos hi]
  refine ⟨?_, ?_, ?_, ?_⟩ <;> rw [hout]
  · exact hs'
  · rfl
  · rfl
  · rfl

theorem Net.leaves_ack_buffered (hs : net.session ids q = none) {b : SessionBuffer} (hb : net.buffer ids q = some b)
    {msg : Bytes} (hmsg : b.data = some msg) (hi : i.seq ≠ 0) (clk : Clock) :
    ∃ s' a t, AckOpened b i s' ∧ Announces s' a ∧ a.seq = clk.unixSecs ∧
      Carries t ⟨1, i.keySeq, 1⟩ (makeSalsaBox i.current b.nextKeys.priv) ∧ t.body.plain.payload = msg ∧
      net.Leaves ids (.receive q (.ack (ids.sealInit q.other i)) clk) (some s') none
        [.ack (ids.sealInit q a), .traffic t] [] := by
  obtain ⟨s0, rng', hopen, hzero, hsess, hbuf, hact⟩ :=
    handleAck_open hs hb hi (ids.key q) clk (net.party q).rng
  rw [hmsg] at hsess hact
  rw [hauth q] at hact
  obtain ⟨hsent, hcar, hpay⟩ := doSend_first hzero msg clk.now rng'
  rw [hopen.localSeq, hopen.remoteSeq, hopen.synced.send, hopen.current, hopen.sendKeys] at hcar
  refine ⟨_, _, _, hsent.ackOpened hopen, hsent.announces (s0.announce_announces clk), rfl, hcar, hpay, ?_⟩
  refine ⟨?_, ?_, ?_, ?_⟩ <;> rw [outcome_ack hauth hsame]
  · exact hsess
  · exact hbuf
  · rw [hact]; rfl
  · rw [hact]; rfl

theorem Net.leaves_ack_session {s : SessionInfo} (hs : net.session ids q = some s) (hi : s.seq < i.seq)
    (clk : Clock) : ∃ s', Updated s i s' ∧
      net.Leaves ids (.receive q (.ack (ids.sealInit q.other i)) clk) (some s') (net.buffer ids q) [] [] := by
  have hs' : (net.party q).mgr.sessions (ids.key q.other) = some s := hs
  have hout : net.outcome ids (.receive q (.ack (ids.sealInit q.other i)) clk) =
      ⟨[], (net.party q).mgr.insertSession (ids.key q.other) (s.handleUpdate i clk.now (net.party q).rng).1,
        (s.handleUpdate i clk.now (net.party q).rng).2⟩ := by
    rw [outcome_ack hauth hsame]
    simp only [ConcurrentSessionManager.handleAck, hs']
    exact if_pos hi
  refine ⟨(s.handleUpdate i clk.now (net.party q).rng).1,
    ⟨handleUpdate_synced .., rfl, rfl, rfl, rfl, rfl, rfl, rfl, rfl, rfl⟩, ?_⟩
  refine ⟨?_, ?_, ?_, ?_⟩ <;> rw [hout]
  · exact update_self ..
  · rfl
  · rfl
  · rfl

end Receives

theorem Net.leaves_write_first (hauth : net.AuthKept ids) (hs : net.session ids q = none) (hb : net.buffer ids q = none)
    (msg : Bytes) (clk : Clock) : ∃ b : SessionBuffer, b.data = some msg ∧ b.init.keySeq = 0 ∧
      b.init.seq = clk.unixSecs ∧ net.Leaves ids (.write q msg clk) none (some b)
        [.init (ids.sealInit q b.init)] [] := by
  have hs' : (net.party q).mgr.sessions (ids.key q.other) = none := hs
  have hb' : (net.party q).mgr.buffers (ids.key q.other) = none := hb
  refine ⟨(Slot.enqueued ⟨none, none, (net.party q).rng⟩ msg clk).1, rfl, rfl, rfl, ?_, ?_, ?_, ?_⟩ <;>
    simp only [Net.outcome, ConcurrentSessionManager.writeTo, ConcurrentSessionManager.bufferAndInit, hs', hb']
  · exact hs
  · exact update_self ..
  · rw [hauth q]; rfl
  · rfl

theorem Net.leaves_write_session {s : SessionInfo} (hs : net.session ids q = some s) (hzero : s.sendNonce = 0)
    (msg : Bytes) (clk : Clock) : ∃ s' t, Sent s s' ∧
      Carries t ⟨s.localKeySeq, s.remoteKeySeq, 1⟩ s.sendShared ∧ t.body.plain.payload = msg ∧
      net.Leaves ids (.write q msg clk) (some s') (net.buffer ids q) [.traffic t] [] := by
  obtain ⟨hsent, hcar, hpay⟩ := doSend_first hzero msg clk.now (net.party q).rng
  refine ⟨_, _, hsent, hcar, hpay, ?_, ?_, ?_, ?_⟩ <;> rw [outcome_write hs]
  · exact update_self ..
  · rfl
  · rfl
  · rfl

theorem Net.leaves_traffic {s : SessionInfo} (hs : net.session ids q = some s) {t : TrafficMsg} {wrote : Prop}
    (ht : ReadBy t s wrote) (hdata : IsData t.body.plain.payload) (clk : Clock) :
    ∃ s', s'.seq = s.seq ∧ (¬ wrote → ∃ n, s.Counted .currentToRecv n s') ∧
      net.Leaves ids (.receive q (.traffic t) clk) (some s') (net.buffer ids q) []
        [(ids.key q.other, t.body.plain.payload)] := by
  obtain ⟨hdr, c, hcar, hm, hn, hc⟩ := ht
  obtain ⟨k, hk⟩ := isSome_iff_exists.mp hcar.inner
  have hsnap : s.recvSnapshot t = .ok ⟨s.remoteKeySeq, hdr.nonce, s.caseShared c, c⟩ := by
    rw [recvSnapshot_of_matches hcar.header hm, if_pos hn]
  have hdec : decryptOutsideLock ⟨s.remoteKeySeq, hdr.nonce, s.caseShared c, c⟩ t = .ok (t.body.plain.payload, k) :=
    decryptOutsideLock_ok.mpr ⟨hcar.key, hcar.nonce, by rw [← hk]⟩
  obtain ⟨hne, hack, hprobe⟩ := hdata
  have hout := ConcurrentSessionManager.handleTraffic_accept hs hsnap hdec (ids.key q) clk (net.party q).rng
  simp only [ConcurrentSessionManager.afterAccept, if_neg (not_or.mpr ⟨hne, hack⟩), if_neg hprobe] at hout
  have hseq : RecvSnapshot.remoteKeySeq ⟨s.remoteKeySeq, hdr.nonce, s.caseShared c, c⟩ = s.remoteKeySeq := rfl
  have hfin := recvFinalize_cases hseq k t.body.plain.payload.length.toUInt64 clk.now (net.party q).rng
  generalize s.recvFinalize _ k _ clk.now (net.party q).rng = final at hout hfin
  refine ⟨final.1, ?_, ?_, ?_⟩
  · rcases hfin with ⟨hcnt, -, -⟩ | ⟨hrot, -, -, -⟩
    · exact hcnt.seq
    · exact hrot.seq
  · intro hw
    obtain rfl := hc.resolve_right hw
    rcases hfin with ⟨hcnt, -, -⟩ | ⟨-, -, hcase, -⟩
    · exact ⟨hdr.nonce, hcnt⟩
    · exact absurd rfl hcase
  refine ⟨?_, ?_, ?_, ?_⟩ <;> simp only [Net.outcome, ConcurrentSessionManager.handleData, hout]
  · exact update_self ..
  · rfl
  · rfl
  · rfl

end Leaves

end Yggdrasil.Session
