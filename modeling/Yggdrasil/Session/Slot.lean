import Mathlib.Logic.Relation
import Yggdrasil.Session.Manager

/-!
# The two ends of a session as a small state machine

Every call of the manager is a sequence of the few things that can happen to a slot. The invariants of the session
layer are proved per step of this machine; `handleData_steps` and `writeTo_steps` connect it to the manager.
-/

namespace Yggdrasil.Session
open SessionInfo List ConcurrentSessionManager
open SessionInfo (decryptOutsideLock)

inductive Side where
  | a
  | b
deriving DecidableEq, Repr

def Side.other : Side → Side
  | .a => .b
  | .b => .a

@[simp] theorem Side.other_other (p : Side) : p.other.other = p := by cases p <;> rfl

@[simp] theorem Side.other_ne (p : Side) : p.other ≠ p := by cases p <;> decide

theorem Side.eq_or_eq_other (p q : Side) : q = p ∨ q = p.other := by cases p <;> cases q <;> simp [Side.other]

structure Ids where
  key : Side → PublicKey
  auth : Side → GroupAuth
  key_ne : key .a ≠ key .b

theorem Ids.key_other_ne (ids : Ids) (p : Side) : ids.key p.other ≠ ids.key p := by
  cases p
  · exact ids.key_ne.symm
  · exact ids.key_ne

/-- All that a manager holds for one peer, and the key pairs drawn so far. -/
structure Slot where
  session : Option SessionInfo
  buffer : Option SessionBuffer
  rng : Rng

def Slot.of (mgr : ConcurrentSessionManager) (rng : Rng) (peer : PublicKey) : Slot :=
  ⟨mgr.sessions peer, mgr.buffers peer, rng⟩

structure World where
  slot : Side → Slot
  emitted : List (Side × Packet)

def World.put (w : World) (p : Side) (s : Slot) (ps : List Packet) : World :=
  ⟨Function.update w.slot p s, w.emitted ++ ps.map (Prod.mk p)⟩

section
variable (w : World) (p : Side) (s : Slot) (ps : List Packet)
include w p s ps

@[simp] theorem World.put_slot_self : (w.put p s ps).slot p = s := by simp [World.put]

@[simp] theorem World.put_slot_other : (w.put p s ps).slot p.other = w.slot p.other := by simp [World.put]

@[simp] theorem World.put_emitted : (w.put p s ps).emitted = w.emitted ++ ps.map (Prod.mk p) := rfl

end

@[simp] theorem World.put_put (w : World) (p : Side) (s s' : Slot) (ps qs : List Packet) :
    (w.put p s ps).put p s' qs = w.put p s' (ps ++ qs) := by
  simp [World.put, append_assoc]

@[simp] theorem World.put_self (w : World) (p : Side) : w.put p (w.slot p) [] = w := by
  simp [World.put]

variable {w w' : World} {s : Slot} {ids : Ids} {ok : World → Side → SlotAct → Prop}

theorem World.forall_put {P : Side → Slot → Prop} {p : Side} {ps : List Packet} (hp : P p s)
    (hother : P p.other (w.slot p.other)) (q : Side) : P q ((w.put p s ps).slot q) := by
  rcases Side.eq_or_eq_other p q with rfl | rfl
  · rwa [World.put_slot_self]
  · rwa [World.put_slot_other]

def Packet.use : Packet → Option (SalsaBox × UInt64)
  | .traffic t => some (t.body.key, t.body.nonce)
  | _ => none

def World.Sealed (w : World) (p : Side) (t : TrafficMsg) : Prop := (p, Packet.traffic t) ∈ w.emitted

def World.Announced (w : World) (p : Side) (init : SessionInit) : Prop :=
  ∃ h : SealedInit, ((p, Packet.init h) ∈ w.emitted ∨ (p, Packet.ack h) ∈ w.emitted) ∧ h.init = init

section Put
variable {w : World} {p q : Side} {s' : Slot} {ps : List Packet}

theorem World.sealed_put {t : TrafficMsg} (h : (w.put p s' ps).Sealed q t) :
    w.Sealed q t ∨ q = p ∧ Packet.traffic t ∈ ps := by
  simpa [World.Sealed, World.put, eq_comm, and_comm] using h

theorem World.announced_put {init : SessionInit} (h : (w.put p s' ps).Announced q init) :
    w.Announced q init ∨ q = p ∧ ∃ h : SealedInit, (Packet.init h ∈ ps ∨ Packet.ack h ∈ ps) ∧ h.init = init := by
  obtain ⟨h, hmem, rfl⟩ := h
  simp only [World.put_emitted, mem_append, mem_map, Prod.mk.injEq] at hmem
  rcases hmem with (h1 | ⟨d, hd, rfl, rfl⟩) | (h1 | ⟨d, hd, rfl, rfl⟩)
  · exact .inl ⟨h, .inl h1, rfl⟩
  · exact .inr ⟨rfl, h, .inl hd, rfl⟩
  · exact .inl ⟨h, .inr h1, rfl⟩
  · exact .inr ⟨rfl, h, .inr hd, rfl⟩

end Put

inductive SlotAct where
  | update (init : SessionInit)
  | openInit (init : SessionInit)
  | openAck (ack : SessionInit)
  | enqueue (msg : Bytes)
  | sealMsg (msg : Bytes)
  | accept (t : TrafficMsg)

def Slot.created (s : Slot) (init : SessionInit) (now : Instant) : SessionInfo :=
  let fresh := (SessionInfo.new init.current init.next init.seq now s.rng).1
  match s.buffer with
  | some buf => { fresh with sendKeys := buf.currentKeys, nextKeys := buf.nextKeys }.fixShared 0 0
  | none => fresh

def Slot.opened (s : Slot) (init : SessionInit) (now : Instant) : Slot :=
  ⟨some (s.created init now), none, (SessionInfo.new init.current init.next init.seq now s.rng).2⟩

def Slot.updated (s : Slot) (info : SessionInfo) (init : SessionInit) (now : Instant) : Slot :=
  let u := info.handleUpdate init now s.rng
  ⟨some u.1, s.buffer, u.2⟩

def Slot.ackSession (s : Slot) (ack : SessionInit) (now : Instant) : SessionInfo × Rng :=
  let info := s.created ack now
  if ack.seq > info.seq then info.handleUpdate ack now (s.opened ack now).rng else (info, (s.opened ack now).rng)

def Slot.openedAck (s : Slot) (ack : SessionInit) (now : Instant) : Slot :=
  ⟨some (s.ackSession ack now).1, none, (s.ackSession ack now).2⟩

theorem Slot.openedAck_newer {ack : SessionInit} {now : Instant} (h : ack.seq > (s.created ack now).seq) :
    s.openedAck ack now = ⟨some ((s.created ack now).handleUpdate ack now (s.opened ack now).rng).1, none,
      (newBoxKeys (s.opened ack now).rng).2⟩ := by
  simp only [Slot.openedAck, Slot.ackSession, if_pos h]
  rfl

theorem Slot.openedAck_stale {ack : SessionInit} {now : Instant} (h : ¬ ack.seq > (s.created ack now).seq) :
    s.openedAck ack now = s.opened ack now := by
  simp only [Slot.openedAck, Slot.ackSession, if_neg h]
  rfl

def Slot.sealed (s : Slot) (info : SessionInfo) (msg : Bytes) (now : Instant) : Slot :=
  let sent := info.doSend msg now s.rng
  ⟨some sent.2.1, s.buffer, sent.2.2⟩

def Slot.accepted (s : Slot) (info : SessionInfo) (snap : SessionInfo.RecvSnapshot) (innerKey : CurvePublicKey)
    (len : UInt64) (now : Instant) : Slot :=
  let final := info.recvFinalize snap innerKey len now s.rng
  ⟨some final.1, s.buffer, final.2⟩

def Slot.enqueued (s : Slot) (msg : Bytes) (clk : Clock) : SessionBuffer × Rng :=
  match s.buffer with
  | some buf => ({ buf with data := some msg }, s.rng)
  | none =>
    let current := newBoxKeys s.rng
    let next := newBoxKeys current.2
    ({ data := some msg
       init := SessionInit.new current.1.pub next.1.pub 0 clk
       currentKeys := current.1
       nextKeys := next.1
       created := clk.now
       current_eq := rfl
       next_eq := rfl }, next.2)

theorem Slot.enqueued_some {buf : SessionBuffer} (h : s.buffer = some buf) (msg : Bytes) (clk : Clock) :
    s.enqueued msg clk = ({ buf with data := some msg }, s.rng) := by
  rw [Slot.enqueued, h]

def Slot.drawnBuffer (s : Slot) (msg : Bytes) (clk : Clock) : SessionBuffer where
  data := some msg
  init := SessionInit.new (newBoxKeys s.rng).1.pub (newBoxKeys (newBoxKeys s.rng).2).1.pub 0 clk
  currentKeys := (newBoxKeys s.rng).1
  nextKeys := (newBoxKeys (newBoxKeys s.rng).2).1
  created := clk.now
  current_eq := rfl
  next_eq := rfl

theorem Slot.enqueued_none (h : s.buffer = none) (msg : Bytes) (clk : Clock) :
    s.enqueued msg clk = (s.drawnBuffer msg clk, (newBoxKeys (newBoxKeys s.rng).2).2) := by
  rw [Slot.enqueued, h]
  rfl

def SessionInfo.announce (info : SessionInfo) (clk : Clock) : SessionInit :=
  SessionInit.new info.sendKeys.pub info.nextKeys.pub info.localKeySeq clk

def Slot.throwaway (s : Slot) (clk : Clock) : SessionInit :=
  SessionInit.new (newBoxKeys s.rng).1.pub (newBoxKeys (newBoxKeys s.rng).2).1.pub 0 clk

/-- The few things that can happen to a slot. -/
inductive World.Step (ids : Ids) (ok : World → Side → SlotAct → Prop) (w : World) : World → Prop
  | throwaway (p : Side) (clk : Clock) : (w.slot p).session = none →
      Step ids ok w (w.put p { w.slot p with rng := (newBoxKeys (newBoxKeys (w.slot p).rng).2).2 }
        [.init (((w.slot p).throwaway clk).encrypt (ids.key p) (ids.key p.other) (ids.auth p))])
  | announceInit (p : Side) (info : SessionInfo) (clk : Clock) : (w.slot p).session = some info →
      Step ids ok w (w.put p (w.slot p)
        [.init ((info.announce clk).encrypt (ids.key p) (ids.key p.other) (ids.auth p))])
  | announceAck (p : Side) (info : SessionInfo) (clk : Clock) : (w.slot p).session = some info →
      Step ids ok w (w.put p (w.slot p)
        [.ack ((info.announce clk).encrypt (ids.key p) (ids.key p.other) (ids.auth p))])
  | update (p : Side) (info : SessionInfo) (init : SessionInit) (now : Instant) :
      (w.slot p).session = some info → ok w p (.update init) →
      Step ids ok w (w.put p ((w.slot p).updated info init now) [])
  | openInit (p : Side) (init : SessionInit) (now : Instant) : (w.slot p).session = none → ok w p (.openInit init) →
      Step ids ok w (w.put p ((w.slot p).opened init now) [])
  | openAck (p : Side) (ack : SessionInit) (now : Instant) : (w.slot p).session = none → ok w p (.openAck ack) →
      Step ids ok w (w.put p ((w.slot p).openedAck ack now) [])
  | enqueue (p : Side) (msg : Bytes) (clk : Clock) : (w.slot p).session = none → ok w p (.enqueue msg) →
      Step ids ok w (w.put p
        { w.slot p with buffer := some ((w.slot p).enqueued msg clk).1, rng := ((w.slot p).enqueued msg clk).2 }
        [.init ((((w.slot p).enqueued msg clk).1.init).encrypt (ids.key p) (ids.key p.other) (ids.auth p))])
  | sealMsg (p : Side) (info : SessionInfo) (msg : Bytes) (now : Instant) :
      (w.slot p).session = some info → ok w p (.sealMsg msg) →
      Step ids ok w (w.put p ((w.slot p).sealed info msg now) [.traffic (info.doSend msg now (w.slot p).rng).1])
  | accept (p : Side) (info : SessionInfo) (t : TrafficMsg) (snap : SessionInfo.RecvSnapshot) (payload : Bytes)
      (innerKey : CurvePublicKey) (now : Instant) : (w.slot p).session = some info → ok w p (.accept t) →
      info.recvSnapshot t = .ok snap → decryptOutsideLock snap t = .ok (payload, innerKey) →
      Step ids ok w (w.put p ((w.slot p).accepted info snap innerKey payload.length.toUInt64 now) [])
  | forgetSession (p : Side) : Step ids ok w (w.put p { w.slot p with session := none } [])
  | forgetBuffer (p : Side) : Step ids ok w (w.put p { w.slot p with buffer := none } [])

abbrev World.Steps (ids : Ids) (ok : World → Side → SlotAct → Prop) : World → World → Prop :=
  Relation.ReflTransGen (World.Step ids ok)

theorem World.Step.single (h : World.Step ids ok w w') : World.Steps ids ok w w' := Relation.ReflTransGen.single h

theorem World.Steps.invariant {I : World → Prop} (h : World.Steps ids ok w w') (h0 : I w)
    (hstep : ∀ w w', I w → World.Step ids ok w w' → I w') : I w' := by
  induction h with
  | refl => exact h0
  | tail _ hs ih => exact hstep _ _ ih hs

def World.Signed (ids : Ids) (w : World) : Prop :=
  ∀ p h, (p, Packet.init h) ∈ w.emitted ∨ (p, Packet.ack h) ∈ w.emitted → h.signer = ids.key p

theorem World.Signed.put {p : Side} {s' : Slot} {ps : List Packet} (h : w.Signed ids)
    (hps : ∀ h : SealedInit, Packet.init h ∈ ps ∨ Packet.ack h ∈ ps → h.signer = ids.key p) :
    (w.put p s' ps).Signed ids := by
  intro q h' hm
  simp only [World.put_emitted, mem_append, mem_map, Prod.mk.injEq] at hm
  rcases hm with (hm | ⟨d, hd, rfl, rfl⟩) | (hm | ⟨d, hd, rfl, rfl⟩)
  · exact h q h' (.inl hm)
  · exact hps h' (.inl hd)
  · exact h q h' (.inr hm)
  · exact hps h' (.inr hd)

theorem World.Signed.step (h : w.Signed ids) (hs : World.Step ids ok w w') : w'.Signed ids := by
  cases hs <;> exact h.put (by simp [SessionInit.encrypt])

/-! ## The calls of the manager are sequences of steps -/

def packets (actions : List OutAction) : List Packet :=
  actions.filterMap fun
    | .sendToInner _ data => some data
    | .deliver _ _ => none

@[simp] theorem packets_nil : packets [] = [] := rfl

@[simp] theorem packets_send (dest : PublicKey) (data : Packet) (rest : List OutAction) :
    packets (.sendToInner dest data :: rest) = data :: packets rest := rfl

@[simp] theorem packets_deliver (source : PublicKey) (data : Bytes) (rest : List OutAction) :
    packets (.deliver source data :: rest) = packets rest := rfl

@[simp] theorem packets_append (l r : List OutAction) : packets (l ++ r) = packets l ++ packets r :=
  filterMap_append

@[simp] theorem Slot.of_insertSession (mgr : ConcurrentSessionManager) (rng : Rng) (peer : PublicKey)
    (info : SessionInfo) : Slot.of (mgr.insertSession peer info) rng peer = ⟨some info, mgr.buffers peer, rng⟩ := by
  simp [Slot.of, insertSession]

theorem SessionInfo.announce_doSend (info : SessionInfo) (msg : Bytes) (now : Instant) (rng : Rng) (clk : Clock)
    (h : info.sendNonce + 1 ≠ 0) : (info.doSend msg now rng).2.1.announce clk = info.announce clk := by
  simp [doSend, sendSnapshot, sendFinalize, announce, h]

@[simp] theorem Slot.created_sendNonce (s : Slot) (init : SessionInit) (now : Instant) :
    (s.created init now).sendNonce = 0 := by
  unfold Slot.created
  cases s.buffer <;> rfl

theorem createSessionFromInit_eq (mgr : ConcurrentSessionManager) (rng : Rng) (peer : PublicKey) (init : SessionInit)
    (now : Instant) : ∃ mgr', mgr.createSessionFromInit peer init now rng =
      ((mgr.buffers peer).bind (·.data), (Slot.of mgr rng peer).created init now, mgr',
        ((Slot.of mgr rng peer).opened init now).rng) ∧ mgr'.buffers peer = none ∧ mgr'.groupAuth = mgr.groupAuth := by
  unfold createSessionFromInit Slot.opened Slot.created Slot.of
  cases h : mgr.buffers peer with
  | none => exact ⟨mgr, rfl, h, rfl⟩
  | some buf =>
    exact ⟨{ mgr with buffers := Function.update mgr.buffers peer none }, rfl, Function.update_self .., rfl⟩

section Refinement
variable {ids : Ids} {ok : World → Side → SlotAct → Prop} {w : World} {p : Side} {mgr : ConcurrentSessionManager}
  {rng : Rng}

def World.after (w : World) (ids : Ids) (p : Side) (o : Outcome) : World :=
  w.put p (Slot.of o.mgr o.rng (ids.key p.other)) (packets o.actions)

/-- A call of `write_to` is a sequence of steps of its slot. -/
theorem writeTo_steps (hw : w.slot p = Slot.of mgr rng (ids.key p.other)) (ha : mgr.groupAuth = ids.auth p)
    (msg : Bytes) (clk : Clock) (hseal : ∀ info, (w.slot p).session = some info → ok w p (.sealMsg msg))
    (henq : (w.slot p).session = none → ok w p (.enqueue msg)) :
    World.Steps ids ok w (w.after ids p (mgr.writeTo (ids.key p.other) msg (ids.key p) clk rng)) := by
  cases hs : mgr.sessions (ids.key p.other) with
  | some info =>
    have hs' : (w.slot p).session = some info := by rw [hw]; exact hs
    have hrng : (w.slot p).rng = rng := by rw [hw]; rfl
    have hbuf : (w.slot p).buffer = mgr.buffers (ids.key p.other) := by rw [hw]; rfl
    have step : World.Step ids ok w _ := World.Step.sealMsg p info msg clk.now hs' (hseal info hs')
    refine Relation.ReflTransGen.single ?_
    simpa [World.after, ConcurrentSessionManager.writeTo, hs, Slot.sealed, hrng, hbuf] using step
  | none =>
    have hs' : (w.slot p).session = none := by rw [hw]; exact hs
    have step : World.Step ids ok w _ := World.Step.enqueue p msg clk hs' (henq hs')
    refine Relation.ReflTransGen.single ?_
    cases hb : mgr.buffers (ids.key p.other) <;>
      simpa [World.after, ConcurrentSessionManager.writeTo, bufferAndInit, hs, hb, hw,
        Slot.of, Slot.enqueued, ha] using step

variable (info : SessionInfo)

theorem sendBuffered_steps (buf : Option SessionBuffer) (ps : List Packet) (buffered : Option Bytes) (now : Instant)
    (hseal : ∀ msg, buffered = some msg → ok (w.put p ⟨some info, buf, rng⟩ ps) p (.sealMsg msg)) :
    let sent := sendBuffered info (ids.key p.other) buffered now rng
    World.Steps ids ok (w.put p ⟨some info, buf, rng⟩ ps)
      (w.put p ⟨some sent.2.1, buf, sent.2.2⟩ (ps ++ packets sent.1)) := by
  cases buffered with
  | none => simp [sendBuffered, Relation.ReflTransGen.refl]
  | some msg =>
    have step : World.Step ids ok (w.put p ⟨some info, buf, rng⟩ ps) _ :=
      World.Step.sealMsg p info msg now (by rw [World.put_slot_self]) (hseal msg rfl)
    rw [World.put_slot_self, World.put_put] at step
    exact Relation.ReflTransGen.single step

theorem announceAck_put (buf : Option SessionBuffer) (ps : List Packet) (clk : Clock) :
    World.Step ids ok (w.put p ⟨some info, buf, rng⟩ ps) (w.put p ⟨some info, buf, rng⟩
      (ps ++ [.ack ((info.announce clk).encrypt (ids.key p) (ids.key p.other) (ids.auth p))])) := by
  have h : World.Step ids ok (w.put p ⟨some info, buf, rng⟩ ps) _ :=
    World.Step.announceAck p info clk (by rw [World.put_slot_self])
  rwa [World.put_slot_self, World.put_put] at h

theorem sendBuffered_announce (peer : PublicKey) (buffered : Option Bytes) (now : Instant)
    (rng : Rng) (clk : Clock) (h : info.sendNonce = 0) :
    (sendBuffered info peer buffered now rng).2.1.announce clk = info.announce clk := by
  cases buffered with
  | none => rfl
  | some msg => exact info.announce_doSend msg now rng clk (by rw [h]; decide)

theorem Slot.ackSession_sendNonce (s : Slot) (ack : SessionInit) (now : Instant) :
    (s.ackSession ack now).1.sendNonce = 0 := by
  by_cases h : ack.seq > (s.created ack now).seq
  · simp only [Slot.ackSession, h, if_true]
    exact s.created_sendNonce ack now
  simp only [Slot.ackSession, h, if_false]
  exact s.created_sendNonce ack now

/-- The guard admits what handling `data` at side `p` does. Buffered data leaves a session that has not sent yet. -/
structure Admits (ids : Ids) (ok : World → Side → SlotAct → Prop) (w : World) (p : Side) (data : Packet) : Prop where
  update : ∀ info h init, (w.slot p).session = some info → data = .init h ∨ data = .ack h →
    SessionInit.decrypt h (ids.key p) (ids.key p.other) (ids.auth p) = some init → info.seq < init.seq →
    ok w p (.update init)
  openInit : ∀ h init, (w.slot p).session = none → data = .init h →
    SessionInit.decrypt h (ids.key p) (ids.key p.other) (ids.auth p) = some init → ok w p (.openInit init)
  openAck : ∀ h ack, (w.slot p).session = none → data = .ack h →
    SessionInit.decrypt h (ids.key p) (ids.key p.other) (ids.auth p) = some ack → ok w p (.openAck ack)
  accept : ∀ t, data = .traffic t → ok w p (.accept t)
  sealMsg : ∀ w' info msg, (w'.slot p).session = some info →
    info.sendNonce = 0 ∨ (∃ t old, data = .traffic t ∧ (w.slot p).session = some old ∧ info.sendNonce = old.sendNonce) →
    msg = KEEPALIVE_ACK ∨ (w.slot p).buffer.bind (·.data) = some msg → ok w' p (.sealMsg msg)

theorem handleInit_steps (hw : w.slot p = Slot.of mgr rng (ids.key p.other)) (ha : mgr.groupAuth = ids.auth p)
    {h : SealedInit} {init : SessionInit} (clk : Clock) (hok : Admits ids ok w p (.init h))
    (hdec : SessionInit.decrypt h (ids.key p) (ids.key p.other) (ids.auth p) = some init) :
    World.Steps ids ok w (w.after ids p (mgr.handleInit (ids.key p.other) init (ids.key p) clk rng)) := by
  cases hs : mgr.sessions (ids.key p.other) with
  | some info =>
    have hs' : (w.slot p).session = some info := by rw [hw]; exact hs
    by_cases hstale : init.seq ≤ info.seq
    · have : w.after ids p (mgr.handleInit (ids.key p.other) init (ids.key p) clk rng) = w := by
        simp [World.after, handleInit, hs, hstale, ← hw]
      rw [this]
    have first : World.Step ids ok w _ := World.Step.update p info init clk.now hs'
      (hok.update info h init hs' (.inl rfl) hdec (UInt64.not_le.mp hstale))
    have second : World.Step ids ok (w.put p ((w.slot p).updated info init clk.now) []) _ :=
      World.Step.announceAck p (info.handleUpdate init clk.now (w.slot p).rng).1 clk (by simp [Slot.updated])
    refine (Relation.ReflTransGen.single first).tail ?_
    simpa [World.after, handleInit, hs, hstale, hw, Slot.of, Slot.updated, ha,
      announce, insertSession] using second
  | none =>
    have hs' : (w.slot p).session = none := by rw [hw]; exact hs
    obtain ⟨mgr', hcreate, hbuf, hauth⟩ := createSessionFromInit_eq mgr rng (ids.key p.other) init clk.now
    rw [← hw, show mgr.buffers (ids.key p.other) = (w.slot p).buffer by rw [hw]; rfl] at hcreate
    -- open, send what was buffered, acknowledge
    have first : World.Step ids ok w _ := World.Step.openInit p init clk.now hs' (hok.openInit h init hs' rfl hdec)
    have second : World.Steps ids ok (w.put p ((w.slot p).opened init clk.now) []) _ :=
      sendBuffered_steps ((w.slot p).created init clk.now) none [] ((w.slot p).buffer.bind (·.data)) clk.now
        fun msg hmsg => hok.sealMsg _ _ msg (by rw [World.put_slot_self]) (.inl (Slot.created_sendNonce ..))
          (.inr hmsg)
    have third := (first.single.trans second).tail (announceAck_put _ _ _ clk)
    rw [sendBuffered_announce _ _ _ _ _ _ (Slot.created_sendNonce ..)] at third
    simpa [World.after, handleInit, hs, hcreate, Slot.opened, hbuf, hauth, ha, announce] using third

theorem handleAck_steps (hw : w.slot p = Slot.of mgr rng (ids.key p.other)) (ha : mgr.groupAuth = ids.auth p)
    {h : SealedInit} {ack : SessionInit} (clk : Clock) (hok : Admits ids ok w p (.ack h))
    (hdec : SessionInit.decrypt h (ids.key p) (ids.key p.other) (ids.auth p) = some ack) :
    World.Steps ids ok w (w.after ids p (mgr.handleAck (ids.key p.other) ack (ids.key p) clk rng)) := by
  cases hs : mgr.sessions (ids.key p.other) with
  | some info =>
    have hs' : (w.slot p).session = some info := by rw [hw]; exact hs
    by_cases hnew : ack.seq > info.seq
    · have step : World.Step ids ok w _ := World.Step.update p info ack clk.now hs'
        (hok.update info h ack hs' (.inr rfl) hdec hnew)
      refine Relation.ReflTransGen.single ?_
      simpa [World.after, ConcurrentSessionManager.handleAck, hs, hnew, hw, Slot.of, Slot.updated,
        insertSession] using step
    have : w.after ids p (mgr.handleAck (ids.key p.other) ack (ids.key p) clk rng) = w := by
      simp [World.after, ConcurrentSessionManager.handleAck, hs, hnew, ← hw]
    rw [this]
  | none =>
    have hs' : (w.slot p).session = none := by rw [hw]; exact hs
    obtain ⟨mgr', hcreate, hbuf, hauth⟩ := createSessionFromInit_eq mgr rng (ids.key p.other) ack clk.now
    rw [← hw, show mgr.buffers (ids.key p.other) = (w.slot p).buffer by rw [hw]; rfl] at hcreate
    -- open, acknowledge, send what was buffered
    have first : World.Step ids ok w _ := World.Step.openAck p ack clk.now hs' (hok.openAck h ack hs' rfl hdec)
    have second := first.single.tail (announceAck_put ((w.slot p).ackSession ack clk.now).1 none [] clk)
    have third := second.trans (sendBuffered_steps _ none _ ((w.slot p).buffer.bind (·.data)) clk.now
      fun msg hmsg => hok.sealMsg _ _ msg (by rw [World.put_slot_self]) (.inl (Slot.ackSession_sendNonce ..))
        (.inr hmsg))
    simpa [World.after, ConcurrentSessionManager.handleAck, hs, hcreate, Slot.openedAck, Slot.ackSession, hbuf, hauth,
      ha, announce] using third

theorem SessionInfo.recvFinalize_sendNonce (snap : SessionInfo.RecvSnapshot)
    (innerKey : CurvePublicKey) (len : UInt64) (now : Instant) (rng : Rng) :
    (info.recvFinalize snap innerKey len now rng).1.sendNonce = 0 ∨
      (info.recvFinalize snap innerKey len now rng).1.sendNonce = info.sendNonce := by
  unfold recvFinalize
  split
  · exact .inr rfl
  cases snap.case with
  | currentToRecv => exact .inr rfl
  | nextToSend | nextToRecv =>
    simp only [maybeRatchetOnRecv]
    split
    · exact .inl rfl
    · exact .inr rfl

section
variable (hw : w.slot p = Slot.of mgr rng (ids.key p.other))
include hw

theorem afterAccept_steps (ha : mgr.groupAuth = ids.auth p)
    {t : TrafficMsg} (clk : Clock) (hok : Admits ids ok w p (.traffic t)) {info : SessionInfo}
    (hs : (w.slot p).session = some info) {snap : SessionInfo.RecvSnapshot} {payload : Bytes}
    {innerKey : CurvePublicKey} (hsnap : info.recvSnapshot t = .ok snap)
    (hdec : decryptOutsideLock snap t = .ok (payload, innerKey)) {final : SessionInfo × Rng}
    (hfinal : info.recvFinalize snap innerKey payload.length.toUInt64 clk.now rng = final) :
    World.Steps ids ok w (w.after ids p
      (mgr.afterAccept (ids.key p.other) payload final.1 (ids.key p) clk final.2)) := by
  have first : World.Step ids ok w _ :=
    World.Step.accept p info t snap payload innerKey clk.now hs (hok.accept t rfl) hsnap hdec
  have hnonce : final.1.sendNonce = 0 ∨ ∃ t' old, Packet.traffic t = .traffic t' ∧ (w.slot p).session = some old ∧
        final.1.sendNonce = old.sendNonce :=
    hfinal ▸ (info.recvFinalize_sendNonce ..).imp id fun h => ⟨t, info, rfl, hs, h⟩
  have hacc : (w.slot p).accepted info snap innerKey payload.length.toUInt64 clk.now = Slot.of
      (mgr.insertSession (ids.key p.other) final.1) final.2 (ids.key p.other) := by
    rw [Slot.of_insertSession, hw, ← hfinal]
    rfl
  rw [hacc] at first
  unfold afterAccept
  by_cases hquiet : payload = [] ∨ payload = KEEPALIVE_ACK
  · rw [if_pos hquiet]
    exact first.single
  rw [if_neg hquiet]
  by_cases hprobe : payload = KEEPALIVE_PROBE
  · -- the answer is an ordinary write on the session just updated
    rw [if_pos hprobe]
    generalize hmgr : mgr.insertSession (ids.key p.other) final.1 = mgr' at first ⊢
    have hslot : (w.put p (Slot.of mgr' final.2 (ids.key p.other)) []).slot p =
        Slot.of mgr' final.2 (ids.key p.other) := World.put_slot_self ..
    have hses : ((w.put p (Slot.of mgr' final.2 (ids.key p.other)) []).slot p).session = some final.1 := by
      rw [hslot, ← hmgr, Slot.of_insertSession]
    have ha' : mgr'.groupAuth = ids.auth p := by
      rw [← hmgr]
      exact ha
    have second := first.single.trans (writeTo_steps hslot ha' KEEPALIVE_ACK clk
      (fun _ _ => hok.sealMsg _ _ _ hses hnonce (.inl rfl)) (fun h => by rw [hses] at h; cases h))
    rwa [World.after, World.put_put, nil_append] at second
  rw [if_neg hprobe]
  exact first.single

theorem handleTraffic_steps (ha : mgr.groupAuth = ids.auth p)
    {t : TrafficMsg} (clk : Clock) (hok : Admits ids ok w p (.traffic t)) :
    World.Steps ids ok w (w.after ids p (mgr.handleTraffic (ids.key p.other) t (ids.key p) clk rng)) := by
  have hself : w.put p (Slot.of mgr rng (ids.key p.other)) [] = w := by rw [← hw, World.put_self]
  cases hs : mgr.sessions (ids.key p.other) with
  | none =>
    have step : World.Step ids ok w _ := World.Step.throwaway p clk (by rw [hw]; exact hs)
    simpa [World.after, handleTraffic, hs, hw, Slot.of, Slot.throwaway, ha] using step.single
  | some info =>
    have hs' : (w.slot p).session = some info := by rw [hw]; exact hs
    have hinit : World.Step ids ok w _ := World.Step.announceInit p info clk hs'
    rw [hw] at hinit
    cases hsnap : info.recvSnapshot t with
    | error e =>
      cases e with
      | drop =>
        simp only [World.after, handleTraffic, hs, hsnap, packets_nil, hself]
        exact Relation.ReflTransGen.refl
      | sendInit a b k =>
        obtain ⟨rfl, rfl, rfl⟩ := recvSnapshot_sendInit hsnap
        simpa [World.after, handleTraffic, hs, hsnap, ha, announce]
          using hinit.single
    | ok snap =>
      cases hdec : decryptOutsideLock snap t with
      | error e =>
        cases e with
        | drop =>
          simp only [World.after, handleTraffic, hs, hsnap, hdec, packets_nil, hself]
          exact Relation.ReflTransGen.refl
        | sendInit =>
          simpa [World.after, handleTraffic, hs, hsnap, hdec, ha, announce] using hinit.single
      | ok r =>
        rw [handleTraffic_accept hs hsnap hdec]
        exact afterAccept_steps hw ha clk hok hs' hsnap hdec rfl

/-- So is one of `handle_data`. -/
theorem handleData_steps (ha : mgr.groupAuth = ids.auth p)
    (data : Packet) (clk : Clock) (hok : Admits ids ok w p data) :
    World.Steps ids ok w (w.after ids p (mgr.handleData (ids.key p.other) data (ids.key p) clk rng)) := by
  have hself : w.after ids p ⟨[], mgr, rng⟩ = w := by
    rw [World.after, ← hw, packets_nil, World.put_self]
  cases data with
  | junk =>
    rw [show mgr.handleData (ids.key p.other) .junk (ids.key p) clk rng = ⟨[], mgr, rng⟩ from rfl, hself]
  | init h =>
    simp only [handleData, ha]
    cases hdec : SessionInit.decrypt h (ids.key p) (ids.key p.other) (ids.auth p) with
    | none =>
      rw [hself]
    | some init => exact handleInit_steps hw ha clk hok hdec
  | ack h =>
    simp only [handleData, ha]
    cases hdec : SessionInit.decrypt h (ids.key p) (ids.key p.other) (ids.auth p) with
    | none =>
      rw [hself]
    | some ack => exact handleAck_steps hw ha clk hok hdec
  | traffic t => exact handleTraffic_steps hw ha clk hok

end

theorem filter_eq_self_or_none {α : Type} (keep : α → Bool) (o : Option α) :
    o.filter keep = o ∨ o.filter keep = none := by
  cases o with
  | none => exact .inl rfl
  | some a => cases h : keep a <;> simp [Option.filter, h]

theorem cleanupExpired_steps (hw : w.slot p = Slot.of mgr rng (ids.key p.other)) (now : Instant) :
    World.Steps ids ok w (w.put p (Slot.of (mgr.cleanupExpired now) rng (ids.key p.other)) []) := by
  -- the session first, the buffer second
  have hsession : ∀ keep : SessionInfo → Bool,
      World.Steps ids ok w (w.put p { w.slot p with session := (w.slot p).session.filter keep } []) := by
    intro keep
    rcases filter_eq_self_or_none keep (w.slot p).session with h | h <;> rw [h]
    · rw [World.put_self]
    · exact (World.Step.forgetSession p).single
  have hbuffer : ∀ (s : Slot) (keep : SessionBuffer → Bool),
      World.Steps ids ok (w.put p s []) (w.put p { s with buffer := s.buffer.filter keep } []) := by
    intro s keep
    rcases filter_eq_self_or_none keep s.buffer with h | h <;> rw [h]
    have step : World.Step ids ok (w.put p s []) _ := World.Step.forgetBuffer p
    rw [World.put_put, World.put_slot_self, nil_append] at step
    exact step.single
  have both := (hsession fun info => !info.isExpired mgr.sessionTimeout now).trans
    (hbuffer _ fun buf => decide (elapsed now buf.created < mgr.sessionTimeout))
  rwa [hw] at both

end Refinement

end Yggdrasil.Session
