import Mathlib.Logic.Function.Basic
import Yggdrasil.Session.Info

/-!
# `ConcurrentSessionManager`

`handleData`, `writeTo` and `cleanupExpired` of `encrypted/session.rs`, each as one transition. The reader loop is the
only caller of `handleData`, and the unlocked phase works on a snapshot alone, so a call is its critical sections in
sequence. The re-check under the map's write lock in `handleInit` and `handleAck` repeats the branch of an existing
session.
-/

namespace Yggdrasil.Session
open SessionInfo (decryptOutsideLock)

inductive Packet where
  | junk
  | init (h : SealedInit)
  | ack (h : SealedInit)
  | traffic (t : TrafficMsg)
deriving DecidableEq

/-- Data waiting for a session, with the private halves of the keys that its init announces. -/
structure SessionBuffer where
  data : Option Bytes
  init : SessionInit
  currentKeys : BoxKeys
  nextKeys : BoxKeys
  created : Instant
  current_eq : init.current = currentKeys.pub
  next_eq : init.next = nextKeys.pub
deriving DecidableEq

inductive OutAction where
  | sendToInner (dest : PublicKey) (data : Packet)
  | deliver (source : PublicKey) (data : Bytes)
deriving DecidableEq

structure ConcurrentSessionManager where
  sessions : PublicKey → Option SessionInfo
  buffers : PublicKey → Option SessionBuffer
  groupAuth : GroupAuth
  sessionTimeout : Duration

structure Outcome where
  actions : List OutAction
  mgr : ConcurrentSessionManager
  rng : Rng

namespace ConcurrentSessionManager

def new (groupAuth : GroupAuth) (sessionTimeout : Duration) : ConcurrentSessionManager :=
  { sessions := fun _ => none, buffers := fun _ => none, groupAuth, sessionTimeout }

variable (self : ConcurrentSessionManager)

def insertSession (key : PublicKey) (info : SessionInfo) :
    ConcurrentSessionManager :=
  { self with sessions := Function.update self.sessions key (some info) }

def bufferAndInit (dest : PublicKey) (msg : Bytes) (ourKey : PublicKey)
    (clk : Clock) (rng : Rng) : Outcome :=
  let entry : SessionBuffer × Rng :=
    match self.buffers dest with
    | some buf => (buf, rng)
    | none =>
      let current := newBoxKeys rng
      let next := newBoxKeys current.2
      ({ data := none
         init := SessionInit.new current.1.pub next.1.pub 0 clk
         currentKeys := current.1
         nextKeys := next.1
         created := clk.now
         current_eq := rfl
         next_eq := rfl }, next.2)
  let buf := { entry.1 with data := some msg }
  { actions := [.sendToInner dest (.init (buf.init.encrypt ourKey dest self.groupAuth))]
    mgr := { self with buffers := Function.update self.buffers dest (some buf) }
    rng := entry.2 }

def writeTo (dest : PublicKey) (msg : Bytes) (ourKey : PublicKey) (clk : Clock)
    (rng : Rng) : Outcome :=
  match self.sessions dest with
  | some info =>
    let sent := info.doSend msg clk.now rng
    { actions := [.sendToInner dest (.traffic sent.1)]
      mgr := self.insertSession dest sent.2.1
      rng := sent.2.2 }
  | none => self.bufferAndInit dest msg ourKey clk rng

/-- What is done with an accepted payload: keepalives are swallowed or answered, the rest is delivered. -/
def afterAccept (fromKey : PublicKey) (payload : Bytes) (info : SessionInfo)
    (ourKey : PublicKey) (clk : Clock) (rng : Rng) : Outcome :=
  let self := self.insertSession fromKey info
  if payload = [] ∨ payload = KEEPALIVE_ACK then { actions := [], mgr := self, rng }
  else if payload = KEEPALIVE_PROBE then self.writeTo fromKey KEEPALIVE_ACK ourKey clk rng
  else { actions := [.deliver fromKey payload], mgr := self, rng }

def handleTraffic (fromKey : PublicKey) (data : TrafficMsg) (ourKey : PublicKey)
    (clk : Clock) (rng : Rng) : Outcome :=
  match self.sessions fromKey with
  | none =>
    -- no session: a throwaway Init
    let current := newBoxKeys rng
    let next := newBoxKeys current.2
    let init := SessionInit.new current.1.pub next.1.pub 0 clk
    { actions := [.sendToInner fromKey (.init (init.encrypt ourKey fromKey self.groupAuth))]
      mgr := self
      rng := next.2 }
  | some info =>
    match info.recvSnapshot data with
    | .error (.sendInit sendPub nextPub localKeySeq) =>
      let init := SessionInit.new sendPub nextPub localKeySeq clk
      { actions := [.sendToInner fromKey (.init (init.encrypt ourKey fromKey self.groupAuth))], mgr := self, rng }
    | .error .drop => { actions := [], mgr := self, rng }
    | .ok snap =>
      match decryptOutsideLock snap data with
      | .error .sendInit =>
        let init := SessionInit.new info.sendKeys.pub info.nextKeys.pub info.localKeySeq clk
        { actions := [.sendToInner fromKey (.init (init.encrypt ourKey fromKey self.groupAuth))], mgr := self, rng }
      | .error .drop => { actions := [], mgr := self, rng }
      | .ok (payload, innerKey) =>
        let final := info.recvFinalize snap innerKey payload.length.toUInt64 clk.now rng
        self.afterAccept fromKey payload final.1 ourKey clk final.2

theorem handleTraffic_accept {self : ConcurrentSessionManager} {fromKey : PublicKey} {data : TrafficMsg}
    {info : SessionInfo} {snap : SessionInfo.RecvSnapshot} {payload : Bytes} {innerKey : CurvePublicKey}
    (hs : self.sessions fromKey = some info) (hsnap : info.recvSnapshot data = .ok snap)
    (hdec : decryptOutsideLock snap data = .ok (payload, innerKey)) (ourKey : PublicKey) (clk : Clock) (rng : Rng) :
    self.handleTraffic fromKey data ourKey clk rng =
      self.afterAccept fromKey payload
        (info.recvFinalize snap innerKey payload.length.toUInt64 clk.now rng).1 ourKey clk
        (info.recvFinalize snap innerKey payload.length.toUInt64 clk.now rng).2 := by
  simp only [handleTraffic, hs, hsnap, hdec]

def createSessionFromInit (ed : PublicKey) (init : SessionInit) (now : Instant)
    (rng : Rng) : Option Bytes × SessionInfo × ConcurrentSessionManager × Rng :=
  let created := SessionInfo.new init.current init.next init.seq now rng
  match self.buffers ed with
  | some buf =>
    let info := { created.1 with sendKeys := buf.currentKeys, nextKeys := buf.nextKeys }
    (buf.data, info.fixShared 0 0, { self with buffers := Function.update self.buffers ed none }, created.2)
  | none => (none, created.1, self, created.2)

def sendBuffered (info : SessionInfo) (dest : PublicKey) (buffered : Option Bytes) (now : Instant) (rng : Rng) :
    List OutAction × SessionInfo × Rng :=
  match buffered with
  | some bufData =>
    let sent := info.doSend bufData now rng
    ([.sendToInner dest (.traffic sent.1)], sent.2.1, sent.2.2)
  | none => ([], info, rng)

def handleInit (fromKey : PublicKey) (init : SessionInit) (ourKey : PublicKey)
    (clk : Clock) (rng : Rng) : Outcome :=
  match self.sessions fromKey with
  | some info =>
    if init.seq ≤ info.seq then { actions := [], mgr := self, rng } -- stale
    else
      let updated := info.handleUpdate init clk.now rng
      let info := updated.1
      let ackInit := SessionInit.new info.sendKeys.pub info.nextKeys.pub info.localKeySeq clk
      { actions := [.sendToInner fromKey (.ack (ackInit.encrypt ourKey fromKey self.groupAuth))]
        mgr := self.insertSession fromKey info
        rng := updated.2 }
  | none =>
    let (bufferedData, info, self, rng) := self.createSessionFromInit fromKey init clk.now rng
    let ackInit := SessionInit.new info.sendKeys.pub info.nextKeys.pub info.localKeySeq clk
    let sent := sendBuffered info fromKey bufferedData clk.now rng
    { actions := sent.1 ++ [.sendToInner fromKey (.ack (ackInit.encrypt ourKey fromKey self.groupAuth))]
      mgr := self.insertSession fromKey sent.2.1
      rng := sent.2.2 }

/-- An ack that finds no session is treated as an init: it creates the session, updates the keys and is answered. -/
def handleAck (fromKey : PublicKey) (ack : SessionInit) (ourKey : PublicKey)
    (clk : Clock) (rng : Rng) : Outcome :=
  match self.sessions fromKey with
  | some info =>
    if ack.seq > info.seq then
      let updated := info.handleUpdate ack clk.now rng
      { actions := [], mgr := self.insertSession fromKey updated.1, rng := updated.2 }
    else { actions := [], mgr := self, rng }
  | none =>
    let (bufferedData, info, self, rng) := self.createSessionFromInit fromKey ack clk.now rng
    let updated := if ack.seq > info.seq then info.handleUpdate ack clk.now rng else (info, rng)
    let info := updated.1
    let ackInit := SessionInit.new info.sendKeys.pub info.nextKeys.pub info.localKeySeq clk
    let sent := sendBuffered info fromKey bufferedData clk.now updated.2
    { actions := .sendToInner fromKey (.ack (ackInit.encrypt ourKey fromKey self.groupAuth)) :: sent.1
      mgr := self.insertSession fromKey sent.2.1
      rng := sent.2.2 }

def handleData (fromKey : PublicKey) (data : Packet) (ourKey : PublicKey)
    (clk : Clock) (rng : Rng) : Outcome :=
  match data with
  | .junk => { actions := [], mgr := self, rng }
  | .init h =>
    match SessionInit.decrypt h ourKey fromKey self.groupAuth with
    | some init => self.handleInit fromKey init ourKey clk rng
    | none => { actions := [], mgr := self, rng }
  | .ack h =>
    match SessionInit.decrypt h ourKey fromKey self.groupAuth with
    | some ack => self.handleAck fromKey ack ourKey clk rng
    | none => { actions := [], mgr := self, rng }
  | .traffic t => self.handleTraffic fromKey t ourKey clk rng

def cleanupExpired (now : Instant) : ConcurrentSessionManager :=
  { self with
    sessions := fun key => (self.sessions key).filter fun info => !info.isExpired self.sessionTimeout now
    buffers := fun key => (self.buffers key).filter fun buf => decide (elapsed now buf.created < self.sessionTimeout) }

end ConcurrentSessionManager

end Yggdrasil.Session
