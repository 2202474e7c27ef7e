import Yggdrasil.Base.Mailbox
import Yggdrasil.Wire.Honest

/-!
# The channels between the tasks of a node

The router task has one bounded channel, and so has the writer of every connection. `RouterHandle::send` and
`Peers::send_to_peer` never wait: if the channel is full, they spawn a task that waits. An `Event` is one step of one
task.

* The router task takes a message when it has sent all frames of the last one. Traffic is left out.
* A connection is registered and greeted before its reader and writer start; `greet` may come before the router has sent
  the frames for it.
* What callers ask of the router is arbitrary, and so is the time at which a reader or writer ends.
-/

namespace Yggdrasil.Channels
open List Option
open FullRouter (Msg)
open Lts (Run Guarded)

inductive Sender where
  | routerTask
  | reader (id : PeerId)
  | writer (id : PeerId)
  | caller
deriving DecidableEq

inductive PeerMessage where
  | sendFrame (data : Bytes)
  | scheduleKeepalive
deriving DecidableEq

structure Sent (α : Type) where
  sender : Sender
  body : α

/-- How far a connection has come: the numbers are those of the messages that are waited for. -/
inductive Stage where
  | adding (n : Nat)
  | greeting (n : Nat)
  | reading
  | leaving
  | gone
deriving DecidableEq

def Stage.started : Stage → Bool
  | adding _ => false
  | greeting _ => false
  | reading => true
  | leaving => true
  | gone => true

structure Conn where
  key : PublicKey
  port : PeerPort
  stage : Stage

/-- The tasks of a node and the channels between them. -/
structure Node where
  peers : Peers
  router : FullRouter
  inbox : Mailbox (Sent Msg)
  frameBatch : List (PeerId × Bytes)
  writers : HashMap PeerId (Mailbox (Sent PeerMessage))
  conns : HashMap PeerId Conn
  peerWriterChannelSize : Nat

inductive Event where
  | handleConn (key : PublicKey) (prio : UInt8)
  | greet (id : PeerId)
  | start (id : PeerId)
  /-- The reader has taken the content of a frame from its connection. -/
  | receive (id : PeerId) (rtt : Duration) (buf : Bytes)
  | scheduleKeepalive (id : PeerId)
  | finish (id : PeerId)
  /-- The writer ends: it tells the router, and its channel is closed. -/
  | hangUp (id : PeerId)
  | closeWriter (id : PeerId)
  /-- The reader or the writer gives up the handle of the connection. -/
  | release (id : PeerId)
  | call (msg : Msg)
  | query (msg : Msg)
  | runSender (n : Nat)
  | runFrameSender (id : PeerId) (n : Nat)
  | handle (clk : Clock) (rand : Nat → UInt64)
  | tick (clk : Clock) (rand : Nat → UInt64) (wallJump : Bool)
  | sendFrame
  | write (id : PeerId)
  | stop

def frames (actions : List RouterAction) : List (PeerId × Bytes) :=
  actions.filterMap fun action =>
    match action with
    | .sendTraffic _ _ => none
    | action => encodeActionFrame action

namespace Node

def new (crypto : Crypto) (config : FullConfig) (now : Instant) (routerChannelSize peerWriterChannelSize : Nat) :
    Node :=
  { peers := Peers.new, router := FullRouter.new crypto config now, inbox := Mailbox.new routerChannelSize
    frameBatch := [], writers := ∅, conns := ∅, peerWriterChannelSize }

variable (self : Node)

def onInbox (op : Mailbox.Op (Sent Msg)) : Node := { self with inbox := self.inbox.exec op }

def onWriter (id : PeerId) (op : Mailbox.Op (Sent PeerMessage)) : Node :=
  { self with writers := self.writers.modify id fun box => box.exec op }

def setStage (id : PeerId) (stage : Stage) : Node :=
  { self with conns := self.conns.modify id fun conn => { conn with stage } }

def getHandle (id : PeerId) : Option PeerEntry :=
  self.peers.handles.values.findSome? fun peers => peers.lookup id

def sendToPeer (id : PeerId) (msg : PeerMessage) : Node :=
  match self.getHandle id with
  | some _ => self.onWriter id (.send ⟨.routerTask, msg⟩)
  | none => self

def started (id : PeerId) : Option Conn := (self.conns.lookup id).filter fun conn => conn.stage.started

/-- `handle_conn` up to the registration. The ids of connections are not used again. -/
def handleConn (validKey : PublicKey → Bool) (self : Node) (key : PublicKey) (prio : UInt8) : Option Node :=
  if key = self.router.crypto.publicKey ∨ !validKey key then some self
  else
    match self.peers.allocatePeer key prio with
    | none => none
    | some (entry, peers) =>
      if (self.writers.lookup entry.id).isSome then none
      else
        some
          { self.onInbox (.post ⟨.caller, .addPeer entry⟩) with
            peers
            writers := self.writers.insert entry.id (Mailbox.new self.peerWriterChannelSize)
            conns := self.conns.insert entry.id
              { key, port := entry.port, stage := .adding self.inbox.issued.length } }

def greet (id : PeerId) : Option Node :=
  match (self.conns.lookup id).map Conn.stage, self.writers.lookup id with
  | some (.adding n), some box =>
    if self.inbox.closed || self.inbox.taken.any fun l => l.number == n then
      some ((self.onWriter id (.post ⟨.caller, .sendFrame (encodeFrame .keepAlive [])⟩)).setStage id
        (.greeting box.issued.length))
    else none
  | _, _ => none

def start (id : PeerId) : Option Node :=
  match (self.conns.lookup id).map Conn.stage, self.writers.lookup id with
  | some (.greeting n), some box =>
    if box.entered.any fun l => l.number == n then some (self.setStage id .reading) else none
  | _, _ => none

def receive (env : Env) (self : Node) (id : PeerId) (rtt : Duration) (buf : Bytes) : Option Node :=
  match self.conns.lookup id with
  | some ⟨key, _, .reading⟩ =>
    match dispatch env { ourKey := self.router.crypto.publicKey, peerId := id, peerKey := key } rtt buf with
    | .ok (some msg) => some (self.onInbox (.send ⟨.reader id, msg⟩))
    | .ok none => some self
    | .error _ => some (self.setStage id .leaving)
  | _ => none

def finish (id : PeerId) : Option Node :=
  match self.conns.lookup id with
  | none => none
  | some conn =>
    if conn.stage = .reading ∨ conn.stage = .leaving then
      let port := (((self.peers.handles.lookup conn.key).bind fun peers => peers.lookup id).map PeerEntry.port).getD 0
      some ((self.onInbox (.send ⟨.reader id, .removePeer id conn.key port⟩)).setStage id .gone)
    else none

def runRouter (env : Env) (self : Node) (call : FullRouter.Call) : Option Node :=
  if self.frameBatch ≠ [] then none
  else (self.router.exec env call).map fun o => { self with router := o.router, frameBatch := frames o.actions }

def exec (env : Env) (validKey : PublicKey → Bool) (self : Node) : Event → Option Node
  | .handleConn key prio => self.handleConn validKey key prio
  | .greet id => self.greet id
  | .start id => self.start id
  | .receive id rtt buf => self.receive env id rtt buf
  | .scheduleKeepalive id => (self.started id).map fun _ => self.onWriter id (.trySend ⟨.reader id, .scheduleKeepalive⟩)
  | .finish id => self.finish id
  | .hangUp id =>
    (self.started id).map fun conn => self.onInbox (.send ⟨.writer id, .removePeer id conn.key conn.port⟩)
  | .closeWriter id => (self.started id).map fun _ => self.onWriter id .close
  | .release id => (self.started id).map fun conn => { self with peers := self.peers.removePeer id conn.key }
  | .call msg => some (self.onInbox (.send ⟨.caller, msg⟩))
  | .query msg => some (self.onInbox (.post ⟨.caller, msg⟩))
  | .runSender n => some (self.onInbox (.poll n))
  | .runFrameSender id n => some (self.onWriter id (.poll n))
  | .handle clk rand =>
    match self.inbox.closed, self.inbox.queue with
    | false, l :: _ => (self.runRouter env { clk, rand, msg := l.body.body }).map fun self => self.onInbox .recv
    | _, _ => none
  | .tick clk rand wallJump => self.runRouter env { clk, rand, msg := .maintenance wallJump }
  | .sendFrame =>
    match self.frameBatch with
    | [] => none
    | (id, frame) :: frameBatch => some (sendToPeer { self with frameBatch } id (.sendFrame frame))
  | .write id => (self.started id).map fun _ => self.onWriter id .recv
  | .stop => some (self.onInbox .close)

def Step (env : Env) (validKey : PublicKey → Bool) (n : Node) (e : Event) (n' : Node) : Prop :=
  n.exec env validKey e = some n'

def contents {α : Type} (sender : Sender) (ls : List (Letter (Sent α))) : List α :=
  (ls.filter fun l => decide (l.body.sender = sender)).map fun l => l.body.body

/-- The frames for a connection have entered its channel in the order in which they were sent. -/
def FramesInOrder (id : PeerId) : Prop :=
  ∀ box, self.writers.lookup id = some box → contents .routerTask box.entered <+: contents .routerTask box.issued

def MessagesInOrder (id : PeerId) : Prop :=
  contents (.reader id) self.inbox.taken <+: contents (.reader id) self.inbox.issued

/-! ## What a step does to the channels -/

def ofReader (id : PeerId) : Event → Prop
  | .receive id' _ _ => id' = id
  | .finish id' => id' = id
  | _ => False

def MessageFits (id : PeerId) (n : Node) (e : Event) : Prop :=
  ofReader id e → n.inbox.closed = true ∨ n.inbox.hasRoom = true

def FrameFits (id : PeerId) (n : Node) (e : Event) : Prop :=
  e = .sendFrame → ∀ frame frameBatch, n.frameBatch = (id, frame) :: frameBatch →
    ∀ box, n.writers.lookup id = some box → box.closed = true ∨ box.hasRoom = true

def isFrom {α : Type} (sender : Sender) (x : Sent α) : Bool := decide (x.sender = sender)

structure Moves (n : Node) (e : Event) (n' : Node) : Prop where
  inbox : n'.inbox = n.inbox ∨
    ∃ op, n'.inbox = n.inbox.exec op ∧ ∀ id, MessageFits id n e → op.Fits (isFrom (.reader id)) n.inbox
  writers : ∀ id box, n'.writers.lookup id = some box → (∃ capacity, box = Mailbox.new capacity) ∨
    ∃ old, n.writers.lookup id = some old ∧
      (box = old ∨ ∃ op, box = old.exec op ∧ (FrameFits id n e → op.Fits (isFrom .routerTask) old))

variable {env : Env} {validKey : PublicKey → Bool} {n n' : Node} {e : Event}

theorem moves_same (hinbox : n'.inbox = n.inbox) (hwriters : n'.writers = n.writers) : Moves n e n' where
  inbox := .inl hinbox
  writers id box hbox := .inr ⟨box, by rw [← hwriters, hbox], .inl rfl⟩

theorem moves_inbox (op : Mailbox.Op (Sent Msg)) (hinbox : n'.inbox = n.inbox.exec op)
    (hwriters : n'.writers = n.writers) (hop : ∀ id, MessageFits id n e → op.Fits (isFrom (.reader id)) n.inbox) :
    Moves n e n' where
  inbox := .inr ⟨op, hinbox, hop⟩
  writers id box hbox := .inr ⟨box, by rw [← hwriters, hbox], .inl rfl⟩

theorem moves_writer {id : PeerId} (op : Mailbox.Op (Sent PeerMessage)) (hinbox : n'.inbox = n.inbox)
    (hwriters : n'.writers = n.writers.modify id fun box => box.exec op)
    (hop : ∀ box, n.writers.lookup id = some box → FrameFits id n e → op.Fits (isFrom .routerTask) box) :
    Moves n e n' where
  inbox := .inl hinbox
  writers id' box hbox := by
    rw [hwriters, HashMap.lookup_modify] at hbox
    obtain ⟨old, hold, rfl⟩ := map_eq_some_iff.mp hbox
    refine .inr ⟨old, hold, ?_⟩
    split
    next hid =>
      subst hid
      exact .inr ⟨op, rfl, hop old hold⟩
    · exact .inl rfl

theorem fits_of_ne {α : Type} {m : Mailbox (Sent α)} {sender sender' : Sender} {x : α} (h : sender ≠ sender') :
    (Mailbox.Op.send ⟨sender, x⟩).Fits (isFrom sender') m :=
  fun hfrom => absurd (of_decide_eq_true hfrom) h

theorem fits_post {α : Type} {m : Mailbox (Sent α)} {sender sender' : Sender} {x : α} (h : sender ≠ sender') :
    (Mailbox.Op.post ⟨sender, x⟩).Fits (isFrom sender') m := decide_eq_false h

theorem fits_reader {id : PeerId} {msg : Msg} (he : ofReader id e) (id' : PeerId) (h : MessageFits id' n e) :
    (Mailbox.Op.send ⟨.reader id, msg⟩).Fits (isFrom (.reader id')) n.inbox := by
  intro hfrom
  have hid : Sender.reader id = Sender.reader id' := of_decide_eq_true hfrom
  injection hid with hid
  subst hid
  exact h he

theorem handleConn_moves {key : PublicKey} {prio : UInt8} (h : n.handleConn validKey key prio = some n') :
    Moves n e n' := by
  unfold handleConn at h
  split at h
  · cases h
    exact moves_same rfl rfl
  split at h
  · cases h
  next entry peers _ =>
    split at h
    · cases h
    cases h
    refine ⟨.inr ⟨_, rfl, fun id _ => fits_post nofun⟩, fun id box hbox => ?_⟩
    have hbox' : (n.writers.insert entry.id (Mailbox.new n.peerWriterChannelSize)).lookup id = some box := hbox
    rw [HashMap.lookup_insert] at hbox'
    split at hbox'
    · exact .inl ⟨_, (some.inj hbox').symm⟩
    · exact .inr ⟨box, hbox', .inl rfl⟩

theorem greet_moves {id : PeerId} (h : n.greet id = some n') : Moves n e n' := by
  unfold greet at h
  split at h
  · split at h
    · cases h
      exact moves_writer _ rfl rfl fun _ _ _ => fits_post nofun
    · cases h
  · cases h

theorem start_moves {id : PeerId} (h : n.start id = some n') : Moves n e n' := by
  unfold start at h
  split at h
  · split at h
    · cases h
      exact moves_same rfl rfl
    · cases h
  · cases h

theorem receive_moves {id : PeerId} {rtt : Duration} {buf : Bytes} (h : n.receive env id rtt buf = some n')
    (he : ofReader id e) : Moves n e n' := by
  unfold receive at h
  split at h
  · split at h
    · cases h
      exact moves_inbox _ rfl rfl (fits_reader he)
    · cases h
      exact moves_same rfl rfl
    cases h
    exact moves_same rfl rfl
  · cases h

theorem finish_moves {id : PeerId} (h : n.finish id = some n') (he : ofReader id e) : Moves n e n' := by
  unfold finish at h
  split at h
  · cases h
  split at h
  · cases h
    exact moves_inbox _ rfl rfl (fits_reader he)
  · cases h

theorem runRouter_frame {call : FullRouter.Call} (h : n.runRouter env call = some n') :
    n'.inbox = n.inbox ∧ n'.writers = n.writers := by
  unfold runRouter at h
  split at h
  · cases h
  obtain ⟨o, -, rfl⟩ := map_eq_some_iff.mp h
  exact ⟨rfl, rfl⟩

theorem sendFrame_moves (h : n.exec env validKey .sendFrame = some n') : Moves n .sendFrame n' := by
  unfold exec at h
  dsimp only at h
  split at h
  · cases h
  next id frame frameBatch hbatch =>
    cases h
    unfold sendToPeer
    split
    · refine moves_writer _ rfl rfl fun box hbox hfits => ?_
      exact fun _ => hfits rfl frame frameBatch hbatch box hbox
    · exact moves_same rfl rfl

theorem Step.moves (h : Step env validKey n e n') : Moves n e n' := by
  unfold Step at h
  cases e with
  | handleConn key prio => exact handleConn_moves h
  | greet id => exact greet_moves h
  | start id => exact start_moves h
  | receive id rtt buf => exact receive_moves h rfl
  | scheduleKeepalive id | closeWriter id | write id =>
    obtain ⟨conn, -, rfl⟩ := map_eq_some_iff.mp h
    exact moves_writer _ rfl rfl fun _ _ _ => trivial
  | finish id => exact finish_moves h rfl
  | hangUp id =>
    obtain ⟨conn, -, rfl⟩ := map_eq_some_iff.mp h
    exact moves_inbox _ rfl rfl fun _ _ => fits_of_ne nofun
  | release id =>
    obtain ⟨conn, -, rfl⟩ := map_eq_some_iff.mp h
    exact moves_same rfl rfl
  | call msg =>
    cases h
    exact moves_inbox _ rfl rfl fun _ _ => fits_of_ne nofun
  | query msg =>
    cases h
    exact moves_inbox _ rfl rfl fun _ _ => fits_post nofun
  | runSender k =>
    cases h
    exact moves_inbox (.poll k) rfl rfl fun _ _ => trivial
  | runFrameSender id k =>
    cases h
    exact moves_writer (.poll k) rfl rfl fun _ _ _ => trivial
  | handle clk rand =>
    unfold exec at h
    dsimp only at h
    split at h
    · obtain ⟨n₁, hn₁, rfl⟩ := map_eq_some_iff.mp h
      obtain ⟨hinbox, hwriters⟩ := runRouter_frame hn₁
      exact moves_inbox .recv (by rw [← hinbox]; rfl) hwriters fun _ _ => trivial
    · cases h
  | tick clk rand wallJump =>
    obtain ⟨hinbox, hwriters⟩ := runRouter_frame h
    exact moves_same hinbox hwriters
  | sendFrame => exact sendFrame_moves h
  | stop =>
    cases h
    exact moves_inbox .close rfl rfl fun _ _ => trivial

/-! ## Runs -/

section Runs
variable {crypto : Crypto} {config : FullConfig} {now : Instant} {routerChannelSize peerWriterChannelSize : Nat}
  {events : List Event}

theorem Moves.writers_induct {P : PeerId → Mailbox (Sent PeerMessage) → Prop} (hmoves : Moves n e n')
    (h : ∀ id box, n.writers.lookup id = some box → P id box) (hnew : ∀ id capacity, P id (Mailbox.new capacity))
    (hop : ∀ id box op, P id box → (FrameFits id n e → op.Fits (isFrom .routerTask) box) → P id (box.exec op)) :
    ∀ id box, n'.writers.lookup id = some box → P id box := by
  intro id box hbox
  rcases hmoves.writers id box hbox with ⟨capacity, rfl⟩ | ⟨old, hold, rfl | ⟨op, rfl, hfits⟩⟩
  · exact hnew id capacity
  · exact h id _ hold
  · exact hop id old op (h id old hold) hfits

theorem inbox_sound
    (h : Run (Step env validKey) (new crypto config now routerChannelSize peerWriterChannelSize) events n) :
    n.inbox.Sound := by
  refine h.invariant (I := fun n => n.inbox.Sound) (Mailbox.sound_new _) fun n e n' hn hstep => ?_
  rcases hstep.moves.inbox with heq | ⟨op, heq, -⟩
  · rw [heq]
    exact hn
  rw [heq]
  exact hn.exec op

theorem writers_sound
    (h : Run (Step env validKey) (new crypto config now routerChannelSize peerWriterChannelSize) events n) :
    ∀ id box, n.writers.lookup id = some box → box.Sound := by
  refine h.invariant (I := fun n => ∀ id box, n.writers.lookup id = some box → box.Sound) (fun id box hbox => ?_)
    fun n e n' hn hstep => ?_
  · cases hbox
  · exact hstep.moves.writers_induct hn (fun _ _ => Mailbox.sound_new _) fun _ _ op hbox _ => hbox.exec op

theorem contents_prefix {α : Type} {sender : Sender} {ls ls' : List (Letter (Sent α))}
    (h : ls.filter (fun l => isFrom sender l.body) <+: ls'.filter fun l => isFrom sender l.body) :
    contents sender ls <+: contents sender ls' := h.map _

theorem messages_in_order (id : PeerId) (h : Run (Guarded (Step env validKey) (MessageFits id))
    (new crypto config now routerChannelSize peerWriterChannelSize) events n) : n.MessagesInOrder id := by
  have hsound := inbox_sound (h.mono fun _ _ _ hstep => hstep.1)
  have hdirect : ∀ l ∈ n.inbox.issued, isFrom (.reader id) l.body = true → l.deferred = false := by
    refine h.invariant (I := fun n => ∀ l ∈ n.inbox.issued, isFrom (.reader id) l.body = true → l.deferred = false)
      (fun l hl => absurd hl not_mem_nil) fun n e n' hn hstep => ?_
    rcases hstep.1.moves.inbox with heq | ⟨op, heq, hfits⟩
    · rw [heq]
      exact hn
    rw [heq]
    exact Mailbox.direct_exec hn (hfits id hstep.2)
  exact contents_prefix ((hsound.ordered.received.filter _).trans (hsound.unhindered hdirect))

theorem frames_in_order (id : PeerId) (h : Run (Guarded (Step env validKey) (FrameFits id))
    (new crypto config now routerChannelSize peerWriterChannelSize) events n) : n.FramesInOrder id := by
  intro box hbox
  have hsound := writers_sound (h.mono fun _ _ _ hstep => hstep.1) id box hbox
  have hdirect : ∀ id' box, n.writers.lookup id' = some box → id' = id →
      ∀ l ∈ box.issued, isFrom .routerTask l.body = true → l.deferred = false := by
    refine h.invariant (I := fun n => ∀ id' box, n.writers.lookup id' = some box → id' = id →
      ∀ l ∈ box.issued, isFrom .routerTask l.body = true → l.deferred = false) (fun id' box hbox => ?_)
      fun n e n' hn hstep => ?_
    · cases hbox
    refine hstep.1.moves.writers_induct hn (fun _ _ _ l hl => absurd hl not_mem_nil) ?_
    intro id' box op hbox hfits hid
    subst hid
    exact Mailbox.direct_exec (hbox rfl) (hfits hstep.2)
  exact contents_prefix (hsound.unhindered (hdirect id box hbox rfl))

end Runs

structure ChannelOrder (env : Env) (validKey : PublicKey → Bool) (start : Node) (events : List Event) (n : Node) :
    Prop where
  inbox : n.inbox.Ordered
  writers : ∀ id box, n.writers.lookup id = some box → box.Ordered
  messages : ∀ id, Run (Guarded (Step env validKey) (MessageFits id)) start events n → n.MessagesInOrder id
  frames : ∀ id, Run (Guarded (Step env validKey) (FrameFits id)) start events n → n.FramesInOrder id

/-- Channels hand messages on in the order in which they entered; those of a reader and for a connection enter in the
order in which they were sent, if each finds room. -/
theorem channel_order {crypto : Crypto} {config : FullConfig} {now : Instant}
    {routerChannelSize peerWriterChannelSize : Nat} {events : List Event}
    (h : Run (Step env validKey) (new crypto config now routerChannelSize peerWriterChannelSize) events n) :
    ChannelOrder env validKey (new crypto config now routerChannelSize peerWriterChannelSize) events n where
  inbox := (inbox_sound h).ordered
  writers id box hbox := (writers_sound h id box hbox).ordered
  messages id := messages_in_order id
  frames id := frames_in_order id

/-! ## A reader and a writer that fall behind -/

def busyNode : Node := new ⟨9, fun _ => 0⟩ ⟨⟨0, 0, none⟩, 0, 0⟩ 0 1 3

def busyEnv : Env := ⟨fun _ _ _ => true, fun _ => 0⟩

def handleNext : Event := .handle ⟨0, 0⟩ fun _ => 0

def request (nonce : UInt8) : Event := .receive 1 0 [2, 1, nonce]

def answer (nonce : UInt64) : PeerMessage :=
  .sendFrame (encodeFrame .protoSigRes (SigRes.encode { seq := 1, nonce, port := 1, psig := 0 }))

def connected : List Event :=
  [.handleConn 7 0, .runSender 0, handleNext, .sendFrame, .sendFrame, .greet 1, .runFrameSender 1 2, .start 1]

def overloaded : List Event :=
  connected ++ [request 1, request 2, handleNext, .sendFrame, request 3, .write 1, handleNext, .sendFrame, .runSender 2,
    handleNext]

def runBusy (events : List Event) : Option Node := events.foldlM (exec busyEnv fun _ => true) busyNode

/-- The inbox takes a message of a reader at once. -/
def fits (n : Node) : Event → Bool
  | .receive _ _ _ | .finish _ => n.inbox.closed || n.inbox.hasRoom
  | _ => true

theorem messageFits_of_fits (h : n.fits e = true) (id : PeerId) : MessageFits id n e := by
  cases e <;> simp_all [MessageFits, ofReader, fits]

def twoRequests : List Event := connected ++ [request 1, handleNext, .sendFrame, request 2, handleNext]

/-- Two requests of a reader that the router has handled. -/
theorem channel_order_requests :
    ∃ n, Run (Guarded (Step busyEnv fun _ => true) (MessageFits 1)) busyNode twoRequests n ∧
    ChannelOrder busyEnv (fun _ => true) busyNode twoRequests n ∧ n.MessagesInOrder 1 ∧
    contents (.reader 1) n.inbox.taken = [.handleRequest 1 7 ⟨1, 1⟩, .handleRequest 1 7 ⟨1, 2⟩] := by
  let exec (n : Node) (e : Event) : Option Node := if n.fits e then n.exec busyEnv (fun _ => true) e else none
  obtain ⟨n, hn⟩ := isSome_iff_exists.mp (show (twoRequests.foldlM exec busyNode).isSome = true from rfl)
  have hrun : Run (Guarded (Step busyEnv fun _ => true) (MessageFits 1)) busyNode twoRequests n := by
    refine (Lts.run_of_foldlM hn).mono fun n e n' hstep => ?_
    obtain ⟨hfits, hexec⟩ := ite_none_right_eq_some.mp hstep
    exact ⟨hexec, messageFits_of_fits hfits 1⟩
  have horder := channel_order (hrun.mono fun _ _ _ hstep => hstep.1)
  exact ⟨n, hrun, horder, horder.messages 1 hrun, Lts.read_eq (fun n => contents (.reader 1) n.inbox.taken) hn rfl⟩

theorem order_lost : (¬ ∀ env validKey crypto config now routerChannelSize peerWriterChannelSize events n,
      Run (Step env validKey) (new crypto config now routerChannelSize peerWriterChannelSize) events n →
        ∀ id, n.FramesInOrder id) ∧
    ¬ ∀ env validKey crypto config now routerChannelSize peerWriterChannelSize events n,
      Run (Step env validKey) (new crypto config now routerChannelSize peerWriterChannelSize) events n →
        ∀ id, n.MessagesInOrder id := by
  obtain ⟨n, hn⟩ := isSome_iff_exists.mp (show (runBusy overloaded).isSome = true from rfl)
  have hrun := Lts.run_of_foldlM hn
  constructor
  · intro hclaim
    obtain ⟨box, hbox⟩ := isSome_iff_exists.mp (Lts.read_eq (fun n => (n.writers.lookup 1).isSome) hn rfl)
    have hlater := (hclaim busyEnv _ _ _ _ _ _ _ n hrun 1 box hbox).drop 2
    have hentered : (contents .routerTask box.entered).drop 2 = [answer 3] :=
      Lts.read_eq (fun box => (contents .routerTask box.entered).drop 2) hbox (Lts.read_eq (fun n =>
        (n.writers.lookup 1).map fun box => (contents .routerTask box.entered).drop 2) hn rfl)
    have hissued : (contents .routerTask box.issued).drop 2 = [answer 1, answer 3] :=
      Lts.read_eq (fun box => (contents .routerTask box.issued).drop 2) hbox (Lts.read_eq (fun n =>
        (n.writers.lookup 1).map fun box => (contents .routerTask box.issued).drop 2) hn rfl)
    rw [hentered, hissued, cons_prefix_cons] at hlater
    exact absurd hlater.1 (by decide +kernel)
  intro hclaim
  have hprefix := hclaim busyEnv _ _ _ _ _ _ _ n hrun 1
  unfold MessagesInOrder at hprefix
  have htaken : contents (.reader 1) n.inbox.taken =
      [.handleRequest 1 7 ⟨1, 1⟩, .handleRequest 1 7 ⟨1, 3⟩, .handleRequest 1 7 ⟨1, 2⟩] :=
    Lts.read_eq (fun n => contents (.reader 1) n.inbox.taken) hn rfl
  have hissued : contents (.reader 1) n.inbox.issued =
      [.handleRequest 1 7 ⟨1, 1⟩, .handleRequest 1 7 ⟨1, 2⟩, .handleRequest 1 7 ⟨1, 3⟩] :=
    Lts.read_eq (fun n => contents (.reader 1) n.inbox.issued) hn rfl
  rw [htaken, hissued] at hprefix
  simp at hprefix

end Node

end Yggdrasil.Channels
