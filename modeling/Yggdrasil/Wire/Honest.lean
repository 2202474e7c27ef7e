import Yggdrasil.Router.Exchange
import Yggdrasil.Wire.Checked

/-!
# Honest peers accept each other's frames

A node as a whole: `Peers` gives every connection an id and a port, the readers of the connections put what they have
checked into the inbox of the router task, and the task handles one message after the other.
-/

namespace Yggdrasil
open List Option HashMap UInt64
open FullRouter (Msg Call Record Watched Checked Credible)
open Router (PathMsg)

/-! ## Peers -/

structure Peers where
  nextId : PeerId
  usedPorts : HashMap PeerPort PublicKey
  handles : HashMap PublicKey (HashMap PeerId PeerEntry)
  order : UInt64

/-- No collection takes more than `isize::MAX` bytes; an insertion beyond that panics. -/
def MAX_CAPACITY : Nat := 2 ^ 63 - 1

namespace Peers

def new : Peers := { nextId := 1, usedPorts := ∅, handles := ∅, order := 0 }

def allocPortLoop (usedPorts : HashMap PeerPort PublicKey) : Nat → PeerPort → PeerPort
  | 0, p => p
  | fuel + 1, p =>
    match usedPorts.lookup p with
    | some _ => allocPortLoop usedPorts fuel (p + 1)
    | none => p

def allocPort (self : Peers) : PeerPort := allocPortLoop self.usedPorts self.usedPorts.keys.length 1

/-- Allocate a new peer. The port of a key with a connection is used again. -/
def allocatePeer (self : Peers) (key : PublicKey) (prio : UInt8) : Option (PeerEntry × Peers) :=
  let existing := (self.handles.lookup key).bind fun peers => peers.values.head?
  if existing.isNone ∧ self.usedPorts.keys.length ≥ MAX_CAPACITY then none
  else
    let port := match existing with
      | some h => h.port
      | none => self.allocPort
    let entry : PeerEntry := { id := self.nextId, key, port, prio, order := self.order }
    some (entry,
      { nextId := self.nextId + 1
        usedPorts := if (self.handles.lookup key).isNone then self.usedPorts.insert port key else self.usedPorts
        handles := self.handles.insert key (((self.handles.lookup key).getD ∅).insert entry.id entry)
        order := self.order + 1 })

def removePeer (self : Peers) (id : PeerId) (key : PublicKey) : Peers :=
  match self.handles.lookup key with
  | none => self
  | some peers =>
    let left := peers.remove id
    if left.keys.isEmpty then
      { self with
        handles := self.handles.remove key
        usedPorts := match peers.lookup id with
          | some h => self.usedPorts.remove h.port
          | none => self.usedPorts }
    else { self with handles := self.handles.modify key fun _ => left }

theorem allocPortLoop_spec (usedPorts : HashMap PeerPort PublicKey) (fuel : Nat) : ∀ i : Nat,
    i + fuel = usedPorts.keys.length → usedPorts.keys.length ≤ MAX_CAPACITY →
    (∀ j < i, UInt64.ofNat (j + 1) ∈ usedPorts.keys) →
    ∃ n, n ≤ usedPorts.keys.length ∧ allocPortLoop usedPorts fuel (UInt64.ofNat (i + 1)) = UInt64.ofNat (n + 1) ∧
      UInt64.ofNat (n + 1) ∉ usedPorts.keys ∧ ∀ j < n, UInt64.ofNat (j + 1) ∈ usedPorts.keys := by
  induction fuel with
  | zero =>
    intro i hi hcap hused
    refine ⟨i, by omega, rfl, fun hmem => ?_, hused⟩
    -- the ports in use would be one more than there are
    have hports : ((List.range (i + 1)).map fun j => ofNat (j + 1)) ⊆ usedPorts.keys := by
      intro p hp
      obtain ⟨j, hj, rfl⟩ := mem_map.mp hp
      rcases Nat.lt_succ_iff_lt_or_eq.mp (mem_range.mp hj) with hj | rfl
      · exact hused j hj
      · exact hmem
    have hnodup : ((List.range (i + 1)).map fun j => ofNat (j + 1)).Nodup := by
      refine List.Nodup.map_on (fun j hj j' hj' heq => ?_) nodup_range
      have hnat := congrArg toNat heq
      rw [mem_range] at hj hj'
      simp only [MAX_CAPACITY] at hcap
      rw [toNat_ofNat', toNat_ofNat', Nat.mod_eq_of_lt (by omega), Nat.mod_eq_of_lt (by omega)] at hnat
      omega
    have hlen := (subperm_of_subset hnodup hports).length_le
    rw [length_map, length_range] at hlen
    omega
  | succ fuel ih =>
    intro i hi hcap hused
    rw [allocPortLoop]
    split
    next key hkey =>
      have hnext : ofNat (i + 1) + 1 = ofNat (i + 1 + 1) := by
        rw [ofNat_add (i + 1) 1]
        rfl
      rw [hnext]
      refine ih (i + 1) (by omega) hcap fun j hj => ?_
      rcases Nat.lt_succ_iff_lt_or_eq.mp hj with hj | rfl
      · exact hused j hj
      · exact mem_keys_iff.mpr ⟨key, hkey⟩
    next hfree =>
      refine ⟨i, by omega, rfl, fun hmem => ?_, hused⟩
      obtain ⟨key, hkey⟩ := mem_keys_iff.mp hmem
      rw [hfree] at hkey
      cases hkey

/-- The scan ends at the lowest free port. -/
theorem allocPort_spec {self : Peers} (h : self.usedPorts.keys.length ≤ MAX_CAPACITY) :
    self.allocPort ≠ 0 ∧ self.allocPort ∉ self.usedPorts.keys ∧
      ∀ p, p ≠ 0 → p < self.allocPort → p ∈ self.usedPorts.keys := by
  obtain ⟨n, hn, heq, hfree, hused⟩ := allocPortLoop_spec self.usedPorts _ 0 (Nat.zero_add _) h (by simp)
  have hport : self.allocPort = ofNat (n + 1) := heq
  simp only [MAX_CAPACITY] at h
  have hnat : (ofNat (n + 1)).toNat = n + 1 := by
    rw [toNat_ofNat', Nat.mod_eq_of_lt (by omega)]
  rw [hport]
  refine ⟨fun h0 => ?_, hfree, fun p hp hlt => ?_⟩
  · rw [h0] at hnat
    exact absurd hnat.symm (Nat.succ_ne_zero n)
  rw [lt_iff_toNat_lt, hnat] at hlt
  have hpos : p.toNat ≠ 0 := fun hzero => hp (UInt64.toNat_inj.mp hzero)
  have hp' : ofNat (p.toNat - 1 + 1) = p := by
    rw [Nat.sub_add_cancel (by omega), UInt64.ofNat_toNat]
  exact hp' ▸ hused (p.toNat - 1) (by omega)

def Numbered (self : Peers) : Prop :=
  ∀ key peers id entry, self.handles.lookup key = some peers → peers.lookup id = some entry → entry.port ≠ 0

theorem numbered_new : Peers.new.Numbered := fun key peers id entry h => absurd h (by simp [Peers.new])

theorem Numbered.allocatePeer {self self' : Peers} {key : PublicKey} {prio : UInt8} {entry : PeerEntry}
    (h : self.Numbered) (halloc : self.allocatePeer key prio = some (entry, self')) :
    entry.port ≠ 0 ∧ self'.Numbered := by
  simp only [Peers.allocatePeer] at halloc
  split at halloc
  · cases halloc
  next hcap =>
    rw [some.injEq, Prod.mk.injEq] at halloc
    obtain ⟨hentry, hself'⟩ := halloc
    have hport : entry.port ≠ 0 := by
      rw [← hentry]
      cases hexisting : (self.handles.lookup key).bind fun peers => peers.values.head? with
      | some handle =>
        obtain ⟨peers, hpeers, hhead⟩ := bind_eq_some_iff.mp hexisting
        obtain ⟨id, hid⟩ := mem_values.mp (mem_of_head? hhead)
        exact h key peers id handle hpeers hid
      | none =>
        rw [hexisting] at hcap
        simp only [isNone_none, true_and, not_le] at hcap
        exact (allocPort_spec hcap.le).1
    refine ⟨hport, fun key' peers id e hpeers he => ?_⟩
    rw [← hself'] at hpeers
    simp only [lookup_insert] at hpeers
    split at hpeers
    · rw [some.injEq] at hpeers
      rw [← hpeers, lookup_insert] at he
      split at he
      · rw [some.injEq] at he
        rw [← he, hentry]
        exact hport
      cases hold : self.handles.lookup key with
      | none =>
        rw [hold] at he
        exact absurd he (by simp)
      | some old =>
        rw [hold] at he
        exact h key old id e hold he
    · exact h key' peers id e hpeers he

theorem Numbered.removePeer {self : Peers} (h : self.Numbered) (id : PeerId) (key : PublicKey) :
    (self.removePeer id key).Numbered := by
  rw [Peers.removePeer]
  split
  · exact h
  next old hold =>
    simp only
    split
    · intro key' peers id' e hpeers he
      simp only [lookup_remove] at hpeers
      split at hpeers
      · exact absurd hpeers (by simp)
      · exact h key' peers id' e hpeers he
    intro key' peers id' e hpeers he
    simp only [lookup_modify, map_eq_some_iff] at hpeers
    obtain ⟨peers', hpeers', rfl⟩ := hpeers
    split at he
    · rw [lookup_remove] at he
      split at he
      · exact absurd he (by simp)
      · exact h key old id' e hold he
    · exact h key' peers' id' e hpeers' he

end Peers

/-! ## The node -/

/-- A node: its connections, the inbox of the router task, and the router with the log of what it has handled. -/
structure PacketConn where
  peers : Peers
  inbox : List Msg
  watched : Watched

namespace PacketConn

/-- What happens at a node. Several readers and callers put messages into the inbox, in any order. -/
inductive Event where
  | handleConn (key : PublicKey) (prio : UInt8)
  /-- A reader has taken the content of a frame from its connection. -/
  | receive (peerId : PeerId) (peerKey : PublicKey) (rtt : Duration) (buf : Bytes)
  /-- A reader or writer ends: it tells the router, and releases the connection. -/
  | hangUp (peerId : PeerId) (key : PublicKey) (port : PeerPort)
  | release (peerId : PeerId) (key : PublicKey)
  | sendTraffic (traffic : TrafficPacket)
  | sendLookup (dest : PublicKey)
  | forceLookup (dest : PublicKey)
  | forceRefresh
  | handle (clk : Clock) (rand : Nat → UInt64)
  | tick (clk : Clock) (rand : Nat → UInt64) (wallJump : Bool)

def new (crypto : Crypto) (config : FullConfig) (now : Instant) : PacketConn :=
  { peers := Peers.new, inbox := [], watched := Watched.new crypto config now }

def push (self : PacketConn) (msg : Msg) : PacketConn := { self with inbox := self.inbox ++ [msg] }

def ourKey (self : PacketConn) : PublicKey := self.watched.router.crypto.publicKey

def exec (env : Env) (validKey : PublicKey → Bool) (self : PacketConn) : Event → Option PacketConn
  | .handleConn key prio =>
    -- don't connect to ourselves, reject forgeable keys
    if key = self.ourKey ∨ !validKey key then some self
    else
      match self.peers.allocatePeer key prio with
      | none => some self
      | some (entry, peers) => some ({ self with peers }.push (.addPeer entry))
  | .receive peerId peerKey rtt buf =>
    match dispatch env { ourKey := self.ourKey, peerId, peerKey } rtt buf with
    | .ok (some msg) => some (self.push msg)
    | .ok none => some self
    | .error _ => some self
  | .hangUp peerId key port => some (self.push (.removePeer peerId key port))
  | .release peerId key => some { self with peers := self.peers.removePeer peerId key }
  | .sendTraffic traffic => some (self.push (.path (.sendTraffic traffic)))
  | .sendLookup dest => some (self.push (.path (.sendLookup dest)))
  | .forceLookup dest => some (self.push (.path (.forceLookup dest)))
  | .forceRefresh => some (self.push .forceRefresh)
  | .handle clk rand =>
    match self.inbox with
    | [] => some self
    | msg :: inbox => (self.watched.exec env { clk, rand, msg }).map fun watched => { self with watched, inbox }
  | .tick clk rand wallJump =>
    (self.watched.exec env { clk, rand, msg := .maintenance wallJump }).map fun watched => { self with watched }

def execAll (env : Env) (validKey : PublicKey → Bool) (self : PacketConn) (events : List Event) : Option PacketConn :=
  events.foldlM (exec env validKey) self

structure Honest (env : Env) (crypto : Crypto) (c : PacketConn) : Prop where
  numbered : c.peers.Numbered
  vetted : ∀ msg ∈ c.inbox, Vetted env crypto.publicKey msg
  identity : c.watched.router.crypto = crypto
  book : c.watched.router.Bookkept
  checked : Checked env c.watched.router
  sent : ∀ rec ∈ c.watched.log, ∀ a ∈ rec.outcome.actions, Credible env crypto.publicKey rec.call.msg a

variable {env : Env} {crypto : Crypto} {c : PacketConn}

theorem honest_new (env : Env) (crypto : Crypto) (config : FullConfig) (now : Instant) :
    Honest env crypto (new crypto config now) where
  numbered := Peers.numbered_new
  vetted _ h := absurd h not_mem_nil
  identity := rfl
  book := FullRouter.bookkept_new crypto config now
  checked := FullRouter.checked_new env crypto config now
  sent _ h := absurd h not_mem_nil

theorem Honest.push (h : Honest env crypto c) {msg : Msg} (hmsg : Vetted env crypto.publicKey msg) :
    Honest env crypto (c.push msg) := by
  refine ⟨h.numbered, fun msg' hmem => ?_, h.identity, h.book, h.checked, h.sent⟩
  rcases mem_append.mp hmem with hmem | hmem
  · exact h.vetted msg' hmem
  rw [mem_singleton.mp hmem]
  exact hmsg

theorem Honest.run (h : Honest env crypto c) (hsign : crypto.Signs env) (call : Call)
    (hmsg : Vetted env crypto.publicKey call.msg) {inbox : List Msg} (hinbox : inbox ⊆ c.inbox) :
    ∃ watched, c.watched.exec env call = some watched ∧ Honest env crypto { c with watched, inbox } := by
  obtain ⟨o, ho, hbook⟩ := h.book.exec env call
  have hcrypto := h.identity
  have hupright := FullRouter.exec_checked h.checked (hcrypto ▸ hsign) (hcrypto ▸ hmsg) ho
  refine ⟨_, by rw [FullRouter.Watched.exec, ho, map_some], h.numbered, fun msg hmem => h.vetted msg (hinbox hmem),
    hupright.crypto.trans hcrypto, hbook, hupright.checked, fun rec hrec => ?_⟩
  rcases mem_append.mp hrec with hrec | hrec
  · exact h.sent rec hrec
  rw [mem_singleton.mp hrec, ← hcrypto]
  exact hupright.actions

theorem Honest.exec (h : Honest env crypto c) (hsign : crypto.Signs env)
    (validKey : PublicKey → Bool) (e : Event) : ∃ c', c.exec env validKey e = some c' ∧ Honest env crypto c' := by
  cases e with
  | handleConn key prio =>
    simp only [PacketConn.exec]
    split
    · exact ⟨c, rfl, h⟩
    split
    · exact ⟨c, rfl, h⟩
    next entry peers halloc =>
      obtain ⟨hport, hnumbered⟩ := h.numbered.allocatePeer halloc
      have hpeers : Honest env crypto { c with peers } :=
        ⟨hnumbered, h.vetted, h.identity, h.book, h.checked, h.sent⟩
      exact ⟨_, rfl, hpeers.push hport⟩
  | receive peerId peerKey rtt buf =>
    simp only [PacketConn.exec]
    split
    next msg hdispatch =>
      have hmsg := dispatch_vetted hdispatch
      rw [ourKey, h.identity] at hmsg
      exact ⟨_, rfl, h.push hmsg⟩
    · exact ⟨c, rfl, h⟩
    · exact ⟨c, rfl, h⟩
  | hangUp peerId key port | sendTraffic traffic | sendLookup dest
  | forceLookup dest | forceRefresh => exact ⟨_, rfl, h.push trivial⟩
  | release peerId key =>
    exact ⟨_, rfl, h.numbered.removePeer peerId key, h.vetted, h.identity, h.book, h.checked, h.sent⟩
  | handle clk rand =>
    simp only [PacketConn.exec]
    split
    · exact ⟨c, rfl, h⟩
    next msg inbox hinbox =>
      have hmsg := h.vetted msg (by rw [hinbox]; exact mem_cons_self)
      have hrest : inbox ⊆ c.inbox := by
        rw [hinbox]
        exact subset_cons_self msg inbox
      obtain ⟨watched, hwatched, hhonest⟩ := h.run hsign { clk, rand, msg } hmsg hrest
      exact ⟨_, by rw [hwatched, map_some], hhonest⟩
  | tick clk rand wallJump =>
    obtain ⟨watched, hwatched, hhonest⟩ := h.run hsign { clk, rand, msg := .maintenance wallJump } trivial
      (List.Subset.refl c.inbox)
    exact ⟨_, by rw [PacketConn.exec, hwatched, map_some], hhonest⟩

/-- The node sends the action to the other end of `link`: a signature response to the peer that asked for it. -/
def Sends (c : PacketConn) (link : Link) (a : RouterAction) : Prop :=
  link.peerKey = c.ourKey ∧ ∃ rec ∈ c.watched.log, a ∈ rec.outcome.actions ∧
    ∀ id res, a = .sendSigRes id res → ∃ req, rec.call.msg = .handleRequest id link.ourKey req

theorem Honest.sound (h : Honest env crypto c) {link : Link} {a : RouterAction} (ha : c.Sends link a) :
    a.Sound env link := by
  obtain ⟨hkey, rec, hrec, hmem, hrequest⟩ := ha
  have hcredible := h.sent rec hrec a hmem
  rw [ourKey, h.identity] at hkey
  cases a with
  | sendSigRes id res =>
    obtain ⟨peerKey, req, hmsg, hcheck⟩ := hcredible
    obtain ⟨req', hmsg'⟩ := hrequest id res rfl
    cases hmsg.symm.trans hmsg'
    show checkSigRes env res link.ourKey link.peerKey = true
    rw [hkey]
    exact hcheck
  | sendSigReq id req | sendBloom id bloom | deliverTraffic tr | pathNotifyCallback key => trivial
  | sendAnnounce id ann | sendTraffic id tr | sendPathNotify id notify | sendPathLookup id lookup
  | sendPathBroken id broken => exact hcredible

/-- **Honest peers never reject each other**, if signatures verify under the key: a signature response goes to the
connection of its request, and frames, in whatever order they are written, are read as the messages that were encoded,
if the receiver allows their length. The reader stops at the end of the stream only. -/
theorem honest_frames_accepted (env : Env) (validKey : PublicKey → Bool) (crypto : Crypto)
    (hsign : ∀ message, env.verify crypto.publicKey message (crypto.sign message) = true) (config : FullConfig)
    (now : Instant) (events : List Event) :
    ∃ c, (new crypto config now).execAll env validKey events = some c ∧
      (∀ rec ∈ c.watched.log, ∀ id res, .sendSigRes id res ∈ rec.outcome.actions →
        ∃ peerKey req, rec.call.msg = .handleRequest id peerKey req) ∧
      ∀ (link : Link) (maxMessageSize : UInt64) (rtt : Duration) (sent : List (RouterAction × Bytes)),
        (∀ p ∈ sent, c.Sends link p.1 ∧ (∃ id, encodeActionFrame p.1 = some (id, p.2)) ∧ Fits maxMessageSize p.2) →
        peerReader env link maxMessageSize rtt (sent.flatMap Prod.snd) =
          { msgs := sent.filterMap fun p => p.1.message link rtt, error := .io } := by
  obtain ⟨c, hc, h⟩ := Lts.exists_foldlM (fun c e (hc : Honest env crypto c) => hc.exec hsign validKey e) events _
    (honest_new env crypto config now)
  refine ⟨c, hc, fun rec hrec id res ha => ?_, fun link maxMessageSize rtt sent hsent => ?_⟩
  · obtain ⟨peerKey, req, hmsg, -⟩ := h.sent rec hrec _ ha
    exact ⟨peerKey, req, hmsg⟩
  · exact peerReader_frames rtt sent fun p hp => ⟨h.sound (hsent p hp).1, (hsent p hp).2⟩

theorem honest_frames_accepted_request :
    ∃ c, (new ⟨5, Exchange.checksum 5⟩ ⟨⟨0, 0, none⟩, 0, 0⟩ 0).execAll Exchange.checksumEnv (fun _ => true)
        [.handleConn 3 0, .handle ⟨0, 0⟩ (fun _ => 1), .receive 1 3 0 [2, 1, 7], .handle ⟨0, 0⟩ (fun _ => 2)] = some c ∧
      (∀ rec ∈ c.watched.log, ∀ id res, .sendSigRes id res ∈ rec.outcome.actions →
        ∃ peerKey req, rec.call.msg = .handleRequest id peerKey req) ∧
      ∀ (link : Link) (maxMessageSize : UInt64) (rtt : Duration) (sent : List (RouterAction × Bytes)),
        (∀ p ∈ sent, c.Sends link p.1 ∧ (∃ id, encodeActionFrame p.1 = some (id, p.2)) ∧ Fits maxMessageSize p.2) →
        peerReader Exchange.checksumEnv link maxMessageSize rtt (sent.flatMap Prod.snd) =
          { msgs := sent.filterMap fun p => p.1.message link rtt, error := .io } :=
  honest_frames_accepted Exchange.checksumEnv (fun _ => true) ⟨5, Exchange.checksum 5⟩
    (fun message => beq_self_eq_true (Exchange.checksum 5 message)) _ _ _

end PacketConn

end Yggdrasil
