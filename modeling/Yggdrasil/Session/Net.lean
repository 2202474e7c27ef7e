import Yggdrasil.Base.Run
import Yggdrasil.Session.Slot

/-!
# Two session managers and the network between them

What the network may hand to a side is a parameter of `Net.Step`.
-/

namespace Yggdrasil.Session
open ConcurrentSessionManager
open SessionInfo (decryptOutsideLock)

structure Party where
  mgr : ConcurrentSessionManager
  rng : Rng

/-- The two managers with all they have emitted, were asked to write, and delivered. -/
structure Net where
  party : Side → Party
  /-- every packet emitted so far, with the side that emitted it (for the other one) -/
  emitted : List (Side × Packet)
  /-- every payload passed to `write_to`, with the side it was passed at -/
  written : List (Side × Bytes)
  delivered : List (Side × PublicKey × Bytes)

variable (ids : Ids)

def Net.start (timeout : Duration) : Net :=
  { party := fun p => ⟨ConcurrentSessionManager.new (ids.auth p) timeout, ⟨ids.key p, 0⟩⟩
    emitted := []
    written := []
    delivered := [] }

/-- One call on one side. -/
inductive Event where
  | write (p : Side) (msg : Bytes) (clk : Clock)
  | receive (p : Side) (data : Packet) (clk : Clock)
  | cleanup (p : Side) (now : Instant)

def Event.side : Event → Side
  | .write p _ _ => p
  | .receive p _ _ => p
  | .cleanup p _ => p

def deliveries (actions : List OutAction) : List (PublicKey × Bytes) :=
  actions.filterMap fun
    | .sendToInner _ _ => none
    | .deliver source data => some (source, data)

@[simp] theorem deliveries_nil : deliveries [] = [] := rfl

@[simp] theorem deliveries_send (dest : PublicKey) (data : Packet) (rest : List OutAction) :
    deliveries (.sendToInner dest data :: rest) = deliveries rest := rfl

@[simp] theorem deliveries_deliver (source : PublicKey) (data : Bytes) (rest : List OutAction) :
    deliveries (.deliver source data :: rest) = (source, data) :: deliveries rest := rfl

@[simp] theorem deliveries_append (l r : List OutAction) : deliveries (l ++ r) = deliveries l ++ deliveries r :=
  List.filterMap_append

section Deliveries
variable (mgr : ConcurrentSessionManager) (peer ourKey : PublicKey) (clk : Clock) (rng : Rng)

theorem deliveries_writeTo (msg : Bytes) : deliveries (mgr.writeTo peer msg ourKey clk rng).actions = [] := by
  unfold ConcurrentSessionManager.writeTo
  cases mgr.sessions peer <;> rfl

theorem deliveries_sendBuffered (info : SessionInfo) (buffered : Option Bytes) (now : Instant) :
    deliveries (sendBuffered info peer buffered now rng).1 = [] := by
  cases buffered <;> rfl

theorem deliveries_handleInit (init : SessionInit) :
    deliveries (mgr.handleInit peer init ourKey clk rng).actions = [] := by
  unfold handleInit
  cases mgr.sessions peer with
  | some info =>
    dsimp only
    split <;> rfl
  | none => simp [deliveries_sendBuffered]

theorem deliveries_handleAck (ack : SessionInit) :
    deliveries (mgr.handleAck peer ack ourKey clk rng).actions = [] := by
  unfold ConcurrentSessionManager.handleAck
  cases mgr.sessions peer with
  | some info =>
    dsimp only
    split <;> rfl
  | none => simp [deliveries_sendBuffered]

variable {mgr peer ourKey clk rng}

theorem mem_deliveries_handleData {data : Packet} {source : PublicKey} {payload : Bytes}
    (h : (source, payload) ∈ deliveries (mgr.handleData peer data ourKey clk rng).actions) :
    source = peer ∧ payload ≠ KEEPALIVE_ACK ∧ ∃ t info snap innerKey, data = .traffic t ∧
      mgr.sessions peer = some info ∧ info.recvSnapshot t = .ok snap ∧
      decryptOutsideLock snap t = .ok (payload, innerKey) := by
  unfold handleData at h
  cases data with
  | junk => cases h
  | init hs =>
    cases hd : SessionInit.decrypt hs ourKey peer mgr.groupAuth <;> simp [hd, deliveries_handleInit] at h
  | ack hs =>
    cases hd : SessionInit.decrypt hs ourKey peer mgr.groupAuth <;> simp [hd, deliveries_handleAck] at h
  | traffic t =>
    dsimp only at h
    cases hs : mgr.sessions peer with
    | none => simp [handleTraffic, hs] at h
    | some info =>
      cases hsnap : info.recvSnapshot t with
      | error e => cases e <;> simp [handleTraffic, hs, hsnap] at h
      | ok snap =>
        cases hdec : decryptOutsideLock snap t with
        | error e => cases e <;> simp [handleTraffic, hs, hsnap, hdec] at h
        | ok r =>
          rw [handleTraffic_accept hs hsnap hdec] at h
          unfold afterAccept at h
          split at h
          · cases h
          next hquiet =>
            split at h
            · simp [deliveries_writeTo] at h
            obtain ⟨rfl, rfl⟩ : source = peer ∧ payload = r.1 := by simpa using h
            exact ⟨rfl, fun hp => hquiet (Or.inr hp), t, info, snap, r.2, rfl, rfl, hsnap, hdec⟩

end Deliveries

def Net.outcome (net : Net) : Event → Outcome
  | .write p msg clk => (net.party p).mgr.writeTo (ids.key p.other) msg (ids.key p) clk (net.party p).rng
  | .receive p data clk => (net.party p).mgr.handleData (ids.key p.other) data (ids.key p) clk (net.party p).rng
  | .cleanup p now => ⟨[], (net.party p).mgr.cleanupExpired now, (net.party p).rng⟩

def Event.writes : Event → List Bytes
  | .write _ msg _ => [msg]
  | _ => []

def Net.exec (net : Net) (e : Event) : Net :=
  let o := net.outcome ids e
  { party := Function.update net.party e.side ⟨o.mgr, o.rng⟩
    emitted := net.emitted ++ (packets o.actions).map (Prod.mk e.side)
    written := net.written ++ e.writes.map (Prod.mk e.side)
    delivered := net.delivered ++ (deliveries o.actions).map (Prod.mk e.side) }

def Net.Offered (offers : Net → Side → Packet → Prop) (net : Net) : Event → Prop
  | .write _ _ _ => True
  | .receive p data _ => offers net p data
  | .cleanup _ _ => True

def Net.Step (offers : Net → Side → Packet → Prop) (net : Net) (e : Event) (net' : Net) : Prop :=
  net.Offered offers e ∧ net' = net.exec ids e

instance (offers : Net → Side → Packet → Prop) [∀ net p data, Decidable (offers net p data)] (net : Net) :
    ∀ e, Decidable (net.Offered offers e)
  | .write _ _ _ => inferInstanceAs (Decidable True)
  | .receive p data _ => inferInstanceAs (Decidable (offers net p data))
  | .cleanup _ _ => inferInstanceAs (Decidable True)

/-- A network that loses, duplicates and reorders, but hands a side only what the other side sent. -/
def lossy (net : Net) (p : Side) (data : Packet) : Prop := (p.other, data) ∈ net.emitted

instance (net : Net) (p : Side) (data : Packet) : Decidable (lossy net p data) :=
  inferInstanceAs (Decidable (_ ∈ _))

def Net.world (net : Net) : World :=
  ⟨fun p => Slot.of (net.party p).mgr (net.party p).rng (ids.key p.other), net.emitted⟩

def Net.AuthKept (net : Net) : Prop := ∀ p, (net.party p).mgr.groupAuth = ids.auth p

theorem Net.start_authKept (timeout : Duration) : (Net.start ids timeout).AuthKept ids := fun _ => rfl

variable (mgr : ConcurrentSessionManager)

theorem writeTo_groupAuth (dest : PublicKey) (msg : Bytes) (ourKey : PublicKey)
    (clk : Clock) (rng : Rng) : (mgr.writeTo dest msg ourKey clk rng).mgr.groupAuth = mgr.groupAuth := by
  unfold ConcurrentSessionManager.writeTo
  cases mgr.sessions dest <;> rfl

theorem createSessionFromInit_groupAuth (peer : PublicKey) (init : SessionInit)
    (now : Instant) (rng : Rng) : (mgr.createSessionFromInit peer init now rng).2.2.1.groupAuth = mgr.groupAuth := by
  unfold createSessionFromInit
  cases mgr.buffers peer <;> rfl

theorem handleTraffic_groupAuth (peer : PublicKey) (t : TrafficMsg) (ourKey : PublicKey) (clk : Clock) (rng : Rng) :
    (mgr.handleTraffic peer t ourKey clk rng).mgr.groupAuth = mgr.groupAuth := by
  unfold handleTraffic
  unfold afterAccept
  repeat' split
  all_goals first | rfl | exact writeTo_groupAuth ..

theorem handleData_groupAuth (peer : PublicKey) (data : Packet) (ourKey : PublicKey)
    (clk : Clock) (rng : Rng) : (mgr.handleData peer data ourKey clk rng).mgr.groupAuth = mgr.groupAuth := by
  unfold handleData
  cases data with
  | junk => rfl
  | init h =>
    dsimp only
    cases SessionInit.decrypt h ourKey peer mgr.groupAuth with
    | none => rfl
    | some init =>
      dsimp only [handleInit]
      cases mgr.sessions peer with
      | none => exact createSessionFromInit_groupAuth ..
      | some info => dsimp only; split <;> rfl
  | ack h =>
    dsimp only
    cases SessionInit.decrypt h ourKey peer mgr.groupAuth with
    | none => rfl
    | some ack =>
      dsimp only [ConcurrentSessionManager.handleAck]
      cases mgr.sessions peer with
      | none => exact createSessionFromInit_groupAuth ..
      | some info => dsimp only; split <;> rfl
  | traffic t => exact handleTraffic_groupAuth ..

theorem Net.AuthKept.exec {ids : Ids} {net : Net} (h : net.AuthKept ids) (e : Event) :
    (net.exec ids e).AuthKept ids := by
  intro p
  have hcall : (net.outcome ids e).mgr.groupAuth = (net.party e.side).mgr.groupAuth := by
    cases e with
    | write p msg clk => exact writeTo_groupAuth ..
    | receive p data clk => exact handleData_groupAuth ..
    | cleanup p now => rfl
  by_cases hp : p = e.side
  · subst hp
    simpa [Net.exec] using hcall.trans (h e.side)
  · simpa [Net.exec, Function.update_of_ne hp] using h p

theorem Net.world_exec (net : Net) (e : Event) :
    (net.exec ids e).world ids = (net.world ids).after ids e.side (net.outcome ids e) := by
  simp only [Net.world, World.after, World.put, World.mk.injEq]
  refine ⟨funext fun p => ?_, rfl⟩
  by_cases hp : p = e.side
  · subst hp
    simp [Net.exec]
  · simp [Net.exec, Function.update_of_ne hp]

theorem Net.exec_steps {ids : Ids} {ok : World → Side → SlotAct → Prop} {net : Net} (ha : net.AuthKept ids) (e : Event)
    (hseal : ∀ p msg clk info, e = .write p msg clk → ((net.world ids).slot p).session = some info →
      ok (net.world ids) p (.sealMsg msg))
    (henq : ∀ p msg clk, e = .write p msg clk → ((net.world ids).slot p).session = none →
      ok (net.world ids) p (.enqueue msg))
    (hrecv : ∀ p data clk, e = .receive p data clk → Admits ids ok (net.world ids) p data) :
    World.Steps ids ok (net.world ids) ((net.exec ids e).world ids) := by
  rw [Net.world_exec]
  cases e with
  | write p msg clk =>
    exact writeTo_steps rfl (ha p) msg clk (fun info => hseal p msg clk info rfl) (henq p msg clk rfl)
  | receive p data clk => exact handleData_steps rfl (ha p) data clk (hrecv p data clk rfl)
  | cleanup p now => exact cleanupExpired_steps rfl now

/-! ## Two hosts to run -/

def firstInit (p : Side) (clk : Clock) : SealedInit :=
  (SessionInit.new ⟨⟨ids.key p, 0⟩⟩ ⟨⟨ids.key p, 1⟩⟩ 0 clk).encrypt (ids.key p) (ids.key p.other) (ids.auth p)

def exampleIds : Ids := ⟨fun p => if p = .a then 1 else 2, fun _ => ⟨none⟩, by decide⟩

end Yggdrasil.Session
