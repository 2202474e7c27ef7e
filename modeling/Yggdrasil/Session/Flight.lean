import Mathlib.Algebra.BigOperators.Group.Multiset.Defs
import Yggdrasil.Session.Net

/-!
# Each message delivered at most once

A message leaves the bag when it is delivered; what the call answers goes in.
-/

namespace Yggdrasil.Session
open Multiset ConcurrentSessionManager Packet
open SessionInfo (decryptOutsideLock)

/-- The two managers with the messages in flight, each with the side it is for. -/
structure Flight where
  net : Net
  inflight : Multiset (Side × Packet)

def Event.takes : Event → Multiset (Side × Packet)
  | .receive p data _ => {(p, data)}
  | _ => 0

variable (ids : Ids)

def Flight.answers (s : Flight) (e : Event) : Multiset (Side × Packet) :=
  ((packets (s.net.outcome ids e).actions).map (Prod.mk e.side.other) : List _)

def Flight.exec (s : Flight) (e : Event) : Flight :=
  { net := s.net.exec ids e
    inflight := s.inflight - e.takes + s.answers ids e }

def Flight.Offered (s : Flight) (e : Event) : Prop := e.takes ≤ s.inflight

def Flight.Step (s : Flight) (e : Event) (s' : Flight) : Prop := s.Offered e ∧ s' = s.exec ids e

def Flight.Delivery (s : Flight) (e : Event) (s' : Flight) : Prop :=
  s.Step ids e s' ∧ ∃ p data clk, e = .receive p data clk

/-! ## What a message can still cause -/

/-- A packet is worth more than its answers. -/
def Packet.price : Packet → Nat
  | .junk => 1
  | .ack _ => 1
  | .init _ => 2
  | .traffic t => if t.body.plain.payload = KEEPALIVE_PROBE then 4 else 3

def ConcurrentSessionManager.openingPrice (mgr : ConcurrentSessionManager) (peer : PublicKey) : Nat :=
  if (mgr.sessions peer).isSome then 0 else 6

def totalPrice (ps : List Packet) : Nat := (ps.map Packet.price).sum

@[simp] theorem totalPrice_nil : totalPrice [] = 0 := rfl

@[simp] theorem totalPrice_cons (d : Packet) (ps : List Packet) :
    totalPrice (d :: ps) = d.price + totalPrice ps := by simp [totalPrice]

@[simp] theorem totalPrice_append (ps qs : List Packet) : totalPrice (ps ++ qs) = totalPrice ps + totalPrice qs := by
  simp [totalPrice]

@[simp] theorem Packet.price_init (h : SealedInit) : (Packet.init h).price = 2 := rfl

@[simp] theorem Packet.price_ack (h : SealedInit) : (Packet.ack h).price = 1 := rfl

theorem Packet.price_traffic {t : TrafficMsg} (h : t.body.plain.payload ≠ KEEPALIVE_PROBE) :
    (Packet.traffic t).price = 3 := if_neg h

theorem Packet.price_traffic_le (t : TrafficMsg) : (Packet.traffic t).price ≤ 4 := by
  unfold Packet.price
  dsimp only
  split <;> omega

theorem Packet.le_price_traffic (t : TrafficMsg) : 3 ≤ (Packet.traffic t).price := by
  unfold Packet.price
  dsimp only
  split <;> omega

section Calls
variable (mgr : ConcurrentSessionManager) (peer ourKey : PublicKey) (clk : Clock) (rng : Rng)

@[simp] theorem openingPrice_insertSession (info : SessionInfo) :
    (mgr.insertSession peer info).openingPrice peer = 0 := by
  simp [openingPrice, insertSession]

theorem openingPrice_some {info : SessionInfo} (h : mgr.sessions peer = some info) : mgr.openingPrice peer = 0 := by
  simp [openingPrice, h]

theorem openingPrice_none (h : mgr.sessions peer = none) : mgr.openingPrice peer = 6 := by
  simp [openingPrice, h]

theorem sendBuffered_price (info : SessionInfo) (buffered : Option Bytes) (now : Instant) :
    totalPrice (packets (sendBuffered info peer buffered now rng).1) ≤ 4 := by
  cases buffered with
  | none => exact Nat.zero_le _
  | some msg =>
    exact price_traffic_le _

def Outcome.price (o : Outcome) (peer : PublicKey) : Nat := totalPrice (packets o.actions) + o.mgr.openingPrice peer

theorem handleInit_price (init : SessionInit) :
    (mgr.handleInit peer init ourKey clk rng).price peer < 2 + mgr.openingPrice peer := by
  unfold handleInit Outcome.price
  cases hs : mgr.sessions peer with
  | some info =>
    dsimp only
    split
    · simp [openingPrice_some mgr peer hs]
    simp only [packets_send, packets_nil, totalPrice_cons, totalPrice_nil, openingPrice_insertSession, price_ack]
    omega
  | none =>
    obtain ⟨buffered, info, mgr', rng'⟩ := mgr.createSessionFromInit peer init clk.now rng
    have := sendBuffered_price peer rng' info buffered clk.now
    simp only [packets_append, packets_send, packets_nil, totalPrice_append, totalPrice_cons, totalPrice_nil,
      openingPrice_insertSession, openingPrice_none mgr peer hs, price_ack]
    omega

theorem handleAck_price (ack : SessionInit) :
    (mgr.handleAck peer ack ourKey clk rng).price peer < 1 + mgr.openingPrice peer := by
  unfold ConcurrentSessionManager.handleAck Outcome.price
  cases hs : mgr.sessions peer with
  | some info =>
    dsimp only
    split
    · simp only [packets_nil, totalPrice_nil, openingPrice_insertSession]
      omega
    · simp [openingPrice_some mgr peer hs]
  | none =>
    obtain ⟨buffered, info, mgr', rng'⟩ := mgr.createSessionFromInit peer ack clk.now rng
    dsimp only
    generalize (if ack.seq > info.seq then info.handleUpdate ack clk.now rng' else (info, rng')) = updated
    have := sendBuffered_price peer updated.2 updated.1 buffered clk.now
    simp only [packets_send, totalPrice_cons, openingPrice_insertSession, openingPrice_none mgr peer hs, price_ack]
    omega

theorem writeTo_price {info : SessionInfo} (hs : mgr.sessions peer = some info) {msg : Bytes}
    (hmsg : msg ≠ KEEPALIVE_PROBE) : (mgr.writeTo peer msg ourKey clk rng).price peer = 3 := by
  simp only [ConcurrentSessionManager.writeTo, hs, Outcome.price, packets_send, packets_nil, totalPrice_cons,
    totalPrice_nil, openingPrice_insertSession]
  exact price_traffic hmsg

theorem handleTraffic_price (t : TrafficMsg) :
    (mgr.handleTraffic peer t ourKey clk rng).price peer < (Packet.traffic t).price + mgr.openingPrice peer := by
  have hprice := le_price_traffic t
  -- an init costs less than the traffic it answers
  have hinit : ∀ (h : SealedInit) (rng' : Rng),
      Outcome.price ⟨[.sendToInner peer (.init h)], mgr, rng'⟩ peer <
        (Packet.traffic t).price + mgr.openingPrice peer := by
    simp only [Outcome.price, packets_send, packets_nil, totalPrice_cons, totalPrice_nil, price_init]
    omega
  have hnil : ∀ rng', Outcome.price ⟨[], mgr, rng'⟩ peer < (Packet.traffic t).price + mgr.openingPrice peer := by
    simp only [Outcome.price, packets_nil, totalPrice_nil]
    omega
  cases hs : mgr.sessions peer with
  | none => simpa only [handleTraffic, hs] using hinit _ _
  | some info =>
    cases hsnap : info.recvSnapshot t with
    | error e =>
      cases e with
      | drop => simpa only [handleTraffic, hs, hsnap] using hnil _
      | sendInit a b k => simpa only [handleTraffic, hs, hsnap] using hinit _ _
    | ok snap =>
      cases hdec : decryptOutsideLock snap t with
      | error e =>
        cases e with
        | drop => simpa only [handleTraffic, hs, hsnap, hdec] using hnil _
        | sendInit => simpa only [handleTraffic, hs, hsnap, hdec] using hinit _ _
      | ok r =>
        rw [handleTraffic_accept hs hsnap hdec]
        unfold afterAccept
        split
        · simp only [Outcome.price, packets_nil, totalPrice_nil, openingPrice_insertSession]
          omega
        split
        next hprobe =>
          -- only a probe is answered by traffic, and it is dearer
          have hpl : t.body.plain.payload = KEEPALIVE_PROBE := by
            rw [(SessionInfo.decryptOutsideLock_ok.mp hdec).2.2]
            exact hprobe
          rw [writeTo_price _ peer ourKey clk _ (Function.update_self ..) (by decide), Packet.price, if_pos hpl]
          omega
        simp only [Outcome.price, packets_deliver, packets_nil, totalPrice_nil, openingPrice_insertSession]
        omega

theorem handleData_price (data : Packet) :
    (mgr.handleData peer data ourKey clk rng).price peer < data.price + mgr.openingPrice peer := by
  have hnil : 0 < data.price → Outcome.price ⟨[], mgr, rng⟩ peer < data.price + mgr.openingPrice peer := by
    simp only [Outcome.price, packets_nil, totalPrice_nil]
    omega
  unfold handleData
  cases data with
  | junk => exact hnil Nat.one_pos
  | init h =>
    dsimp only
    cases SessionInit.decrypt h ourKey peer mgr.groupAuth with
    | none => exact hnil (Nat.succ_pos 1)
    | some init => exact handleInit_price mgr peer ourKey clk rng init
  | ack h =>
    dsimp only
    cases SessionInit.decrypt h ourKey peer mgr.groupAuth with
    | none => exact hnil Nat.one_pos
    | some ack => exact handleAck_price mgr peer ourKey clk rng ack
  | traffic t => exact handleTraffic_price mgr peer ourKey clk rng t

end Calls

def Flight.potential (s : Flight) : Nat :=
  (s.inflight.map fun e => e.2.price).sum + (s.net.party .a).mgr.openingPrice (ids.key .b) +
    (s.net.party .b).mgr.openingPrice (ids.key .a)

theorem Flight.potential_eq (s : Flight) (p : Side) : s.potential ids =
    (s.inflight.map fun e => e.2.price).sum + (s.net.party p).mgr.openingPrice (ids.key p.other) +
      (s.net.party p.other).mgr.openingPrice (ids.key p) := by
  cases p
  · rfl
  rw [Flight.potential, Nat.add_right_comm]
  rfl

theorem Flight.answers_price (s : Flight) (e : Event) :
    ((s.answers ids e).map fun x => x.2.price).sum = totalPrice (packets (s.net.outcome ids e).actions) := by
  simp [Flight.answers, totalPrice, Function.comp_def]

/-- Every delivery lowers the potential. -/
theorem delivery_lowers_potential {ids : Ids} {s s' : Flight} {e : Event} (h : s.Delivery ids e s') :
    s'.potential ids < s.potential ids := by
  obtain ⟨⟨hoffer, rfl⟩, p, data, clk, rfl⟩ := h
  have hcall := handleData_price (s.net.party p).mgr (ids.key p.other) (ids.key p) clk (s.net.party p).rng data
  have hself : ((s.exec ids (.receive p data clk)).net.party p).mgr =
      (s.net.outcome ids (.receive p data clk)).mgr := by
    simp [Flight.exec, Net.exec, Event.side]
  have hother : (s.exec ids (.receive p data clk)).net.party p.other = s.net.party p.other := by
    simp [Flight.exec, Net.exec, Event.side]
  have hbag : ((s.exec ids (.receive p data clk)).inflight.map fun e => e.2.price).sum + data.price =
      (s.inflight.map fun e => e.2.price).sum +
        totalPrice (packets (s.net.outcome ids (.receive p data clk)).actions) := by
    rw [← Flight.answers_price, Flight.exec, map_add, sum_add]
    have := congrArg (fun m => (Multiset.map (fun e => e.2.price) m).sum) (Multiset.sub_add_cancel hoffer)
    simp only [map_add, sum_add, Event.takes, map_singleton, sum_singleton] at this
    simp only [Event.takes]
    omega
  rw [Flight.potential_eq ids _ p, Flight.potential_eq ids s p, hself, hother]
  have : (s.net.outcome ids (.receive p data clk)).price (ids.key p.other) <
      data.price + (s.net.party p).mgr.openingPrice (ids.key p.other) := hcall
  unfold Outcome.price at this
  omega

/-- From any two managers and any messages in flight, every run of deliveries is at most as long as the potential. -/
theorem no_handshake_storm (ids : Ids) (s : Flight) : (∀ es s', Lts.Run (Flight.Delivery ids) s es s' →
      es.length ≤ s.potential ids) ∧
    ¬ ∃ run : ℕ → Flight, run 0 = s ∧ ∀ n, ∃ e, Flight.Delivery ids (run n) e (run (n + 1)) := by
  have hlower : ∀ s e s', Flight.Delivery ids s e s' → s'.potential ids < s.potential ids :=
    fun _ _ _ => delivery_lowers_potential
  constructor
  · intro es s' hrun
    exact (Nat.le_add_right _ _).trans (hrun.length_le hlower)
  rintro ⟨run, -, hrun⟩
  exact Lts.no_infinite_run hlower run hrun

end Yggdrasil.Session
