import Yggdrasil.Traffic.Codel

/-!
# Handing packets to the reader

`DeliveryQueue` of `traffic.rs` between the router task, which delivers packets, and one reader in `read_from`. The
counter of waiting readers is raised under the lock of the queue, but `deliver` reads it before it takes the lock.
-/

namespace Yggdrasil
open PacketQueue List Option

structure DeliveryQueue where
  queue : PacketQueue
  recvReady : Nat

def RECV_CHANNEL_SIZE : Nat := 512

namespace DeliveryQueue

def new (quantum : Nat) : DeliveryQueue := { queue := PacketQueue.new quantum, recvReady := 0 }

variable (self : DeliveryQueue)

def readerWaiting : Bool := 0 < self.recvReady

def claimReader : DeliveryQueue := { self with recvReady := self.recvReady - 1 }

def enqueue (packet : TrafficPacket) (now : Instant) : Option DeliveryQueue :=
  (self.queue.push packet now).map fun queue => { self with queue }

def deliver (packet : TrafficPacket) (now : Instant) :
    Option (Option TrafficPacket × DeliveryQueue) :=
  if self.readerWaiting then some (some packet, self.claimReader)
  else (self.enqueue packet now).map fun self => (none, self)

/-- Called by `read_from` before it waits: a queued packet, or the reader is registered. -/
def tryPopOrWait (codelControlLaw : Instant → UInt32 → Instant) (self : DeliveryQueue) (now : Instant) :
    Option (Option TrafficPacket × DeliveryQueue) :=
  (self.queue.popCodel codelControlLaw now).map fun r =>
    match r.1 with
    | some packet => (some packet, { self with queue := r.2 })
    | none => (none, { queue := r.2, recvReady := self.recvReady + 1 })

end DeliveryQueue

inductive Producer where
  | idle
  | fast (packet : TrafficPacket)
  | handing (packet : TrafficPacket)
  | slow (packet : TrafficPacket)

def Producer.handed : Producer → List TrafficPacket
  | .fast packet | .handing packet => [packet]
  | .idle | .slow _ => []

def Producer.pending : Producer → List TrafficPacket
  | .slow packet => [packet]
  | .idle | .fast _ | .handing _ => []

inductive Reader where
  | idle
  | waiting
deriving DecidableEq

/-- What the task and the reader share, where each of them is, and what was delivered and received. -/
structure Handoff where
  dq : DeliveryQueue
  channel : List TrafficPacket
  producer : Producer
  reader : Reader
  delivered : List TrafficPacket
  received : List TrafficPacket

namespace Handoff
open PacketQueue (PqPacketInfo Kept Moves)

/-- The atomic steps; the router task does the first four, the reader the last two. -/
inductive Event where
  | load (packet : TrafficPacket)
  | claim
  | send
  | push (now : Instant)
  | tryPopOrWait (now : Instant)
  | recv

def new (quantum : Nat) : Handoff :=
  { dq := DeliveryQueue.new quantum, channel := [], producer := .idle, reader := .idle, delivered := [],
    received := [] }

variable (codelControlLaw : Instant → UInt32 → Instant)
variable (s : Handoff)

/-- One atomic step. -/
def exec : Event → Option Handoff
  | .load packet =>
    match s.producer with
    | .idle => some { s with
        producer := if s.dq.readerWaiting then .fast packet else .slow packet
        delivered := s.delivered ++ [packet] }
    | _ => none
  | .claim =>
    match s.producer with
    | .fast packet => some { s with dq := s.dq.claimReader, producer := .handing packet }
    | _ => none
  | .send =>
    match s.producer with
    | .handing packet =>
      if s.channel.length < RECV_CHANNEL_SIZE then
        some { s with channel := s.channel ++ [packet], producer := .idle }
      else none
    | _ => none
  | .push now =>
    match s.producer with
    | .slow packet => (s.dq.enqueue packet now).map fun dq => { s with dq, producer := .idle }
    | _ => none
  | .tryPopOrWait now =>
    match s.reader with
    | .idle => (s.dq.tryPopOrWait codelControlLaw now).map fun r =>
      match r.1 with
      | some packet => { s with dq := r.2, received := s.received ++ [packet] }
      | none => { s with dq := r.2, reader := .waiting }
    | .waiting => none
  | .recv =>
    match s.reader, s.channel with
    | .waiting, packet :: channel => some { s with channel, reader := .idle, received := s.received ++ [packet] }
    | _, _ => none

def Step (e : Event) (t : Handoff) : Prop := s.exec codelControlLaw e = some t

/-- The reader waits for a packet while the queue has one, and nobody is about to wake it. -/
def LostWakeup : Prop :=
  s.producer = .idle ∧ s.reader = .waiting ∧ s.channel = [] ∧ s.dq.queue.isEmpty = false

instance Producer.decidableIdle : ∀ producer : Producer, Decidable (producer = .idle)
  | .idle => isTrue rfl
  | .fast _ | .handing _ | .slow _ => isFalse (by simp)

instance LostWakeup.decidable : DecidablePred LostWakeup := fun s =>
  inferInstanceAs (Decidable (s.producer = .idle ∧ s.reader = .waiting ∧ s.channel = [] ∧ s.dq.queue.isEmpty = false))

/-- The reader does not register between the two steps of a `deliver` that saw no reader. -/
def Clear : Event → Prop
  | .tryPopOrWait _ => s.dq.queue.isEmpty = true → s.producer.pending = []
  | _ => True

instance Clear.decidable (s : Handoff) : ∀ e, Decidable (s.Clear e)
  | .tryPopOrWait _ => inferInstanceAs (Decidable (s.dq.queue.isEmpty = true → s.producer.pending = []))
  | .load _ | .claim | .send | .push _ | .recv => isTrue trivial

def lane (key : PacketQueue.FlowKey) (packets : List TrafficPacket) : List TrafficPacket :=
  Fifo.lane TrafficPacket.flowKey key packets

/-! ## `deliver` -/

theorem run_deliver {s : Handoff} {packet : TrafficPacket} {now : Instant} {r : Option TrafficPacket}
    {dq : DeliveryQueue} (hidle : s.producer = .idle) (h : s.dq.deliver packet now = some (r, dq)) :
    ∃ e, Lts.Run (Step codelControlLaw) s [.load packet, e]
      { s with dq, producer := r.elim .idle .handing, delivered := s.delivered ++ [packet] } := by
  unfold DeliveryQueue.deliver at h
  have hload : Step codelControlLaw s (.load packet) { s with
      producer := if s.dq.readerWaiting then .fast packet else .slow packet
      delivered := s.delivered ++ [packet] } := by
    unfold Step exec
    rw [hidle]
  by_cases hwaiting : s.dq.readerWaiting = true
  · rw [if_pos hwaiting] at h hload
    cases h
    exact ⟨.claim, (Lts.Run.single hload).snoc rfl⟩
  rw [if_neg hwaiting] at h hload
  obtain ⟨dq', henqueue, heq⟩ := map_eq_some_iff.mp h
  cases heq
  refine ⟨.push now, (Lts.Run.single hload).snoc ?_⟩
  show Option.map _ (s.dq.enqueue packet now) = _
  rw [henqueue]
  rfl

/-! ## The invariant -/

inductive Phase (s : Handoff) : Prop where
  | reading (hreader : s.reader = .idle) (hready : s.dq.recvReady = 0) (hchannel : s.channel = [])
      (hproducer : s.producer.handed = [])
  | registered (hreader : s.reader = .waiting) (hready : s.dq.recvReady = 1) (hchannel : s.channel = [])
      (hempty : s.dq.queue.isEmpty = true) (hproducer : s.producer = .idle ∨ ∃ packet, s.producer = .fast packet)
  | claimed (hreader : s.reader = .waiting) (hready : s.dq.recvReady = 0) (hchannel : s.channel = [])
      (hproducer : ∃ packet, s.producer = .handing packet)
  | served (hreader : s.reader = .waiting) (hready : s.dq.recvReady = 0) (hchannel : ∃ packet, s.channel = [packet])
      (hproducer : s.producer.handed = [])

def ahead (key : PacketQueue.FlowKey) : List TrafficPacket :=
  lane key (s.received ++ s.channel ++ s.producer.handed) ++ (s.dq.queue.queued key).map PqPacketInfo.packet

structure Inv (quantum : Nat) (s : Handoff) : Prop where
  kept : s.dq.queue.Kept quantum none
  phase : s.Phase
  ordered : ∀ key, (s.ahead key ++ lane key s.producer.pending).Sublist (lane key s.delivered)

variable (key : PacketQueue.FlowKey)

@[simp] theorem lane_append (ps ps' : List TrafficPacket) :
    lane key (ps ++ ps') = lane key ps ++ lane key ps' := Fifo.lane_append ..

@[simp] theorem lane_nil : lane key [] = [] := rfl

theorem lane_packets (infos : List PqPacketInfo) :
    lane key (infos.map PqPacketInfo.packet) = (Fifo.lane PqPacketInfo.flowKey key infos).map PqPacketInfo.packet := by
  unfold lane Fifo.lane
  rw [List.filter_map]
  rfl

theorem backlog_le_size {quantum : Nat} {q : PacketQueue} (h : q.Kept quantum none) (key : PacketQueue.FlowKey) :
    q.backlog key ≤ q.size := by
  unfold backlog
  cases hf : q.flows.lookup key with
  | none => exact Nat.zero_le _
  | some f =>
    show f.size ≤ q.size
    rw [h.valid.flowSize key f hf, h.valid.size]
    exact HashMap.le_total PacketQueue.Flow.bytes hf

/-! ## What a step does -/

section Steps
variable {quantum : Nat} {s t : Handoff} {codelControlLaw}
variable {packet : TrafficPacket} {now : Instant} {q : PacketQueue}

theorem Step.load (h : Step codelControlLaw s (.load packet) t) : s.producer = .idle ∧ t = { s with
      producer := if s.dq.readerWaiting then .fast packet else .slow packet
      delivered := s.delivered ++ [packet] } := by
  unfold Step at h
  dsimp only [exec] at h
  split at h
  next hidle => exact ⟨hidle, (some.inj h).symm⟩
  · cases h

theorem Step.claim (h : Step codelControlLaw s .claim t) : ∃ packet, s.producer = .fast packet ∧
    t = { s with dq := s.dq.claimReader, producer := .handing packet } := by
  unfold Step at h
  dsimp only [exec] at h
  split at h
  next packet hfast => exact ⟨packet, hfast, (some.inj h).symm⟩
  · cases h

theorem Step.send (h : Step codelControlLaw s .send t) : ∃ packet, s.producer = .handing packet ∧
    t = { s with channel := s.channel ++ [packet], producer := .idle } := by
  unfold Step at h
  dsimp only [exec] at h
  split at h
  next packet hhanding =>
    split at h
    · exact ⟨packet, hhanding, (some.inj h).symm⟩
    · cases h
  · cases h

theorem Step.push (h : Step codelControlLaw s (.push now) t) : ∃ packet queue,
    s.producer = .slow packet ∧ s.dq.queue.push packet now = some queue ∧
      t = { s with dq := { s.dq with queue }, producer := .idle } := by
  unfold Step at h
  dsimp only [exec] at h
  split at h
  next packet hslow =>
    obtain ⟨dq, henqueue, rfl⟩ := map_eq_some_iff.mp h
    obtain ⟨queue, hpush, rfl⟩ := map_eq_some_iff.mp henqueue
    exact ⟨packet, queue, hslow, hpush, rfl⟩
  · cases h

theorem Step.tryPopOrWait (h : Step codelControlLaw s (.tryPopOrWait now) t) : s.reader = .idle ∧
    ∃ r queue, s.dq.queue.popCodel codelControlLaw now = some (r, queue) ∧ t = match r with
        | some packet => { s with dq := { s.dq with queue }, received := s.received ++ [packet] }
        | none => { s with dq := { queue, recvReady := s.dq.recvReady + 1 }, reader := .waiting } := by
  unfold Step at h
  dsimp only [exec] at h
  split at h
  next hidle =>
    obtain ⟨_, htry, rfl⟩ := map_eq_some_iff.mp h
    obtain ⟨⟨r, queue⟩, hpop, rfl⟩ := map_eq_some_iff.mp htry
    refine ⟨hidle, r, queue, hpop, ?_⟩
    cases r with
    | none | some packet => rfl
  · cases h

theorem Step.recv (h : Step codelControlLaw s .recv t) : ∃ packet channel, s.reader = .waiting ∧
    s.channel = packet :: channel ∧ t = { s with channel, reader := .idle, received := s.received ++ [packet] } := by
  unfold Step at h
  dsimp only [exec] at h
  split at h
  next packet channel hwaiting hchannel => exact ⟨packet, channel, hwaiting, hchannel, (some.inj h).symm⟩
  · cases h

/-! ## The steps keep the invariant -/

theorem Inv.load (h : Inv quantum s) (hstep : Step codelControlLaw s (.load packet) t) : Inv quantum t := by
  obtain ⟨hidle, rfl⟩ := hstep.load
  have hordered := fun key => (h.ordered key).append (List.Sublist.refl (lane key [packet]))
  unfold ahead at hordered
  rw [hidle] at hordered
  cases h.phase with
  | reading hreader hready hchannel hproducer =>
    have hslow : s.dq.readerWaiting = false := by simp [DeliveryQueue.readerWaiting, hready]
    refine ⟨h.kept, .reading hreader hready hchannel (by simp [hslow, Producer.handed]), fun key => ?_⟩
    simpa [ahead, hslow, Producer.handed, Producer.pending] using hordered key
  | registered hreader hready hchannel hempty hproducer =>
    have hfast : s.dq.readerWaiting = true := by simp [DeliveryQueue.readerWaiting, hready]
    refine ⟨h.kept, .registered hreader hready hchannel hempty (Or.inr ⟨packet, by simp [hfast]⟩), fun key => ?_⟩
    simpa [ahead, hfast, h.kept.valid.queued_eq_nil hempty, Producer.handed, Producer.pending] using hordered key
  | claimed hreader hready hchannel hproducer =>
    obtain ⟨p, hp⟩ := hproducer
    rw [hidle] at hp
    cases hp
  | served hreader hready hchannel hproducer =>
    have hslow : s.dq.readerWaiting = false := by simp [DeliveryQueue.readerWaiting, hready]
    refine ⟨h.kept, .served hreader hready hchannel (by simp [hslow, Producer.handed]), fun key => ?_⟩
    simpa [ahead, hslow, Producer.handed, Producer.pending] using hordered key

theorem Inv.claim (h : Inv quantum s) (hstep : Step codelControlLaw s .claim t) : Inv quantum t := by
  obtain ⟨packet, hfast, rfl⟩ := hstep.claim
  have hordered := h.ordered
  unfold ahead at hordered
  rw [hfast] at hordered
  cases h.phase with
  | reading _ _ _ hproducer | served _ _ _ hproducer => rw [hfast] at hproducer; cases hproducer
  | registered hreader hready hchannel hempty hproducer =>
    refine ⟨h.kept, .claimed hreader ?_ hchannel ⟨packet, rfl⟩, hordered⟩
    show s.dq.recvReady - 1 = 0
    omega
  | claimed _ _ _ hproducer =>
    obtain ⟨p, hp⟩ := hproducer
    rw [hfast] at hp
    cases hp

theorem Inv.send (h : Inv quantum s) (hstep : Step codelControlLaw s .send t) : Inv quantum t := by
  obtain ⟨packet, hhanding, rfl⟩ := hstep.send
  have hordered := h.ordered
  unfold ahead at hordered
  rw [hhanding] at hordered
  cases h.phase with
  | reading _ _ _ hproducer | served _ _ _ hproducer => rw [hhanding] at hproducer; cases hproducer
  | registered _ _ _ _ hproducer =>
    rw [hhanding] at hproducer
    rcases hproducer with hp | ⟨p, hp⟩ <;> cases hp
  | claimed hreader hready hchannel hproducer =>
    refine ⟨h.kept, .served hreader hready ⟨packet, by rw [hchannel]; rfl⟩ rfl, fun key => ?_⟩
    simpa [ahead, Producer.handed, Producer.pending] using hordered key

theorem queued_enqueue {q' : PacketQueue} (h : q.Kept quantum none) (hpush : q.push packet now = some q') :
    q'.Kept quantum none ∧ ∀ key, ((q'.queued key).map PqPacketInfo.packet).Sublist
      ((q.queued key).map PqPacketInfo.packet ++ lane key [packet]) := by
  obtain ⟨ms, q'', hlog, hkept, hmoves, hputs⟩ := h.pushLog packet now
  rw [← pushLog_erase, hlog] at hpush
  obtain rfl : q'' = q' := some.inj hpush
  refine ⟨hkept, fun key => ?_⟩
  have hall := Fifo.run_conserved hmoves key
  have hrest : (q''.queued key).Sublist (q.queued key ++ Fifo.lane PqPacketInfo.flowKey key (Fifo.puts ms)) := by
    rw [hall]
    exact sublist_append_right _ _
  have hputs' : (Fifo.puts ms).Sublist [{ packet, size := packet.wireSize, time := now }] := by
    rw [hputs]
    split
    · exact nil_sublist _
    · exact List.Sublist.refl _
  have hsub := hrest.trans ((List.Sublist.refl (q.queued key)).append
    (Fifo.lane_sublist PqPacketInfo.flowKey hputs' key))
  have hmap := hsub.map PqPacketInfo.packet
  rwa [map_append, ← lane_packets] at hmap

theorem Inv.push (h : Inv quantum s) (hstep : Step codelControlLaw s (.push now) t) : Inv quantum t := by
  obtain ⟨packet, queue, hslow, hpush, rfl⟩ := hstep.push
  obtain ⟨hkept, hqueued⟩ := queued_enqueue h.kept hpush
  have hordered := h.ordered
  unfold ahead at hordered
  rw [hslow] at hordered
  refine ⟨hkept, ?_, fun key => ?_⟩
  · cases h.phase with
    | reading hreader hready hchannel hproducer => exact .reading hreader hready hchannel rfl
    | registered _ _ _ _ hproducer =>
      rw [hslow] at hproducer
      rcases hproducer with hp | ⟨p, hp⟩ <;> cases hp
    | claimed _ _ _ hproducer =>
      obtain ⟨p, hp⟩ := hproducer
      rw [hslow] at hp
      cases hp
    | served hreader hready hchannel hproducer => exact .served hreader hready hchannel rfl
  refine List.Sublist.trans ?_ (hordered key)
  have hall := (List.Sublist.refl (lane key (s.received ++ s.channel))).append (hqueued key)
  simpa [ahead, Producer.handed, Producer.pending] using hall

theorem queued_popCodel {q' : PacketQueue} {r : Option TrafficPacket} (h : q.Kept quantum none)
    (hpop : q.popCodel codelControlLaw now = some (r, q')) :
    q'.Kept quantum none ∧ (r = none ↔ q.isEmpty = true) ∧ (q.isEmpty = true → q'.isEmpty = true) ∧
      ∀ key, (lane key r.toList ++ (q'.queued key).map PqPacketInfo.packet).Sublist
        ((q.queued key).map PqPacketInfo.packet) := by
  obtain ⟨ds, info, q'', hlog, hkept, hmoves, hcases⟩ := h.popCodelLog codelControlLaw now
  rw [← popCodelLog_erase, hlog] at hpop
  obtain ⟨rfl, rfl⟩ := Prod.mk.inj (some.inj hpop)
  rw [h.valid.isEmpty_iff, hkept.valid.isEmpty_iff]
  refine ⟨hkept, ?_, ?_, fun key => ?_⟩
  · rcases hcases with ⟨hzero, -, rfl, -⟩ | ⟨left, hleft, hdeq⟩
    · exact iff_of_true rfl hzero
    obtain ⟨i, rfl⟩ := isSome_iff_exists.mp hdeq.returns
    exact iff_of_false (by simp) (by omega)
  · intro hzero
    rcases hcases with ⟨-, -, -, hzero'⟩ | ⟨left, hleft, -⟩
    · exact hzero'
    · omega
  have hall := Fifo.run_conserved hmoves key
  rw [Fifo.puts_append, puts_leave, puts_leave, append_nil, Fifo.taken_append,
    map_append, map_snd_taken_leave, map_snd_taken_leave, Fifo.lane_append,
    append_assoc] at hall
  have hlane : lane key (info.map PqPacketInfo.packet).toList =
      (Fifo.lane PqPacketInfo.flowKey key info.toList).map PqPacketInfo.packet := by
    rw [← lane_packets]
    cases info <;> rfl
  have hsub : (Fifo.lane PqPacketInfo.flowKey key info.toList ++ q''.queued key).Sublist (q.queued key) := by
    rw [show q.queued key = q.queued key ++ Fifo.lane PqPacketInfo.flowKey key [] from (append_nil _).symm, hall]
    exact sublist_append_right _ _
  rw [hlane]
  exact map_append ▸ hsub.map PqPacketInfo.packet

theorem Inv.tryPopOrWait (h : Inv quantum s) (hclear : s.Clear (.tryPopOrWait now))
    (hstep : Step codelControlLaw s (.tryPopOrWait now) t) : Inv quantum t := by
  obtain ⟨hidle, r, queue, hpop, rfl⟩ := hstep.tryPopOrWait
  obtain ⟨hkept, hnone, hempty, hqueued⟩ := queued_popCodel h.kept hpop
  have hordered := h.ordered
  unfold ahead at hordered
  cases h.phase with
  | reading _ hready hchannel hproducer =>
    cases r with
    | some packet =>
      refine ⟨hkept, .reading hidle hready hchannel hproducer, fun key => List.Sublist.trans ?_ (hordered key)⟩
      refine List.Sublist.append ?_ (List.Sublist.refl _)
      simpa [ahead, hchannel, hproducer] using hqueued key
    | none =>
      have hwas := hnone.mp rfl
      have hproducer' : s.producer = .idle := by
        cases hp : s.producer with
        | idle => rfl
        | fast packet | handing packet => rw [hp] at hproducer; cases hproducer
        | slow packet =>
          have hpending := hclear hwas
          rw [hp] at hpending
          cases hpending
      refine ⟨hkept, .registered rfl (by rw [hready]) hchannel (hempty hwas) (Or.inl hproducer'),
        fun key => List.Sublist.trans ?_ (hordered key)⟩
      simpa [ahead, hchannel, hproducer] using hqueued key
  | _ => simp_all

theorem Inv.recv (h : Inv quantum s) (hstep : Step codelControlLaw s .recv t) : Inv quantum t := by
  obtain ⟨packet, channel, hwaiting, hchannel, rfl⟩ := hstep.recv
  have hordered := h.ordered
  cases h.phase with
  | served _ hready hone hproducer =>
    obtain ⟨p, hp⟩ := hone
    rw [hchannel] at hp
    cases hp
    refine ⟨h.kept, .reading rfl hready rfl hproducer, fun key => ?_⟩
    simpa [ahead, hchannel] using hordered key
  | _ => simp_all

theorem Inv.step {e : Event} (h : Inv quantum s) (hclear : s.Clear e) (hstep : Step codelControlLaw s e t) :
    Inv quantum t := by
  cases e with
  | load packet => exact h.load hstep
  | claim => exact h.claim hstep
  | send => exact h.send hstep
  | push now => exact h.push hstep
  | tryPopOrWait now => exact h.tryPopOrWait hclear hstep
  | recv => exact h.recv hstep

theorem Inv.new {quantum : Nat} (hfits : (PacketQueue.new quantum).maxBytesTotal < 2 ^ 64) :
    Inv (PacketQueue.new quantum).quantum (Handoff.new quantum) :=
  ⟨Kept.new hfits, .reading rfl rfl rfl rfl, fun _ => List.Sublist.refl _⟩

theorem Inv.not_lostWakeup (h : Inv quantum s) : ¬ s.LostWakeup := by
  rintro ⟨hidle, hwaiting, hchannel, hfull⟩
  cases h.phase with
  | claimed _ _ _ hproducer =>
    obtain ⟨p, hp⟩ := hproducer
    rw [hidle] at hp
    cases hp
  | served _ _ hone _ =>
    obtain ⟨p, hp⟩ := hone
    rw [hchannel] at hp
    cases hp
  | _ => simp_all

theorem Inv.received (h : Inv quantum s) (key : PacketQueue.FlowKey) :
    (lane key s.received).Sublist (lane key s.delivered) := by
  refine List.Sublist.trans ?_ (h.ordered key)
  unfold ahead
  rw [lane_append, lane_append, append_assoc, append_assoc, append_assoc]
  exact sublist_append_left _ _

theorem exists_push_of_isEmpty (h : q.Kept quantum none)
    (hempty : q.isEmpty = true) (hsize : packet.wireSize ≤ quantum * 16) (now : Instant) :
    ∃ q', q.push packet now = some q' ∧ q'.isEmpty = false := by
  have hroom : q.Fits packet := by
    have hper := h.valid.capPerFlow
    have htotal := h.valid.capTotal
    have hbacklog := backlog_le_size h packet.flowKey
    have hzero := beq_iff_eq.mp hempty
    exact ⟨by omega, by omega⟩
  have hpush := push_eq_append h.valid hroom now
  refine ⟨_, hpush, Bool.eq_false_iff.mpr fun hstill => ?_⟩
  have hqueued := Fifo.run_conserved (q.moves_append { packet, size := packet.wireSize, time := now }) packet.flowKey
  rw [h.valid.queued_eq_nil hempty] at hqueued
  have hgone := hqueued.trans ((queued_enqueue h hpush).1.valid.queued_eq_nil hstill packet.flowKey)
  have hlane := (Fifo.lane_singleton PqPacketInfo.flowKey packet.flowKey
    { packet, size := packet.wireSize, time := now }).trans (if_pos rfl)
  exact absurd (hlane.symm.trans hgone) (by simp)

theorem Inv.lostWakeup (h : Inv quantum s) (hempty : s.dq.queue.isEmpty = true)
    (hslow : s.producer = .slow packet) (hsize : packet.wireSize ≤ quantum * 16)
    (hstep : Step codelControlLaw s (.tryPopOrWait now) t) (now' : Instant) :
    ∃ u, Step codelControlLaw t (.push now') u ∧ u.LostWakeup := by
  obtain ⟨hidle, r, queue, hpop, rfl⟩ := hstep.tryPopOrWait
  obtain ⟨hkept, hnone, hempty', -⟩ := queued_popCodel h.kept hpop
  obtain rfl := hnone.mpr hempty
  have hchannel : s.channel = [] := by
    cases h.phase with
    | reading _ _ hchannel _ => exact hchannel
    | _ => simp_all
  obtain ⟨full, hpush, hfull⟩ := exists_push_of_isEmpty hkept (hempty' hempty) hsize now'
  refine ⟨{ s with
    dq := { queue := full, recvReady := s.dq.recvReady + 1 }, reader := .waiting, producer := .idle }, ?_,
    rfl, rfl, hchannel, hfull⟩
  rw [hslow]
  show Option.map _ (Option.map _ (queue.push packet now')) = _
  rw [hpush]
  rfl

end Steps

end Handoff

open Handoff in
/-- If the reader does not register between the two steps of a `deliver`, it never waits beside a packet, and receives
the packets of a flow in order. If it does, it is left waiting beside a packet that the queue takes. -/
theorem delivery_wakes_reader (codelControlLaw : Instant → UInt32 → Instant) (quantum : Nat)
    (hfits : (PacketQueue.new quantum).maxBytesTotal < 2 ^ 64) {es : List Handoff.Event} {s : Handoff}
    (hrun : Lts.Run (Lts.Guarded (Step codelControlLaw) Clear) (Handoff.new quantum) es s) :
    ¬ s.LostWakeup ∧ (∀ key, (lane key s.received).Sublist (lane key s.delivered)) ∧
      ∀ packet now t now', s.producer = .slow packet → s.dq.queue.isEmpty = true →
        packet.wireSize ≤ (PacketQueue.new quantum).quantum * 16 → Step codelControlLaw s (.tryPopOrWait now) t →
        ∃ u, Step codelControlLaw t (.push now') u ∧ u.LostWakeup := by
  have h : Inv (PacketQueue.new quantum).quantum s :=
    hrun.invariant (Inv.new hfits) fun s e t h hstep => h.step hstep.2 hstep.1
  exact ⟨h.not_lostWakeup, h.received, fun packet now t now' hslow hempty hsize hstep =>
    h.lostWakeup hempty hslow hsize hstep now'⟩

def calmEvents : List Handoff.Event :=
  [.load (TrafficPacket.new 0 0 [1]), .push 0, .tryPopOrWait 0, .tryPopOrWait 0,
    .load (TrafficPacket.new 0 0 [2]), .claim,
    .send, .recv]

theorem delivery_wakes_reader_calm : ∃ s,
    Lts.Run (Lts.Guarded (Handoff.Step fun t _ => t) Handoff.Clear) (Handoff.new 0) calmEvents s ∧
    s.received.map TrafficPacket.payload = [[1], [2]] ∧ ¬ s.LostWakeup := by
  have hall : (calmEvents.foldlM (fun (s : Handoff) e => if s.Clear e then s.exec (fun t _ => t) e else none)
      (Handoff.new 0)).any (fun s => s.received.map TrafficPacket.payload = [[1], [2]]) = true := by
    decide +kernel
  obtain ⟨s, hcalm, hs⟩ := (any_eq_true _ _).mp hall
  have hrun : Lts.Run (Lts.Guarded (Handoff.Step fun t _ => t) Handoff.Clear) (Handoff.new 0) calmEvents s := by
    refine (Lts.run_of_foldlM hcalm).mono fun s e t h => ?_
    by_cases hclear : s.Clear e
    · rw [if_pos hclear] at h
      exact ⟨h, hclear⟩
    rw [if_neg hclear] at h
    cases h
  exact ⟨s, hrun, of_decide_eq_true hs, (delivery_wakes_reader (fun t _ => t) 0 (by decide) hrun).1⟩

def raceEvents : List Handoff.Event := [.load (TrafficPacket.new 0 0 [1]), .tryPopOrWait 0, .push 0]

def overtakeEvents : List Handoff.Event := [.load (TrafficPacket.new 0 0 [2]), .claim, .send, .recv, .tryPopOrWait 0]

/-- The reader waits beside a queued packet, and receives it after the next packet of the same flow. -/
theorem delivery_lost_wakeup : ∃ s t,
    Lts.Run (Handoff.Step fun t _ => t) (Handoff.new 0) raceEvents s ∧ s.LostWakeup ∧
    Lts.Run (Handoff.Step fun t _ => t) s overtakeEvents t ∧
    t.delivered.map TrafficPacket.payload = [[1], [2]] ∧ t.received.map TrafficPacket.payload = [[2], [1]] := by
  have hall : (raceEvents.foldlM (Handoff.exec fun t _ => t) (Handoff.new 0)).any (fun s =>
      s.LostWakeup ∧ (overtakeEvents.foldlM (Handoff.exec fun t _ => t) s).any fun t =>
        t.delivered.map TrafficPacket.payload = [[1], [2]] ∧ t.received.map TrafficPacket.payload = [[2], [1]]) =
          true := by
    decide +kernel
  obtain ⟨s, hrace, hs⟩ := (any_eq_true _ _).mp hall
  obtain ⟨hlost, hmore⟩ := of_decide_eq_true hs
  obtain ⟨t, hovertake, ht⟩ := (any_eq_true _ _).mp hmore
  exact ⟨s, t, Lts.run_of_foldlM hrace, hlost, Lts.run_of_foldlM hovertake, of_decide_eq_true ht⟩

end Yggdrasil
