import Yggdrasil.Peer.Channels
import Yggdrasil.Traffic.Delivery

/-!
# The writer of a connection

`peer_writer` of `peers.rs` next to producers that push a packet to the traffic queue and then notify, a reader that
asks for keepalives and clears the read deadline, and senders of protocol frames. A step is one section of the loop
without an await, or the outcome of one write or flush; `Notify` holds at most one permit. If several branches of the
select are ready, any of them may be taken. `last_write` and `sig_req_sent` are left out.

`stream` is what the `BufWriter` has taken; after a flush all of it is on its way to the peer. `unflushed` is what a
write or a flush that failed has left in the buffer: the next flush sends it as well, and `shutdown` sends as much of it
as it can.
-/

namespace Yggdrasil
open Lts (Run Guarded)
open Channels (PeerMessage)

def MAX_DRAIN_PER_ITER : Nat := 96

def peekFrameType (data : Bytes) : Option PacketType :=
  match data.dropWhile fun b => b &&& 0x80 != 0 with
  | _ :: ptype :: _ => (PacketType.tryFrom ptype).toOption
  | _ => none

def needsDeadline (data : Bytes) : Bool := (peekFrameType data).any fun p => p != .keepAlive && p != .dummy

def keepaliveFrame : Bytes := encodeFrame .keepAlive []

theorem keepaliveFrame_eq : keepaliveFrame = [1, 1] := by
  rw [keepaliveFrame, encodeFrame, encodeUvarint_eq]
  rfl

def drainBatch (codelControlLaw : Instant → UInt32 → Instant) (now : Instant) :
    Nat → PacketQueue → Option (List TrafficPacket × PacketQueue)
  | 0, queue => some ([], queue)
  | n + 1, queue => do
    let r ← queue.popCodel codelControlLaw now
    match r.1 with
    | some traffic => (drainBatch codelControlLaw now n r.2).map fun b => (traffic :: b.1, b.2)
    | none => some ([], r.2)

namespace PeerWriter

inductive Site where
  | message
  | coalesced
  | traffic
  | keepalive
deriving DecidableEq

inductive Phase where
  | select
  /-- `done` is written and not flushed, `rest` is to be written; the flush follows the last frame -/
  | io (site : Site) (done rest : List Bytes)
  | coalesce
  | drainCheck
  | lock
  | drained (batch : List TrafficPacket)
  | keepaliveCheck
  | cancelling
  | shutdown
  | removing
  | gone
deriving DecidableEq

def Phase.ending : Phase → Bool
  | cancelling | shutdown | removing | gone => true
  | _ => false

def Phase.drains : Phase → Bool
  | io .message _ _ | io .coalesced _ _ | coalesce | drainCheck | lock => true
  | drained batch => batch.length == MAX_DRAIN_PER_ITER
  | phase => phase.ending

namespace Site

def after : Site → Phase
  | message => .drainCheck
  | coalesced => .coalesce
  | traffic => .keepaliveCheck
  | keepalive => .select

/-- What follows a write or a flush that fails: only the loop over `try_recv` is left for a coalesced frame. -/
def failed : Site → Phase
  | coalesced => .drainCheck
  | _ => .cancelling

def arms (frames : List Bytes) : Site → Bool
  | message => frames.any needsDeadline
  | traffic => !frames.isEmpty
  | _ => false

end Site

end PeerWriter

structure PeerWriter where
  phase : PeerWriter.Phase
  rx : List PeerMessage
  closed : Bool
  queue : PacketQueue
  permit : Bool
  notifying : Nat
  keepaliveOwed : Bool
  readDeadline : Option Instant
  cancelled : Bool
  removed : Bool
  handed : List Bytes
  stream : Bytes
  unflushed : List Bytes
  answered : Bool
  /-- a frame that expects an answer was flushed, and the deadline is not armed since -/
  unarmed : Bool

namespace PeerWriter

def start (pmtu : Nat) : PeerWriter :=
  { phase := .select, rx := [], closed := false, queue := PacketQueue.new pmtu, permit := false, notifying := 0,
    keepaliveOwed := false, readDeadline := none, cancelled := false, removed := false, handed := [], stream := [],
    unflushed := [], answered := true, unarmed := false }

inductive Event where
  | send (msg : PeerMessage)
  | close
  | push (packet : TrafficPacket) (now : Instant)
  | notify
  | clear
  | cancel
  | leave
  | recv
  | notified
  | idle
  | wrote
  | writeFailed (n : Nat)
  | flushed (expires : Instant)
  | flushFailed
  | drain (now : Instant)
  | step

def Event.fails : Event → Bool
  | writeFailed _ | flushFailed => true
  | _ => false

def flush (w : PeerWriter) (site : Site) (frames : List Bytes) (expires : Instant) : PeerWriter :=
  let readDeadline := if site.arms frames then some (w.readDeadline.getD expires) else w.readDeadline
  { w with
    phase := site.after
    keepaliveOwed := w.keepaliveOwed && frames.isEmpty
    answered := w.answered || !frames.isEmpty
    readDeadline
    unflushed := []
    unarmed := readDeadline.isNone && (w.unarmed || (w.unflushed ++ frames).any needsDeadline) }

variable (codelControlLaw : Instant → UInt32 → Instant)

inductive Step : PeerWriter → Event → PeerWriter → Prop
  | send {w} (msg) : Step w (.send msg) { w with rx := w.rx ++ [msg] }
  | close {w} : Step w .close { w with closed := true }
  | push {w queue} (packet now) (hpush : w.queue.push packet now = some queue) :
    Step w (.push packet now) { w with queue, notifying := w.notifying + 1 }
  | notify {w} (hone : 0 < w.notifying) : Step w .notify { w with notifying := w.notifying - 1, permit := true }
  | clear {w} : Step w .clear { w with readDeadline := none }
  | cancel {w} : Step w .cancel { w with cancelled := true }
  | leave {w} (hphase : w.phase = .select) (hend : w.cancelled = true ∨ w.closed = true ∧ w.rx = []) :
    Step w .leave { w with phase := .cancelling }
  | recvFrame {w data rx} (hphase : w.phase = .select) (hrx : w.rx = .sendFrame data :: rx) :
    Step w .recv { w with rx, phase := .io .message [] [data] }
  | recvKeepalive {w rx} (hphase : w.phase = .select ∨ w.phase = .coalesce) (hrx : w.rx = .scheduleKeepalive :: rx) :
    Step w .recv { w with rx, phase := .coalesce, keepaliveOwed := true, answered := false }
  | tryRecvFrame {w data rx} (hphase : w.phase = .coalesce) (hrx : w.rx = .sendFrame data :: rx) :
    Step w .recv { w with rx, phase := .io .coalesced [] [data] }
  | tryRecvEmpty {w} (hphase : w.phase = .coalesce) (hrx : w.rx = []) : Step w .step { w with phase := .drainCheck }
  | notified {w} (hphase : w.phase = .select) (hpermit : w.permit = true) :
    Step w .notified { w with permit := false, phase := .drainCheck }
  | idle {w} (hphase : w.phase = .select) : Step w .idle { w with phase := .io .keepalive [] [keepaliveFrame] }
  | wrote {w site done frame rest} (hphase : w.phase = .io site done (frame :: rest)) :
    Step w .wrote
      { w with
        phase := .io site (done ++ [frame]) rest
        handed := w.handed ++ [frame]
        stream := w.stream ++ frame }
  | writeFailed {w site done frame rest} (n) (hphase : w.phase = .io site done (frame :: rest))
    (hn : n ≤ frame.length) :
    Step w (.writeFailed n)
      { w with
        phase := site.failed
        handed := w.handed ++ [frame]
        stream := w.stream ++ frame.take n
        unflushed := w.unflushed ++ done ++ [frame.take n] }
  | flushed {w site done} (expires) (hphase : w.phase = .io site done []) :
    Step w (.flushed expires) (w.flush site done expires)
  | flushFailed {w site done} (hphase : w.phase = .io site done []) :
    Step w .flushFailed { w with phase := site.failed, unflushed := w.unflushed ++ done }
  | drainCheck {w} (hphase : w.phase = .drainCheck) :
    Step w .step { w with phase := if w.rx.isEmpty then .lock else .keepaliveCheck }
  | drain {w batch queue} (now) (hphase : w.phase = .lock)
    (hbatch : drainBatch codelControlLaw now MAX_DRAIN_PER_ITER w.queue = some (batch, queue)) :
    Step w (.drain now) { w with queue, phase := .drained batch }
  | drained {w batch} (hphase : w.phase = .drained batch) :
    Step w .step
      { w with
        permit := w.permit || batch.length == MAX_DRAIN_PER_ITER
        phase := .io .traffic [] (batch.map fun t =>
          encodeTrafficFrame t.path t.fromPath t.source t.dest t.watermark t.payload) }
  | keepaliveCheck {w} (hphase : w.phase = .keepaliveCheck) :
    Step w .step { w with
      phase := if w.keepaliveOwed && w.rx.isEmpty then .io .keepalive [] [keepaliveFrame] else .select }
  | cancelling {w} (hphase : w.phase = .cancelling) : Step w .step { w with phase := .shutdown, cancelled := true }
  | shutdown {w} (sent : Nat) (hphase : w.phase = .shutdown) :
    Step w .step { w with phase := .removing, unflushed := w.unflushed.drop sent }
  | removing {w} (hphase : w.phase = .removing) : Step w .step { w with phase := .gone, removed := true }

variable {codelControlLaw} {quantum pmtu : Nat} {w v : PeerWriter} {e : Event} {es : List Event}

/-! ## The writer does not sleep on work -/

theorem drainBatch_kept (codelControlLaw) (now : Instant) (n : Nat) : ∀ {q : PacketQueue}, q.Kept quantum none →
    ∃ batch q', drainBatch codelControlLaw now n q = some (batch, q') ∧ q'.Kept quantum none ∧
      (batch.length = n ∨ q'.isEmpty = true) := by
  induction n with
  | zero => exact fun {q} h => ⟨[], q, rfl, h, .inl rfl⟩
  | succ n ih =>
    intro q h
    obtain ⟨ds, info, q', hlog, -⟩ := h.popCodelLog codelControlLaw now
    have hpop : q.popCodel codelControlLaw now = some (info.map PacketQueue.PqPacketInfo.packet, q') := by
      rw [← PacketQueue.popCodelLog_erase, hlog]
      rfl
    generalize info.map PacketQueue.PqPacketInfo.packet = r at hpop
    obtain ⟨hkept, hnone, hempty, -⟩ := Handoff.queued_popCodel h hpop
    rw [drainBatch, hpop]
    cases r with
    | none => exact ⟨[], q', rfl, hkept, .inr (hempty (hnone.mp rfl))⟩
    | some traffic =>
      obtain ⟨batch, q'', hbatch, hkept', hend⟩ := ih hkept
      refine ⟨traffic :: batch, q'', ?_, hkept', ?_⟩
      · show Option.map _ (drainBatch codelControlLaw now n q') = _
        rw [hbatch]
        rfl
      · simpa using hend

def Formed (w : PeerWriter) : Prop := ∀ done rest, w.phase = .io .keepalive done rest → done ++ rest = [keepaliveFrame]

theorem Formed.step (h : Formed w) (hstep : Step codelControlLaw w e v) : Formed v := by
  intro done rest hv
  cases hstep with
  | wrote hphase =>
    obtain ⟨rfl, rfl, rfl⟩ := hv
    simpa using h _ _ hphase
  | @writeFailed site _ _ _ n hphase hn | @flushFailed site _ hphase =>
    cases site <;> simp [Site.failed] at hv
  | @flushed site _ expires hphase =>
    cases site <;> simp [flush, Site.after] at hv
  | drainCheck hphase => cases hrx : w.rx.isEmpty <;> simp [hrx] at hv
  | keepaliveCheck hphase =>
    split at hv
    · simp only [Phase.io.injEq] at hv
      obtain ⟨-, rfl, rfl⟩ := hv
      rfl
    · simp at hv
  | idle =>
    obtain ⟨-, rfl, rfl⟩ := hv
    rfl
  | _ => first | exact h _ _ hv | simp at hv

/-- No work is left without something that leads to it. -/
structure Awake (quantum : Nat) (w : PeerWriter) : Prop where
  kept : w.queue.Kept quantum none
  queue : w.queue.isEmpty = true ∨ w.permit = true ∨ 0 < w.notifying ∨ w.rx ≠ [] ∨ w.phase.drains = true
  owed : w.keepaliveOwed = true → w.rx ≠ [] ∨ w.phase ≠ .select
  answered : w.keepaliveOwed = true ∨ w.answered = true

theorem Awake.step (h : Awake quantum w) (hformed : Formed w) (hstep : Step codelControlLaw w e v) :
    Awake quantum v := by
  obtain ⟨hkept, hqueue, howed, hanswered⟩ := h
  cases hstep with
  | push packet now hpush =>
    obtain ⟨hkept', -⟩ := Handoff.queued_enqueue hkept hpush
    exact ⟨hkept', by simp, howed, hanswered⟩
  | drain now hphase hbatch =>
    obtain ⟨batch', q', heq, hkept', hend⟩ := drainBatch_kept codelControlLaw now MAX_DRAIN_PER_ITER hkept
    rw [hbatch] at heq
    obtain ⟨rfl, rfl⟩ := Prod.mk.inj (Option.some.inj heq)
    refine ⟨hkept', ?_, by simp, hanswered⟩
    obtain hfull | hempty := hend
    · simp [Phase.drains, hfull]
    · exact .inl hempty
  | @wrote site _ _ _ hphase =>
    refine ⟨hkept, ?_, by simp, hanswered⟩
    rw [hphase] at hqueue
    cases site <;> exact hqueue
  | @writeFailed site _ _ _ n hphase hn | @flushFailed site _ hphase =>
    refine ⟨hkept, ?_, ?_, hanswered⟩ <;> cases site <;> simp [Site.failed, Phase.drains, Phase.ending]
  | @flushed site done expires hphase =>
    rw [hphase] at hqueue
    refine ⟨hkept, ?_, ?_, ?_⟩
    · cases site <;> simp_all [flush, Site.after, Phase.drains, Phase.ending]
    · cases site with
      | keepalive =>
        have hdone : done = [keepaliveFrame] := by simpa using hformed _ _ hphase
        simp [flush, hdone]
      | _ => simp [flush, Site.after]
    · cases done <;> simp_all [flush]
  | keepaliveCheck hphase =>
    rw [hphase] at hqueue
    refine ⟨hkept, ?_, fun ho => ?_, hanswered⟩
    · obtain hq | hq | hq | hq | hq := hqueue <;> simp_all [Phase.drains, Phase.ending]
    dsimp only at ho ⊢
    cases hrx : w.rx <;> simp [ho]
  | drainCheck hphase =>
    refine ⟨hkept, ?_, fun _ => ?_, hanswered⟩ <;> cases hrx : w.rx <;> simp [Phase.drains]
  | drained hphase =>
    rw [hphase] at hqueue
    refine ⟨hkept, ?_, by simp, hanswered⟩
    simp only [Phase.drains, Bool.or_eq_true] at hqueue ⊢
    tauto
  | _ => refine ⟨hkept, ?_, ?_, ?_⟩ <;> simp_all [Phase.drains, Phase.ending]

/-- A writer that waits in the select, with an empty channel and no permit, has nothing to do: no packet is queued
unless a producer is about to notify, and the peer has its answer. -/
theorem writer_never_sleeps_on_work (hfits : (PacketQueue.new pmtu).maxBytesTotal < 2 ^ 64)
    (hrun : Run (Step codelControlLaw) (start pmtu) es w) (hselect : w.phase = .select) (hrx : w.rx = [])
    (hpermit : w.permit = false) : (w.queue.isEmpty = true ∨ 0 < w.notifying) ∧ w.answered = true := by
  have hstart : Formed (start pmtu) ∧ Awake (PacketQueue.new pmtu).quantum (start pmtu) :=
    ⟨by simp [Formed, start], PacketQueue.Kept.new hfits, .inl rfl, by simp [start], .inr rfl⟩
  obtain ⟨-, -, hqueue, howed, hanswered⟩ := hrun.invariant (I := fun w => Formed w ∧ Awake _ w) hstart
    fun _ _ _ h hstep => ⟨h.1.step hstep, h.2.step h.1 hstep⟩
  rw [hselect, hrx] at howed
  rw [hselect, hrx, hpermit] at hqueue
  refine ⟨by simpa [Phase.drains, Phase.ending] using hqueue, hanswered.resolve_left fun ho => ?_⟩
  simpa using howed ho

/-- The keepalive that a peer is owed, with nothing else to send. -/
theorem keepalive_answered : ∃ w, Run (Step fun t _ => t) (start 1024)
    [.send .scheduleKeepalive, .recv, .step, .step, .drain 0, .step, .flushed 0, .step, .wrote, .flushed 0] w ∧
    (w.queue.isEmpty = true ∨ 0 < w.notifying) ∧ w.answered = true := by
  have hrun := (Run.nil _ : Run (Step fun t _ => t) (start 1024) [] _).snoc (.send .scheduleKeepalive)
    |>.snoc (.recvKeepalive (.inl rfl) rfl) |>.snoc (.tryRecvEmpty rfl rfl) |>.snoc (.drainCheck rfl)
    |>.snoc (.drain 0 rfl rfl) |>.snoc (.drained rfl) |>.snoc (.flushed 0 rfl)
    |>.snoc (.keepaliveCheck rfl) |>.snoc (.wrote rfl) |>.snoc (.flushed 0 rfl)
  exact ⟨_, hrun, writer_never_sleeps_on_work (by decide) hrun rfl rfl rfl⟩

/-! ## After a failure -/

/-- The connection has accepted the frames up to the one that failed, and the ending follows its order. -/
structure Stops (w : PeerWriter) : Prop where
  stream : w.stream <+: w.handed.flatten
  whole : w.phase.ending = true ∨ w.stream = w.handed.flatten
  cancelled : w.phase.ending = true → w.phase ≠ .cancelling → w.cancelled = true
  removed : w.phase = .gone → w.removed = true

def FailsUncoalesced (w : PeerWriter) (e : Event) : Prop :=
  e.fails = true → ∀ done rest, w.phase ≠ .io .coalesced done rest

theorem Site.failed_eq {site : Site} {done rest : List Bytes} (hphase : w.phase = .io site done rest)
    (he : e.fails = true) (hcond : FailsUncoalesced w e) : site.failed = .cancelling := by
  cases site with
  | coalesced => exact absurd hphase (hcond he done rest)
  | _ => rfl

theorem Stops.step (h : Stops w) (hstep : Step codelControlLaw w e v) (hfails : FailsUncoalesced w e) : Stops v := by
  obtain ⟨hstream, hwhole, hcancelled, hremoved⟩ := h
  cases hstep with
  | @wrote site done frame rest hphase =>
    have heq : w.stream = w.handed.flatten := by simpa [hphase, Phase.ending] using hwhole
    exact ⟨by simp [heq], by simp [heq], by simp [Phase.ending], by simp⟩
  | @writeFailed site done frame rest n hphase hn =>
    have heq : w.stream = w.handed.flatten := by simpa [hphase, Phase.ending] using hwhole
    have hsite := Site.failed_eq hphase rfl hfails
    refine ⟨?_, by simp [hsite, Phase.ending], by simp [hsite], by simp [hsite]⟩
    simp only [heq, List.flatten_append, List.flatten_singleton]
    exact (List.prefix_append_right_inj _).mpr (List.take_prefix n frame)
  | @flushFailed site done hphase =>
    have hsite := Site.failed_eq hphase rfl hfails
    exact ⟨hstream, by simp [hsite, Phase.ending], by simp [hsite], by simp [hsite]⟩
  | @flushed site done expires hphase =>
    have heq : w.stream = w.handed.flatten := by simpa [hphase, Phase.ending] using hwhole
    refine ⟨hstream, .inr heq, ?_, ?_⟩ <;> cases site <;> simp [flush, Site.after, Phase.ending]
  | drainCheck hphase | keepaliveCheck hphase =>
    rw [hphase] at hwhole
    refine ⟨hstream, .inr (by simpa [Phase.ending] using hwhole), ?_, ?_⟩ <;> dsimp only <;> split <;>
      simp [Phase.ending]
  | recvKeepalive hphase hrx =>
    refine ⟨hstream, .inr ?_, by simp [Phase.ending], by simp⟩
    obtain hphase | hphase := hphase <;> simpa [hphase, Phase.ending] using hwhole
  | _ => refine ⟨hstream, ?_, ?_, ?_⟩ <;> simp_all [Phase.ending]

theorem Step.ending (h : Step codelControlLaw w e v) (hend : w.phase.ending = true) :
    v.phase.ending = true ∧ v.stream = w.stream ∧ v.handed = w.handed := by
  cases h with
  | recvKeepalive hphase hrx => obtain hphase | hphase := hphase <;> simp [hphase, Phase.ending] at hend
  | _ => simp_all [Phase.ending]

theorem Step.fails (h : Step codelControlLaw w e v) (he : e.fails = true) (hcond : FailsUncoalesced w e) :
    v.phase.ending = true := by
  cases h with
  | writeFailed n hphase hn | flushFailed hphase =>
    rw [Site.failed_eq hphase he hcond]
    rfl
  | _ => simp [Event.fails] at he

/-- A writer that is ending can come to its end. -/
theorem exists_run_gone (codelControlLaw) (h : Stops w) (hend : w.phase.ending = true) :
    ∃ es v, Run (Step codelControlLaw) w es v ∧ v.phase = .gone ∧ v.cancelled = true ∧ v.removed = true := by
  obtain ⟨-, -, hcancelled, hremoved⟩ := h
  cases hphase : w.phase with
  | cancelling =>
    have hrun := (Run.single (.cancelling hphase : Step codelControlLaw w .step _)).snoc (.shutdown 0 rfl)
    exact ⟨_, _, hrun.snoc (.removing rfl), rfl, rfl, rfl⟩
  | shutdown =>
    have hrun := (Run.single (.shutdown 0 hphase : Step codelControlLaw w .step _)).snoc (.removing rfl)
    exact ⟨_, _, hrun, rfl, hcancelled hend (by simp [hphase]), rfl⟩
  | removing =>
    have hrun := Run.single (.removing hphase : Step codelControlLaw w .step _)
    exact ⟨_, _, hrun, rfl, hcancelled hend (by simp [hphase]), rfl⟩
  | gone => exact ⟨[], w, Run.nil w, hphase, hcancelled hend (by simp [hphase]), hremoved hphase⟩
  | _ => simp [hphase, Phase.ending] at hend

/-- The bytes that the peer sees are a prefix of whole frames, and after a failure no byte follows: the writer cancels
the connection and removes the peer. -/
theorem writer_fail_stop
    (hrun : Run (Guarded (Step codelControlLaw) FailsUncoalesced) (start pmtu) es w) : w.stream <+: w.handed.flatten ∧
    ∀ before e after, es = before ++ e :: after → e.fails = true →
      (∃ v, Run (Step codelControlLaw) (start pmtu) (before ++ [e]) v ∧ w.stream = v.stream ∧ w.handed = v.handed) ∧
      w.phase.ending = true ∧
      ∃ es' v, Run (Step codelControlLaw) w es' v ∧ v.phase = .gone ∧ v.cancelled = true ∧ v.removed = true := by
  have hstart : Stops (start pmtu) := ⟨by simp [start], .inr rfl, by simp [start, Phase.ending], by simp [start]⟩
  have hstops : Stops w := hrun.invariant hstart fun _ _ _ h hstep => h.step hstep.1 hstep.2
  refine ⟨hstops.stream, ?_⟩
  rintro before e after rfl hfails
  obtain ⟨u, v, hbefore, ⟨hstep, hcond⟩, hafter⟩ := hrun.exists_step
  have hfirst := (hbefore.mono fun _ _ _ h => h.1).snoc hstep
  have hv := hstep.fails hfails hcond
  obtain ⟨hend, hsame⟩ := hafter.invariant
    (I := fun x => x.phase.ending = true ∧ x.stream = v.stream ∧ x.handed = v.handed) ⟨hv, rfl, rfl⟩
    fun x _ y hx hxy => by
      obtain ⟨hend, hstream, hhanded⟩ := hxy.1.ending hx.1
      exact ⟨hend, hstream.trans hx.2.1, hhanded.trans hx.2.2⟩
  exact ⟨⟨v, hfirst, hsame⟩, hend, exists_run_gone codelControlLaw hstops hend⟩

/-- An idle writer fails after one byte of the keepalive. -/
theorem fail_stop_keepalive : ∃ w, Run (Guarded (Step fun t _ => t) FailsUncoalesced) (start 1024)
    [.idle, .writeFailed 1, .step] w ∧ w.stream <+: w.handed.flatten := by
  have hrun := (Run.nil _ : Run (Guarded (Step fun t _ => t) FailsUncoalesced) (start 1024) [] _).snoc
    ⟨.idle rfl, by simp [FailsUncoalesced, Event.fails]⟩
    |>.snoc ⟨.writeFailed 1 rfl (by simp [keepaliveFrame_eq]), by simp [FailsUncoalesced]⟩
    |>.snoc ⟨.cancelling rfl, by simp [FailsUncoalesced, Event.fails]⟩
  exact ⟨_, hrun, (writer_fail_stop hrun).1⟩

def sigReq : Bytes := [3, 2, 7, 7]

/-- The flush of the frame fails while keepalives are coalesced; the keepalive is written after it, and the connection
stays open. -/
theorem writer_fails_on : ∃ w, Run (Step fun t _ => t) (start 1024)
    [.send .scheduleKeepalive, .send (.sendFrame sigReq), .recv, .recv, .wrote, .flushFailed, .step, .drain 0, .step,
      .flushed 0, .step, .wrote, .flushed 0] w ∧
    w.handed = [sigReq, keepaliveFrame] ∧ w.phase = .select ∧ w.cancelled = false := by
  have hrun := (Run.nil _ : Run (Step fun t _ => t) (start 1024) [] _).snoc (.send .scheduleKeepalive)
    |>.snoc (.send (.sendFrame sigReq)) |>.snoc (.recvKeepalive (.inl rfl) rfl) |>.snoc (.tryRecvFrame rfl rfl)
    |>.snoc (.wrote rfl) |>.snoc (.flushFailed rfl) |>.snoc (.drainCheck rfl) |>.snoc (.drain 0 rfl rfl)
    |>.snoc (.drained rfl) |>.snoc (.flushed 0 rfl) |>.snoc (.keepaliveCheck rfl) |>.snoc (.wrote rfl)
    |>.snoc (.flushed 0 rfl)
  exact ⟨_, hrun, rfl, rfl, rfl⟩

/-! ## The deadline -/

/-- A flush that does not arm the deadline sends a frame that expects an answer, taken among keepalives now or before a
failure, only while it is armed. -/
def CoalescedArmed (w : PeerWriter) (e : Event) : Prop := ∀ expires site done, e = .flushed expires →
  w.phase = .io site done [] → site.arms done = false →
    (w.unflushed ++ if site = .coalesced then done else []).any needsDeadline = true → w.readDeadline.isSome = true

theorem needsDeadline_keepaliveFrame : needsDeadline keepaliveFrame = false := by
  rw [keepaliveFrame_eq]
  rfl

/-- The writer arms the deadline for its own frames, except for those taken among keepalives. -/
theorem any_needsDeadline_of_not_arms {site : Site} {done : List Bytes} (hformed : Formed w)
    (hphase : w.phase = .io site done []) (harms : site.arms done = false) :
    done.any needsDeadline = (if site = .coalesced then done else []).any needsDeadline := by
  cases site with
  | message => exact harms
  | coalesced => rfl
  | traffic =>
    have hdone : done = [] := by simpa [Site.arms] using harms
    rw [hdone]
    rfl
  | keepalive =>
    have hdone : done = [keepaliveFrame] := by simpa using hformed _ _ hphase
    simp [hdone, needsDeadline_keepaliveFrame]

/-- One step arms the deadline exactly if it meets the condition. -/
theorem unarmed_step_iff (h : w.unarmed = false) (hformed : Formed w) (hstep : Step codelControlLaw w e v) :
    v.unarmed = false ↔ CoalescedArmed w e := by
  cases hstep with
  | @flushed site done expires hphase =>
    have hcond : CoalescedArmed w (.flushed expires) ↔ (site.arms done = false →
        (w.unflushed ++ done).any needsDeadline = true → w.readDeadline.isSome = true) := by
      constructor
      · intro hcond harms hneeds
        refine hcond expires site done rfl hphase harms ?_
        rwa [List.any_append, ← any_needsDeadline_of_not_arms hformed hphase harms, ← List.any_append]
      · rintro hcond _ site' done' - hphase' harms hneeds
        rw [hphase] at hphase'
        cases hphase'
        refine hcond harms ?_
        rwa [List.any_append, any_needsDeadline_of_not_arms hformed hphase harms, ← List.any_append]
    rw [hcond, flush]
    cases site.arms done <;> cases w.readDeadline <;> simp [h]
  | _ => exact iff_of_true h fun _ _ _ he => nomatch he

/-- After every flush of a frame that expects an answer the deadline is armed, as long as the condition is met; and
after the next step exactly if that step meets it. -/
theorem writer_arms_deadline (hrun : Run (Guarded (Step codelControlLaw) CoalescedArmed) (start pmtu) es w) :
    w.unarmed = false ∧ ∀ e v, Step codelControlLaw w e v → (v.unarmed = false ↔ CoalescedArmed w e) := by
  obtain ⟨harmed, hformed⟩ := hrun.invariant (I := fun w => w.unarmed = false ∧ Formed w) ⟨rfl, by simp [Formed, start]⟩
    fun _ _ _ h hstep => ⟨(unarmed_step_iff h.1 h.2 hstep.1).mpr hstep.2, h.2.step hstep.1⟩
  exact ⟨harmed, fun e v => unarmed_step_iff harmed hformed⟩

theorem CoalescedArmed.of_armed (h : w.readDeadline.isSome = true) : CoalescedArmed w e := fun _ _ _ _ _ _ _ => h

/-- A frame taken among keepalives, whose flush fails, is sent with the next flush; the deadline is armed since the
frame before it. -/
theorem arms_deadline_message : ∃ w, Run (Guarded (Step fun t _ => t) CoalescedArmed) (start 1024)
    [.send (.sendFrame sigReq), .send .scheduleKeepalive, .send (.sendFrame sigReq), .recv, .wrote, .flushed 5, .step,
      .step, .recv, .recv, .wrote, .flushFailed, .step, .drain 0, .step, .flushed 6] w ∧
    w.handed = [sigReq, sigReq] ∧ w.unflushed = [] ∧ w.readDeadline = some 5 ∧ w.unarmed = false := by
  have hrun := (Run.nil _ : Run (Guarded (Step fun t _ => t) CoalescedArmed) (start 1024) [] _).snoc
    ⟨.send (.sendFrame sigReq), nofun⟩ |>.snoc ⟨.send .scheduleKeepalive, nofun⟩
    |>.snoc ⟨.send (.sendFrame sigReq), nofun⟩ |>.snoc ⟨.recvFrame rfl rfl, nofun⟩ |>.snoc ⟨.wrote rfl, nofun⟩
    |>.snoc ⟨.flushed 5 rfl, by simp [CoalescedArmed, start]⟩ |>.snoc ⟨.drainCheck rfl, .of_armed rfl⟩
    |>.snoc ⟨.keepaliveCheck rfl, .of_armed rfl⟩ |>.snoc ⟨.recvKeepalive (.inl rfl) rfl, .of_armed rfl⟩
    |>.snoc ⟨.tryRecvFrame rfl rfl, .of_armed rfl⟩ |>.snoc ⟨.wrote rfl, .of_armed rfl⟩
    |>.snoc ⟨.flushFailed rfl, .of_armed rfl⟩ |>.snoc ⟨.drainCheck rfl, .of_armed rfl⟩
    |>.snoc ⟨.drain 0 rfl rfl, .of_armed rfl⟩ |>.snoc ⟨.drained rfl, .of_armed rfl⟩
    |>.snoc ⟨.flushed 6 rfl, .of_armed rfl⟩
  exact ⟨_, hrun, rfl, rfl, rfl, (writer_arms_deadline hrun).1⟩

/-- The frame is sent among keepalives, and the writer waits again without a deadline. -/
theorem coalesced_unarmed : ∃ w, Run (Step fun t _ => t) (start 1024)
    [.send .scheduleKeepalive, .send (.sendFrame sigReq), .recv, .recv, .wrote, .flushed 0, .step, .step, .drain 0,
      .step, .flushed 0, .step] w ∧
    w.phase = .select ∧ w.stream = sigReq ∧ w.readDeadline = none ∧ w.unarmed = true := by
  have hrun := (Run.nil _ : Run (Step fun t _ => t) (start 1024) [] _).snoc (.send .scheduleKeepalive)
    |>.snoc (.send (.sendFrame sigReq)) |>.snoc (.recvKeepalive (.inl rfl) rfl) |>.snoc (.tryRecvFrame rfl rfl)
    |>.snoc (.wrote rfl) |>.snoc (.flushed 0 rfl) |>.snoc (.tryRecvEmpty rfl rfl) |>.snoc (.drainCheck rfl)
    |>.snoc (.drain 0 rfl rfl) |>.snoc (.drained rfl) |>.snoc (.flushed 0 rfl) |>.snoc (.keepaliveCheck rfl)
  exact ⟨_, hrun, rfl, rfl, rfl, rfl⟩

end PeerWriter

end Yggdrasil
