import Yggdrasil.Peer.Timeout
import Yggdrasil.Wire.Frames

/-!
# A silent peer

`peer_reader` in time, next to a writer that arms the read deadline. The reader waits for the length of the next frame,
with a timer that wakes it to look at the deadline, and for the body of a frame, without one. Bytes arrive, the writer
arms the deadline, the reader takes a step as soon as it can, or the clock moves on; a timer is at most `late`.
-/

namespace Yggdrasil
open Nat PeerTimeoutCtrl Duration
open Lts (Run Guarded)

inductive Exit where
  | cancelled
  | timeout
  | error (e : Error)
deriving DecidableEq

inductive Phase where
  | poll
  | awaitLen (wake : Instant)
  | awaitBody (frameLen : Nat)
  | done (exit : Exit)
deriving DecidableEq

structure ReaderArgs where
  env : Env
  link : Link
  maxMessageSize : UInt64
  cfg : AdaptiveTimeoutConfig
  peerProbeCount : Nat

/-- A connection with its reader: `rx` are the bytes since the last frame or length that was read whole. -/
structure PeerReader where
  now : Instant
  rx : Bytes
  phase : Phase
  readDeadline : Option Instant
  liveness : PeerTimeoutCtrl
  probesSent : Nat

inductive ReaderEvent where
  | recv (bytes : Bytes)
  | arm
  /-- another connection to the same peer changes the shared state -/
  | share (durable : DurableLiveness)
  | cancel
  | close
  | check
  | wake
  | readLen
  | readBody (rtt : Duration)
  | tick

namespace PeerReader
variable (args : ReaderArgs) (late : Duration)

def start (now : Instant) (durable : DurableLiveness) : PeerReader :=
  { now, rx := [], phase := .poll, readDeadline := none, liveness := { durable, epoch := none }, probesSent := 0 }

variable (self : PeerReader)

def frameLen : Except Error (UInt64 × Bytes) := readUvarintLoop self.rx 0 0

def check : PeerReader :=
  let interval := self.liveness.lastArmedTimeout.getD (self.liveness.current args.cfg)
  match self.readDeadline with
  | none => { self with phase := .awaitLen (self.now + interval) }
  | some d =>
    if self.now ≤ d then { self with phase := .awaitLen d }
    -- the peer owes us a frame and the interval elapsed
    else if self.probesSent + 1 ≥ args.peerProbeCount then
      { self with liveness := self.liveness.onTimeout args.cfg, phase := .done .timeout }
    else
      let next := self.liveness.current args.cfg
      { self with
        probesSent := self.probesSent + 1
        readDeadline := some (self.now + next)
        phase := .awaitLen (self.now + next) }

def lenRead (result : Except Error (UInt64 × Bytes)) : PeerReader :=
  let cleared := self.liveness.clearOnReply args.cfg self.now
  let self := { self with liveness := cleared.1, readDeadline := cleared.2, probesSent := 0 }
  match result with
  | .error e => { self with phase := .done (.error e) }
  | .ok (len, rest) =>
    if len > args.maxMessageSize then { self with phase := .done (.error .oversizedMessage) }
    else { self with rx := rest, phase := .awaitBody len.toNat }

def bodyRead (len : Nat) (rtt : Duration) : PeerReader :=
  let rest := { self with rx := self.rx.drop len }
  match dispatch args.env args.link rtt (self.rx.take len) with
  | .error e => { rest with phase := .done (.error e) }
  | .ok _ => { rest with phase := .poll }

def idle : Bool :=
  match self.phase with
  | .poll => false
  | .awaitLen wake => self.now < wake + late && self.frameLen = .error .io
  | .awaitBody len => self.rx.length < len
  | .done _ => true

def running : Bool :=
  match self.phase with
  | .done _ => false
  | _ => true

def exec : ReaderEvent → Option PeerReader
  | .recv bytes => if bytes = [] then none else some { self with rx := self.rx ++ bytes }
  | .arm =>
    let armed := self.liveness.arm args.cfg self.readDeadline self.now
    some { self with liveness := armed.1, readDeadline := armed.2 }
  | .share durable => some { self with liveness := { self.liveness with durable } }
  | .cancel => if self.running then some { self with phase := .done .cancelled } else none
  | .close => if self.running then some { self with phase := .done (.error .io) } else none
  | .check =>
    match self.phase with
    | .poll => some (self.check args)
    | _ => none
  | .wake =>
    match self.phase with
    | .awaitLen wake => if wake ≤ self.now then some { self with phase := .poll } else none
    | _ => none
  | .readLen =>
    match self.phase with
    | .awaitLen _ => if self.frameLen = .error .io then none else some (self.lenRead args self.frameLen)
    | _ => none
  | .readBody rtt =>
    match self.phase with
    | .awaitBody len => if len ≤ self.rx.length then some (self.bodyRead args len rtt) else none
    | _ => none
  | .tick => if self.idle late then some { self with now := self.now + 1 } else none

def Step (s : PeerReader) (e : ReaderEvent) (t : PeerReader) : Prop := s.exec args late e = some t

def Settled : Prop :=
  match self.phase with
  | .awaitBody len => len ≤ self.rx.length ∧ readUvarintLoop (self.rx.drop len) 0 0 = .error .io
  | _ => self.frameLen = .error .io

inductive Move (s : PeerReader) : ReaderEvent → PeerReader → Prop
  | recv {bytes : Bytes} : Move s (.recv bytes) { s with rx := s.rx ++ bytes }
  | arm : Move s .arm
      { s with
        liveness := (s.liveness.arm args.cfg s.readDeadline s.now).1
        readDeadline := (s.liveness.arm args.cfg s.readDeadline s.now).2 }
  | share (durable : DurableLiveness) : Move s (.share durable) { s with liveness := { s.liveness with durable } }
  | leave {e : ReaderEvent} (exit : Exit) : Move s e { s with phase := .done exit }
  | check (hphase : s.phase = .poll) : Move s .check (s.check args)
  | wake {wake : Instant} (hphase : s.phase = .awaitLen wake) : Move s .wake { s with phase := .poll }
  | readLen {wake : Instant} (hphase : s.phase = .awaitLen wake) (hlen : s.frameLen ≠ .error .io) :
      Move s .readLen (s.lenRead args s.frameLen)
  | readBody {len : Nat} {rtt : Duration} (hphase : s.phase = .awaitBody len) :
      Move s (.readBody rtt) { s with rx := s.rx.drop len, phase := .poll }
  | reject {len : Nat} {rtt : Duration} (hphase : s.phase = .awaitBody len) (error : Error) :
      Move s (.readBody rtt) { s with rx := s.rx.drop len, phase := .done (.error error) }
  | tick (hidle : s.idle late = true) : Move s .tick { s with now := s.now + 1 }

theorem Step.move {args : ReaderArgs} {late : Duration} {s t : PeerReader} {e : ReaderEvent}
    (h : s.Step args late e t) :
    s.Move args late e t := by
  cases e with
  | recv bytes =>
    simp only [Step, exec] at h
    split at h
    · cases h
    cases h
    exact .recv
  | arm =>
    cases h
    exact .arm
  | share durable =>
    cases h
    exact .share durable
  | cancel | close =>
    simp only [Step, exec] at h
    split at h
    · cases h
      exact .leave _
    · cases h
  | check =>
    simp only [Step, exec] at h
    split at h
    next hphase =>
      cases h
      exact .check hphase
    · cases h
  | wake =>
    simp only [Step, exec] at h
    split at h
    next hphase =>
      split at h
      · cases h
        exact .wake hphase
      · cases h
    · cases h
  | readLen =>
    simp only [Step, exec] at h
    split at h
    next hphase =>
      split at h
      · cases h
      next hlen =>
        cases h
        exact .readLen hphase hlen
    · cases h
  | readBody rtt =>
    simp only [Step, exec] at h
    split at h
    next len hphase =>
      split at h
      · cases h
        rw [bodyRead]
        split
        · exact .reject hphase _
        · exact .readBody hphase
      · cases h
    · cases h
  | tick =>
    simp only [Step, exec] at h
    split at h
    next hidle =>
      cases h
      exact .tick hidle
    · cases h

/-! ## Every run -/

structure Bounded (B : Duration) (s : PeerReader) : Prop where
  deadline : ∀ d, s.readDeadline = some d → d ≤ s.now + B
  epoch : ∀ e, s.liveness.epoch = some e → e.timeout ≤ B
  wake : ∀ w, s.phase = .awaitLen w → w ≤ s.now + B
  probes : s.probesSent < args.peerProbeCount

variable {args late} {B : Duration} {s t : PeerReader} {e : ReaderEvent}

theorem Bounded.start (hn : 0 < args.peerProbeCount) (now : Instant) (durable : DurableLiveness) :
    (PeerReader.start now durable).Bounded args B where
  deadline _ h := by cases h
  epoch _ h := by cases h
  wake _ h := by cases h
  probes := hn

theorem arm_cases (args : ReaderArgs) (ctrl : PeerTimeoutCtrl) (slot : Option Instant) (now : Instant) :
    (∃ d, slot = some d ∧ ctrl.arm args.cfg slot now = (ctrl, some d)) ∨ slot = none ∧ ctrl.arm args.cfg slot now =
        ({ ctrl with epoch := some { armed := now, timeout := ctrl.current args.cfg } },
          some (now + ctrl.current args.cfg)) := by
  cases slot with
  | some d => exact .inl ⟨d, rfl, rfl⟩
  | none => exact .inr ⟨rfl, rfl⟩

theorem check_cases (args : ReaderArgs) (s : PeerReader) : (s.readDeadline = none ∧ s.check args =
      { s with phase := .awaitLen (s.now + s.liveness.lastArmedTimeout.getD (s.liveness.current args.cfg)) }) ∨
    ∃ d, s.readDeadline = some d ∧ ((s.now ≤ d ∧ s.check args = { s with phase := .awaitLen d }) ∨
      (args.peerProbeCount ≤ s.probesSent + 1 ∧ s.check args =
        { s with liveness := s.liveness.onTimeout args.cfg, phase := .done .timeout }) ∨
      (s.probesSent + 1 < args.peerProbeCount ∧ s.check args = { s with
          probesSent := s.probesSent + 1
          readDeadline := some (s.now + s.liveness.current args.cfg)
          phase := .awaitLen (s.now + s.liveness.current args.cfg) })) := by
  rw [check]
  cases hdeadline : s.readDeadline with
  | none => exact .inl ⟨rfl, rfl⟩
  | some d =>
    refine .inr ⟨d, rfl, ?_⟩
    dsimp only
    by_cases hd : s.now ≤ d
    · rw [if_pos hd]
      exact .inl ⟨hd, rfl⟩
    rw [if_neg hd]
    by_cases hn : s.probesSent + 1 ≥ args.peerProbeCount
    · rw [if_pos hn]
      exact .inr (.inl ⟨hn, rfl⟩)
    rw [if_neg hn]
    exact .inr (.inr ⟨by omega, rfl⟩)

theorem lastArmedTimeout_le (h : s.Bounded args B) (hB : s.liveness.current args.cfg ≤ B) :
    s.liveness.lastArmedTimeout.getD (s.liveness.current args.cfg) ≤ B := by
  rw [lastArmedTimeout]
  cases hepoch : s.liveness.epoch with
  | none => exact hB
  | some e => exact h.epoch e hepoch

theorem epoch_onTimeout (cfg : AdaptiveTimeoutConfig) (ctrl : PeerTimeoutCtrl) : (ctrl.onTimeout cfg).epoch = none := by
  rw [onTimeout]
  split <;> rfl

theorem Bounded.check (h : s.Bounded args B) (hB : s.liveness.current args.cfg ≤ B) :
    (s.check args).Bounded args B := by
  have hinterval := lastArmedTimeout_le h hB
  rcases check_cases args s with ⟨-, heq⟩ | ⟨d, hd, ⟨-, heq⟩ | ⟨-, heq⟩ | ⟨hn, heq⟩⟩
  · rw [heq]
    refine { h with wake := fun w hw => ?_ }
    cases hw
    exact Nat.add_le_add_left hinterval _
  · rw [heq]
    refine { h with wake := fun w hw => ?_ }
    cases hw
    exact h.deadline d hd
  · rw [heq]
    refine ⟨h.deadline, fun e he => ?_, fun w hw => (by cases hw), h.probes⟩
    cases (epoch_onTimeout _ _).symm.trans he
  rw [heq]
  refine ⟨fun d' hd' => ?_, h.epoch, fun w hw => ?_, hn⟩
  · cases hd'
    exact Nat.add_le_add_left hB _
  cases hw
  exact Nat.add_le_add_left hB _

theorem clearOnReply_eq (cfg : AdaptiveTimeoutConfig) (ctrl : PeerTimeoutCtrl) (now : Instant) :
    (ctrl.clearOnReply cfg now).1.epoch = none ∧ (ctrl.clearOnReply cfg now).2 = none := by
  rw [clearOnReply]
  cases hepoch : ctrl.epoch with
  | none => exact ⟨hepoch, rfl⟩
  | some e => exact ⟨rfl, rfl⟩

theorem Bounded.lenRead (h : s.Bounded args B) (result : Except Error (UInt64 × Bytes)) :
    (s.lenRead args result).Bounded args B := by
  obtain ⟨hepoch, hslot⟩ := clearOnReply_eq args.cfg s.liveness s.now
  have hn : 0 < args.peerProbeCount := lt_of_le_of_lt (zero_le _) h.probes
  have hclear : ∀ phase rx, (∀ w, phase ≠ .awaitLen w) → Bounded args B
      { s with
        liveness := (s.liveness.clearOnReply args.cfg s.now).1
        readDeadline := (s.liveness.clearOnReply args.cfg s.now).2
        probesSent := 0
        phase := phase
        rx := rx } := by
    intro phase rx hphase
    refine ⟨fun d hd => ?_, fun e he => ?_, fun w hw => absurd hw (hphase w), hn⟩
    · cases hslot.symm.trans hd
    · cases hepoch.symm.trans he
  unfold PeerReader.lenRead
  cases result with
  | error e => exact hclear _ _ fun w hw => by cases hw
  | ok read =>
    dsimp only
    split <;> exact hclear _ _ fun w hw => by cases hw

theorem Bounded.step (h : s.Bounded args B) (hstep : s.Step args late e t) (hB : s.liveness.current args.cfg ≤ B) :
    t.Bounded args B := by
  have hphase : ∀ phase rx, (∀ w, phase ≠ .awaitLen w) → Bounded args B { s with phase := phase, rx := rx } :=
    fun phase rx hphase => { h with wake := fun w hw => absurd hw (hphase w) }
  cases hstep.move with
  | recv | share durable => exact { h with }
  | arm =>
    rcases arm_cases args s.liveness s.readDeadline s.now with ⟨d, hd, heq⟩ | ⟨-, heq⟩
    · rw [heq]
      refine { h with deadline := fun d' hd' => ?_ }
      cases hd'
      exact h.deadline d hd
    rw [heq]
    refine { h with deadline := fun d' hd' => ?_, epoch := fun e' he' => ?_ }
    · cases hd'
      exact Nat.add_le_add_left hB _
    cases he'
    exact hB
  | leave exit | wake | readBody | reject _ error => exact hphase _ _ fun w hw => by cases hw
  | check => exact h.check hB
  | readLen => exact h.lenRead _
  | tick =>
    refine ⟨fun d hd => ?_, h.epoch, fun w hw => ?_, h.probes⟩
    · exact Nat.le_trans (h.deadline d hd) (Nat.add_le_add_right (Nat.le_succ _) _)
    · exact Nat.le_trans (h.wake w hw) (Nat.add_le_add_right (Nat.le_succ _) _)

/-! ## After an arming -/

theorem le_first_interval (now B late p : Nat) : now + B + late ≤ now + (p + 1) * (B + late) := by
  rw [succ_mul]
  omega

theorem le_next_interval {now t₀ p next B late : Nat} (hnow : now ≤ t₀ + (p + 1) * (B + late)) (hB : next ≤ B) :
    now + next + late ≤ t₀ + (p + 1 + 1) * (B + late) := by
  rw [succ_mul (p + 1)]
  omega

structure Watched (args : ReaderArgs) (late B : Duration) (t₀ : Instant) (s : PeerReader) : Prop where
  settled : s.Settled
  probes : s.probesSent < args.peerProbeCount
  now : s.now ≤ t₀ + (s.probesSent + 1) * (B + late)
  deadline : ∃ d, s.readDeadline = some d ∧ d + late ≤ t₀ + (s.probesSent + 1) * (B + late)
  wake : ∀ w, s.phase = .awaitLen w → w + late ≤ t₀ + (s.probesSent + 1) * (B + late)

def OnTime (args : ReaderArgs) (late B : Duration) (t₀ : Instant) (s : PeerReader) : Prop :=
  s.running = true → s.Watched args late B t₀

theorem Settled.frameLen (h : s.Settled) (hphase : ∀ len, s.phase ≠ .awaitBody len) : s.frameLen = .error .io := by
  unfold Settled at h
  split at h
  next hbody => exact absurd hbody (hphase _)
  · exact h

variable {t₀ : Instant}

theorem Bounded.armed (h : s.Bounded args B) (hsettled : s.Settled) (hstep : s.Step args late .arm t)
    (hB : s.liveness.current args.cfg ≤ B) : t.Watched args late B s.now := by
  have ht := h.step hstep hB
  have hlimit := le_first_interval s.now B late s.probesSent
  have hdeadline : ∃ d, t.readDeadline = some d := by
    cases hstep
    rcases arm_cases args s.liveness s.readDeadline s.now with ⟨d, -, heq⟩ | ⟨-, heq⟩
    · exact ⟨d, by rw [heq]⟩
    · exact ⟨_, by rw [heq]⟩
  obtain ⟨d, hd⟩ := hdeadline
  have hle := ht.deadline d hd
  cases hstep
  refine ⟨hsettled, h.probes, le_add_right _ _, ⟨d, hd, ?_⟩, fun w hw => ?_⟩
  · exact Nat.le_trans (Nat.add_le_add_right hle _) hlimit
  · exact Nat.le_trans (Nat.add_le_add_right (h.wake w hw) _) hlimit

theorem Watched.check (h : s.Watched args late B t₀) (hphase : s.phase = .poll) (hB : s.liveness.current args.cfg ≤ B) :
    (s.check args).OnTime args late B t₀ := by
  have hlen : s.frameLen = .error .io := h.settled.frameLen fun len hlen => by cases hphase.symm.trans hlen
  obtain ⟨d, hd, hle⟩ := h.deadline
  intro hrunning
  rcases check_cases args s with ⟨hnone, -⟩ | ⟨d', hd', ⟨-, heq⟩ | ⟨-, heq⟩ | ⟨hn, heq⟩⟩
  · cases hnone.symm.trans hd
  · cases hd.symm.trans hd'
    rw [heq]
    refine ⟨hlen, h.probes, h.now, ⟨d, hd, hle⟩, fun w hw => ?_⟩
    cases hw
    exact hle
  · rw [heq] at hrunning
    cases hrunning
  -- a probe: one more interval
  have hlimit := le_next_interval h.now hB
  rw [heq]
  refine ⟨hlen, hn, ?_, ⟨_, rfl, hlimit⟩, fun w hw => ?_⟩
  · exact Nat.le_trans (Nat.le_trans (le_add_right _ _) (le_add_right _ _)) hlimit
  cases hw
  exact hlimit

theorem OnTime.step (h : s.OnTime args late B t₀) (hstep : s.Step args late e t) (hB : s.liveness.current args.cfg ≤ B)
    (hsilent : ∀ bytes, e ≠ .recv bytes) : t.OnTime args late B t₀ := by
  intro hrunning
  cases hstep.move with
  | recv => exact absurd rfl (hsilent _)
  | arm =>
    have hs := h hrunning
    obtain ⟨d, hd, hle⟩ := hs.deadline
    rcases arm_cases args s.liveness s.readDeadline s.now with ⟨d', hd', heq⟩ | ⟨hnone, -⟩
    · rw [heq, ← hd']
      exact hs
    · cases hnone.symm.trans hd
  | share durable => exact { h hrunning with }
  | leave exit | reject hphase error => cases hrunning
  | check hphase =>
    refine (h ?_).check hphase hB hrunning
    rw [running, hphase]
  | wake hphase =>
    have hs := h (by rw [running, hphase])
    have hlen := hs.settled.frameLen fun len hlen => by cases hphase.symm.trans hlen
    exact ⟨hlen, hs.probes, hs.now, hs.deadline, fun w hw => by cases hw⟩
  | readLen hphase hlen =>
    have hs := h (by rw [running, hphase])
    exact absurd (hs.settled.frameLen fun len hbody => by cases hphase.symm.trans hbody) hlen
  | readBody hphase =>
    have hs := h (by rw [running, hphase])
    have hrest := hs.settled
    rw [Settled, hphase] at hrest
    exact ⟨hrest.2, hs.probes, hs.now, hs.deadline, fun w hw => by cases hw⟩
  | tick hidle =>
    have hs := h hrunning
    -- the clock moves on only while the timer is not overdue
    rw [idle] at hidle
    cases hphase : s.phase with
    | poll =>
      rw [hphase] at hidle
      cases hidle
    | awaitLen w =>
      rw [hphase] at hidle
      rw [Bool.and_eq_true, decide_eq_true_iff] at hidle
      have hlen := hs.settled.frameLen fun len hbody => by cases hphase.symm.trans hbody
      refine ⟨hlen, hs.probes, Nat.le_trans hidle.1 (hs.wake w hphase), hs.deadline, fun w' hw' => ?_⟩
      cases hw'
      exact hs.wake w hphase
    | awaitBody len =>
      have hbody := hs.settled
      rw [Settled, hphase] at hbody
      rw [hphase] at hidle
      exact absurd (of_decide_eq_true hidle) (not_lt.mpr hbody.1)
    | done exit =>
      rw [running, hphase] at hrunning
      cases hrunning

/-! ## Silence is noticed -/

abbrev Within (args : ReaderArgs) (late B : Duration) : PeerReader → ReaderEvent → PeerReader → Prop :=
  Guarded (Step args late) fun s _ => s.liveness.current args.cfg ≤ B

/-- **A silent peer is noticed** if the bytes before end with a frame or within a length: the reader then leaves its
loop after at most as many intervals as there are probes, each with the delay of its timer. -/
theorem silent_peer_detected (args : ReaderArgs) (late B : Duration) (hn : 1 ≤ args.peerProbeCount) (now : Instant)
    (durable : DurableLiveness) {before after : List ReaderEvent} {s s' t : PeerReader}
    (hbefore : Run (Within args late B) (start now durable) before s) (hsettled : s.Settled)
    (harm : Within args late B s .arm s') (hafter : Run (Within args late B) s' after t)
    (hsilent : ∀ bytes, .recv bytes ∉ after) (hrunning : t.running = true) :
    t.now ≤ s.now + args.peerProbeCount * (B + late) := by
  have hbounded : s.Bounded args B :=
    hbefore.invariant (Bounded.start hn now durable) fun _ _ _ h hstep => h.step hstep.1 hstep.2
  have hfirst : s'.OnTime args late B s.now := fun _ => hbounded.armed hsettled harm.1 harm.2
  have hontime : t.OnTime args late B s.now := hafter.invariant_mem hfirst fun _ e _ hmem h hstep =>
    h.step hstep.1 hstep.2 fun bytes he => hsilent bytes (he ▸ hmem)
  have ht := hontime hrunning
  exact Nat.le_trans ht.now (Nat.add_le_add_left (Nat.mul_le_mul_right _ ht.probes) _)

def briefArgs : ReaderArgs :=
  { env := ⟨fun _ _ _ => true, fun _ => 0⟩
    link := ⟨1, 7, 2⟩
    maxMessageSize := 1024
    cfg := { AdaptiveTimeoutConfig.default with fixedOrInitial := 2 }
    peerProbeCount := 2 }

def briefLast : PeerReader :=
  { now := 6, rx := [], phase := .poll, readDeadline := some 5, liveness := ⟨⟨0, 0, 5000⟩, some ⟨0, 2⟩⟩,
    probesSent := 1 }

def briefArmed : PeerReader :=
  { now := 0, rx := [], phase := .awaitLen 2, readDeadline := some 2, liveness := ⟨⟨0, 0, 5000⟩, some ⟨0, 2⟩⟩,
    probesSent := 0 }

theorem briefArgs_within (h : s.Step briefArgs late e t) : Within briefArgs late 2 s e t :=
  ⟨h, le_of_eq (current_fixed rfl _)⟩

theorem silent_peer_detected_brief : briefLast.now = 0 + 2 * (2 + 1) ∧ briefLast.now ≤ 0 + 2 * (2 + 1) ∧
    (briefLast.check briefArgs).phase = .done .timeout := by
  have hbefore : Run (Step briefArgs 1) (start 0 ⟨0, 0, 5000⟩) [.check] ((start 0 ⟨0, 0, 5000⟩).check briefArgs) :=
    Run.single rfl
  have hafter : Run (Step briefArgs 1) briefArmed
      [.tick, .tick, .tick, .wake, .check, .tick, .tick, .tick, .wake] briefLast := Lts.run_of_foldlM rfl
  refine ⟨rfl, ?_, rfl⟩
  exact silent_peer_detected briefArgs 1 2 (by decide) 0 ⟨0, 0, 5000⟩ (hbefore.mono fun _ _ _ => briefArgs_within) rfl
    (briefArgs_within (t := briefArmed) rfl) (hafter.mono fun _ _ _ => briefArgs_within) (by simp) rfl

/-! ## Silence within a frame -/

def plainArgs : ReaderArgs := { briefArgs with cfg := AdaptiveTimeoutConfig.default, peerProbeCount := 3 }

def stalled (now : Instant) : PeerReader :=
  { now, rx := [], phase := .awaitBody 5, readDeadline := some (fromSecs 15)
    liveness := ⟨⟨0, 0, 5000⟩, some ⟨0, fromSecs 15⟩⟩, probesSent := 0 }

theorem plainArgs_within (h : s.Step plainArgs late e t) : Within plainArgs late (Duration.fromSecs 15) s e t :=
  ⟨h, le_of_eq (current_fixed rfl _)⟩

theorem stalled_run (n : Nat) : Run (Step plainArgs 1) (stalled 0) (List.replicate n .tick) (stalled n) := by
  induction n with
  | zero => exact Run.nil _
  | succ n ih =>
    rw [List.replicate_succ']
    exact ih.snoc rfl

/-- **A peer that falls silent within a frame is never noticed**: the reader waits for the body without a timer. -/
theorem silent_peer_undetected : ¬ ∃ bound : Nat, ∀ before after s s' t,
    Run (Within plainArgs 1 (Duration.fromSecs 15)) (start 0 ⟨0, 0, 5000⟩) before s →
    Within plainArgs 1 (Duration.fromSecs 15) s .arm s' →
    Run (Within plainArgs 1 (Duration.fromSecs 15)) s' after t → (∀ bytes, .recv bytes ∉ after) →
    t.running = true → t.now ≤ s.now + bound := by
  intro ⟨bound, hbound⟩
  have hbefore : Run (Step plainArgs 1) (start 0 ⟨0, 0, 5000⟩) [.check, .recv [5], .readLen]
      { stalled 0 with readDeadline := none, liveness := ⟨⟨0, 0, 5000⟩, none⟩ } := Lts.run_of_foldlM rfl
  have hsilent : ∀ bytes, ReaderEvent.recv bytes ∉ List.replicate (bound + 1) ReaderEvent.tick := fun bytes hmem => by
    cases List.eq_of_mem_replicate hmem
  have hlate : (stalled (bound + 1)).now ≤ 0 + bound :=
    hbound _ _ _ (stalled 0) _ (hbefore.mono fun _ _ _ => plainArgs_within) (plainArgs_within rfl)
      ((stalled_run (bound + 1)).mono fun _ _ _ => plainArgs_within) hsilent rfl
  exact absurd hlate (by rw [zero_add]; exact not_succ_le_self bound)

end PeerReader

end Yggdrasil
