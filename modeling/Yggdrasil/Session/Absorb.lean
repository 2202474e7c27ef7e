import Yggdrasil.Session.Manager

/-!
# A handshake message is absorbed once

What `handle_init` and `handle_ack` leave of a message they apply.
-/

namespace Yggdrasil.Session
open SessionInfo Option

inductive Handshake where
  | init
  | ack
deriving DecidableEq

namespace SessionInfo

/-- The message that the session stands for, by the four fields it holds of its peer. -/
def heard (self : SessionInfo) : SessionInit :=
  { current := self.current, next := self.next, keySeq := self.remoteKeySeq, seq := self.seq }

theorem heard_handleUpdate (self : SessionInfo) (m : SessionInit) (now : Instant) (rng : Rng) :
    (self.handleUpdate m now rng).1.heard = m := rfl

theorem heard_doSend (self : SessionInfo) (msg : Bytes) (now : Instant) (rng : Rng) :
    (self.doSend msg now rng).2.1.heard = self.heard := by
  simp only [doSend, sendSnapshot]
  split <;> rfl

end SessionInfo

namespace ConcurrentSessionManager
variable (self : ConcurrentSessionManager) (key ourKey : PublicKey) (m : SessionInit) (clk : Clock) (rng : Rng)

/-- `handle_init` or `handle_ack`, from the lock on under which the call finds its session or none. -/
def handle (kind : Handshake) : Outcome :=
  match kind with
  | .init => self.handleInit key m ourKey clk rng
  | .ack => self.handleAck key m ourKey clk rng

def Applies : Prop := ∀ info, self.sessions key = some info → info.seq < m.seq

/-- Messages that are not newer change nothing. -/
structure Absorbed (mgr : ConcurrentSessionManager) (key : PublicKey) (m : SessionInit) : Prop where
  heard : (mgr.sessions key).map SessionInfo.heard = some m
  again : ∀ (kind : Handshake) (m' : SessionInit) (ourKey : PublicKey) (clk : Clock) (rng : Rng), m'.seq ≤ m.seq →
    (mgr.handle key ourKey m' clk rng kind).mgr = mgr ∧ (mgr.handle key ourKey m' clk rng kind).actions = []

variable {self key m}

theorem handle_stale {info : SessionInfo} (hs : self.sessions key = some info) (hle : m.seq ≤ info.seq)
    (kind : Handshake) : self.handle key ourKey m clk rng kind = { actions := [], mgr := self, rng } := by
  unfold handle
  cases kind with
  | init => simp only [handleInit, hs, if_pos hle]
  | ack => simp only [handleAck, hs, gt_iff_lt, if_neg (UInt64.not_lt.mpr hle)]

theorem Absorbed.of_heard {info : SessionInfo} (hs : self.sessions key = some info) (h : info.heard = m) :
    self.Absorbed key m := by
  subst h
  refine ⟨by rw [hs]; rfl, fun kind m' ourKey clk rng hle => ?_⟩
  rw [handle_stale ourKey clk rng hs hle]
  exact ⟨rfl, rfl⟩

theorem insertSession_self (info : SessionInfo) : (self.insertSession key info).sessions key = some info :=
  Function.update_self ..

theorem heard_update {info : SessionInfo} (hs : self.sessions key = some info) (hlt : info.seq < m.seq)
    (kind : Handshake) :
    ((self.handle key ourKey m clk rng kind).mgr.sessions key).map SessionInfo.heard = some m := by
  unfold handle
  cases kind with
  | init =>
    simp only [handleInit, hs, if_neg (UInt64.not_le.mpr hlt)]
    rw [insertSession_self, map_some, heard_handleUpdate]
  | ack =>
    simp only [handleAck, hs, gt_iff_lt, if_pos hlt]
    rw [insertSession_self, map_some, heard_handleUpdate]

theorem heard_createSessionFromInit :
    (self.createSessionFromInit key m clk.now rng).2.1.heard = { m with keySeq := 0, seq := m.seq - 1 } := by
  unfold createSessionFromInit
  split <;> rfl

theorem heard_sendBuffered (info : SessionInfo) (buffered : Option Bytes) (now : Instant) :
    (sendBuffered info key buffered now rng).2.1.heard = info.heard := by
  unfold sendBuffered
  split
  · exact heard_doSend ..
  · rfl

theorem heard_handleInit_open (hs : self.sessions key = none) :
    ((self.handleInit key m ourKey clk rng).mgr.sessions key).map SessionInfo.heard =
      some { m with keySeq := 0, seq := m.seq - 1 } := by
  simp only [handleInit, hs]
  rw [insertSession_self, map_some, heard_sendBuffered, heard_createSessionFromInit]

theorem heard_handleAck_open (hs : self.sessions key = none) :
    ((self.handleAck key m ourKey clk rng).mgr.sessions key).map SessionInfo.heard =
      some (if m.seq > m.seq - 1 then m else { m with keySeq := 0, seq := m.seq - 1 }) := by
  have hseq : (self.createSessionFromInit key m clk.now rng).2.1.seq = m.seq - 1 :=
    congrArg SessionInit.seq (heard_createSessionFromInit clk rng)
  simp only [handleAck, hs, hseq]
  rw [insertSession_self, map_some, heard_sendBuffered]
  split
  · rw [heard_handleUpdate]
  · rw [heard_createSessionFromInit]

end ConcurrentSessionManager

theorem seq_sub_one_ne (seq : UInt64) : seq - 1 ≠ seq := by
  intro h
  have h' := congrArg UInt64.toNat h
  rw [UInt64.toNat_sub] at h'
  have hone : (1 : UInt64).toNat = 1 := rfl
  omega

theorem sub_one_lt_iff (seq : UInt64) : seq - 1 < seq ↔ seq ≠ 0 := by
  rw [UInt64.lt_iff_toNat_lt, UInt64.toNat_sub, ← UInt64.toNat_inj.ne]
  have hone : (1 : UInt64).toNat = 1 := rfl
  have hzero : (0 : UInt64).toNat = 0 := rfl
  omega

open ConcurrentSessionManager in
/-- **A handshake message is absorbed once** if it finds a session, or if it is an ack with a sequence number other than
zero, and in no other case. -/
theorem absorbed_once (self : ConcurrentSessionManager) (kind : Handshake) (key ourKey : PublicKey) (m : SessionInit)
    (clk : Clock) (rng : Rng) : (self.Applies key m → (self.handle key ourKey m clk rng kind).mgr.Absorbed key m) ↔
      self.sessions key ≠ none ∨ kind = .ack ∧ m.seq ≠ 0 := by
  have hof : ((self.handle key ourKey m clk rng kind).mgr.sessions key).map heard = some m →
      (self.handle key ourKey m clk rng kind).mgr.Absorbed key m := by
    intro h
    obtain ⟨info, hinfo, hheard⟩ := map_eq_some_iff.mp h
    exact Absorbed.of_heard hinfo hheard
  cases hs : self.sessions key with
  | some info =>
    refine iff_of_true (fun happlies => hof ?_) (Or.inl (by simp))
    exact heard_update ourKey clk rng hs (happlies info hs) kind
  | none =>
    have happlies : self.Applies key m := fun info hinfo => by rw [hs] at hinfo; cases hinfo
    have hne : ({ m with keySeq := 0, seq := m.seq - 1 } : SessionInit) ≠ m := fun h =>
      seq_sub_one_ne m.seq (congrArg SessionInit.seq h)
    cases kind with
    | init =>
      refine iff_of_false (fun h => hne ?_) (by simp)
      have hheard := (h happlies).heard
      rw [handle, heard_handleInit_open ourKey clk rng hs] at hheard
      exact some.inj hheard
    | ack =>
      have hopen := heard_handleAck_open (m := m) ourKey clk rng hs
      simp only [gt_iff_lt, sub_one_lt_iff] at hopen
      by_cases hzero : m.seq = 0
      · refine iff_of_false (fun h => hne ?_) (by simp [hzero])
        have hheard := (h happlies).heard
        rw [handle, hopen, if_neg (not_not.mpr hzero)] at hheard
        exact some.inj hheard
      rw [if_pos hzero] at hopen
      exact iff_of_true (fun _ => hof hopen) (Or.inr ⟨rfl, hzero⟩)

/-- **An init that opens a session is applied again**: it finds a session older than itself, ratchets its keys and is
answered by a second ack. -/
theorem init_absorbed_twice : let m : SessionInit := ⟨⟨⟨7, 0⟩⟩, ⟨⟨7, 1⟩⟩, 0, 10⟩
    let mgr := ConcurrentSessionManager.new ⟨none⟩ 60
    let first := mgr.handle 7 1 m ⟨0, 10⟩ ⟨1, 0⟩ .init
    let second := first.mgr.handle 7 1 m ⟨0, 10⟩ first.rng .init
    mgr.Applies 7 m ∧ ¬ first.mgr.Absorbed 7 m ∧ (first.mgr.sessions 7).map SessionInfo.localKeySeq = some 0 ∧
      (second.mgr.sessions 7).map SessionInfo.localKeySeq = some 1 ∧ second.actions.length = 1 := by
  refine ⟨fun info hinfo => (by cases hinfo), fun h => ?_, rfl, rfl, rfl⟩
  have hheard := h.heard
  exact seq_sub_one_ne _ (congrArg SessionInit.seq (some.inj hheard))

end Yggdrasil.Session
