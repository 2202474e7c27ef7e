import Yggdrasil.Base.Run
import Yggdrasil.Session.Absorb

/-!
# The critical sections of the session manager

`write_to`, `handle_init` and `handle_ack` as sequences of the sections they run under a lock, with any number of calls
in progress. The write lock of the session map is held from the second look of a handshake message to the insertion of
its session; a call that has to look at the map waits for it, one that fills a buffer does not.
-/

namespace Yggdrasil.Session
open Function List Option ConcurrentSessionManager
open Lts (Run Guarded)

inductive WriteStage where
  | lookup
  | snapshot
  | finalize (traffic : TrafficMsg)
  | buffer
  | done (actions : List OutAction)

inductive HandshakeStage where
  | lookup
  | update
  | recheck
  | takeBuffer
  | insert (buffered : Option Bytes) (info : SessionInfo)
  | done (actions : List OutAction)

inductive Call where
  | write (dest : PublicKey) (msg : Bytes) (stage : WriteStage)
  | handshake (kind : Handshake) (fromKey : PublicKey) (m : SessionInit) (stage : HandshakeStage)

inductive Job where
  | write (dest : PublicKey) (msg : Bytes)
  | handshake (kind : Handshake) (fromKey : PublicKey) (m : SessionInit)

def Job.start : Job → Call
  | .write dest msg => .write dest msg .lookup
  | .handshake kind fromKey m => .handshake kind fromKey m .lookup

namespace Call

def holdsMap : Call → Bool
  | .handshake _ _ _ .takeBuffer => true
  | .handshake _ _ _ (.insert ..) => true
  | _ => false

def needsMap : Call → Bool
  | .write _ _ .lookup => true
  | .handshake _ _ _ .lookup => true
  | .handshake _ _ _ .recheck => true
  | _ => false

def ended : Call → Bool
  | .write _ _ (.done _) => true
  | .handshake _ _ _ (.done _) => true
  | _ => false

def Inserting (key : PublicKey) : Call → Prop
  | .handshake _ fromKey _ (.insert ..) => fromKey = key
  | _ => False

def Buffering (key : PublicKey) : Call → Prop
  | .write dest _ .buffer => dest = key
  | _ => False

theorem Inserting.holdsMap {key : PublicKey} : ∀ {call : Call}, call.Inserting key → call.holdsMap = true
  | .handshake _ _ _ (.insert ..), _ => rfl

theorem Buffering.not_inserting {key : PublicKey} {call : Call} (h : call.Buffering key) : ¬ call.Inserting key := by
  cases call with
  | write dest msg stage => exact id
  | handshake kind fromKey m stage => exact False.elim h

end Call

section Turn
variable (mgr : ConcurrentSessionManager) (ourKey : PublicKey) (clk : Clock) (rng : Rng)

def writeTurn (dest : PublicKey) (msg : Bytes) : WriteStage → WriteStage × ConcurrentSessionManager
  | .lookup => (if (mgr.sessions dest).isSome then .snapshot else .buffer, mgr)
  | .snapshot =>
    match mgr.sessions dest with
    | some info =>
      let snap := info.sendSnapshot rng
      (.finalize (SessionInfo.encryptOutsideLock snap.1 msg), mgr.insertSession dest snap.2.1)
    | none => (.snapshot, mgr)
  | .finalize traffic =>
    match mgr.sessions dest with
    | some info =>
      (.done [.sendToInner dest (.traffic traffic)],
        mgr.insertSession dest (info.sendFinalize msg.length.toUInt64 clk.now))
    | none => (.finalize traffic, mgr)
  | .buffer =>
    let buffered := mgr.bufferAndInit dest msg ourKey clk rng
    (.done buffered.actions, buffered.mgr)
  | .done actions => (.done actions, mgr)

def insertTurn (kind : Handshake) (fromKey : PublicKey) (m : SessionInit) (buffered : Option Bytes)
    (info : SessionInfo) :
    HandshakeStage × ConcurrentSessionManager :=
  match kind with
  | .init =>
    let ackInit := SessionInit.new info.sendKeys.pub info.nextKeys.pub info.localKeySeq clk
    let sent := sendBuffered info fromKey buffered clk.now rng
    (.done (sent.1 ++ [.sendToInner fromKey (.ack (ackInit.encrypt ourKey fromKey mgr.groupAuth))]),
      mgr.insertSession fromKey sent.2.1)
  | .ack =>
    let updated := if m.seq > info.seq then info.handleUpdate m clk.now rng else (info, rng)
    let info := updated.1
    let ackInit := SessionInit.new info.sendKeys.pub info.nextKeys.pub info.localKeySeq clk
    let sent := sendBuffered info fromKey buffered clk.now updated.2
    (.done (.sendToInner fromKey (.ack (ackInit.encrypt ourKey fromKey mgr.groupAuth)) :: sent.1),
      mgr.insertSession fromKey sent.2.1)

/-- The next section of `handle_init` or `handle_ack`. The update of a session is that of the whole call, which finds a
session in its place. -/
def handshakeTurn (kind : Handshake) (fromKey : PublicKey) (m : SessionInit) :
    HandshakeStage → HandshakeStage × ConcurrentSessionManager
  | .lookup => (if (mgr.sessions fromKey).isSome then .update else .recheck, mgr)
  | .update =>
    match mgr.sessions fromKey with
    | some _ =>
      let handled := mgr.handle fromKey ourKey m clk rng kind
      (.done handled.actions, handled.mgr)
    | none => (.update, mgr)
  | .recheck => (if (mgr.sessions fromKey).isSome then .update else .takeBuffer, mgr)
  | .takeBuffer =>
    let created := mgr.createSessionFromInit fromKey m clk.now rng
    (.insert created.1 created.2.1, created.2.2.1)
  | .insert buffered info => insertTurn mgr ourKey clk rng kind fromKey m buffered info
  | .done actions => (.done actions, mgr)

def Call.turn : Call → Call × ConcurrentSessionManager
  | .write dest msg stage =>
    let next := writeTurn mgr ourKey clk rng dest msg stage
    (.write dest msg next.1, next.2)
  | .handshake kind fromKey m stage =>
    let next := handshakeTurn mgr ourKey clk rng kind fromKey m stage
    (.handshake kind fromKey m next.1, next.2)

end Turn

structure Sections where
  mgr : ConcurrentSessionManager
  calls : List Call

/-- A call is made, or one of them runs its next section, with what it reads and draws there. -/
inductive SectionEvent where
  | call (job : Job)
  | turn (i : Nat) (clk : Clock) (rng : Rng)

namespace Sections
variable {s t : Sections} {e : SectionEvent} {ourKey key : PublicKey}

def new (groupAuth : GroupAuth) (sessionTimeout : Duration) : Sections :=
  { mgr := ConcurrentSessionManager.new groupAuth sessionTimeout, calls := [] }

def locked (s : Sections) : Bool := s.calls.any Call.holdsMap

def quiet (s : Sections) : Bool := s.calls.all Call.ended

def exec (ourKey : PublicKey) (s : Sections) : SectionEvent → Option Sections
  | .call job => some { s with calls := s.calls ++ [job.start] }
  | .turn i clk rng =>
    match s.calls[i]? with
    | none => none
    | some call =>
      if call.ended || call.needsMap && s.locked then none
      else
        let next := call.turn s.mgr ourKey clk rng
        some { mgr := next.2, calls := s.calls.set i next.1 }

def Step (ourKey : PublicKey) (s : Sections) (e : SectionEvent) (t : Sections) : Prop := s.exec ourKey e = some t

def Rechecked (s : Sections) (e : SectionEvent) : Prop :=
  ∀ i clk rng call key, e = .turn i clk rng → s.calls[i]? = some call → call.Buffering key →
    s.mgr.sessions key = none ∧ s.locked = false

end Sections

/-! ## What a section adds -/

section Effects
variable {mgr : ConcurrentSessionManager} {ourKey key : PublicKey} {clk : Clock} {rng : Rng} {call : Call}

theorem insertSession_ne_none {info : SessionInfo} {dest : PublicKey}
    (h : (mgr.insertSession dest info).sessions key ≠ none) : mgr.sessions key ≠ none ∨ dest = key := by
  by_cases hkey : dest = key
  · exact .inr hkey
  left
  intro hnone
  apply h
  show update mgr.sessions dest (some info) key = none
  rw [update_of_ne (Ne.symm hkey), hnone]

theorem createSessionFromInit_sessions (mgr : ConcurrentSessionManager) (key : PublicKey) (m : SessionInit)
    (now : Instant) (rng : Rng) : (mgr.createSessionFromInit key m now rng).2.2.1.sessions = mgr.sessions := by
  unfold createSessionFromInit
  split <;> rfl

theorem createSessionFromInit_buffers (mgr : ConcurrentSessionManager) (key : PublicKey) (m : SessionInit)
    (now : Instant) (rng : Rng) :
    (mgr.createSessionFromInit key m now rng).2.2.1.buffers = Function.update mgr.buffers key none := by
  unfold createSessionFromInit
  split
  · rfl
  next hnone => exact (update_eq_self_iff.mpr hnone.symm).symm

theorem writeTurn_found {dest : PublicKey} {info : SessionInfo} (hs : mgr.sessions dest = some info) (msg : Bytes) :
    let sent := writeTurn mgr ourKey clk rng dest msg .snapshot
    writeTurn sent.2 ourKey clk rng dest msg sent.1 =
      (.done (mgr.writeTo dest msg ourKey clk rng).actions, (mgr.writeTo dest msg ourKey clk rng).mgr) := by
  simp only [writeTurn, hs, ConcurrentSessionManager.writeTo, SessionInfo.doSend]
  rw [insertSession_self]
  simp only [insertSession, update_idem]

theorem handshakeTurn_open {fromKey : PublicKey} (hs : mgr.sessions fromKey = none) (kind : Handshake)
    (m : SessionInit) :
    let taken := handshakeTurn mgr ourKey clk rng kind fromKey m .takeBuffer
    handshakeTurn taken.2 ourKey clk (mgr.createSessionFromInit fromKey m clk.now rng).2.2.2 kind fromKey m taken.1 =
      (.done (mgr.handle fromKey ourKey m clk rng kind).actions, (mgr.handle fromKey ourKey m clk rng kind).mgr) := by
  cases kind with
  | init => simp only [handshakeTurn, insertTurn, ConcurrentSessionManager.handle, handleInit, hs]
  | ack =>
    simp only [handshakeTurn, insertTurn, ConcurrentSessionManager.handle, ConcurrentSessionManager.handleAck, hs]

theorem handle_found {m : SessionInit} {fromKey : PublicKey} {info : SessionInfo} (kind : Handshake)
    (hs : mgr.sessions fromKey = some info) : (mgr.handle fromKey ourKey m clk rng kind).mgr.buffers = mgr.buffers ∧
      ∀ key, (mgr.handle fromKey ourKey m clk rng kind).mgr.sessions key ≠ none → mgr.sessions key ≠ none := by
  have hinsert : ∀ info' key, (mgr.insertSession fromKey info').sessions key ≠ none → mgr.sessions key ≠ none := by
    intro info' key h
    rcases insertSession_ne_none h with h | rfl
    · exact h
    rw [hs]
    exact some_ne_none info
  unfold ConcurrentSessionManager.handle
  cases kind with
  | init =>
    simp only [handleInit, hs]
    split
    · exact ⟨rfl, fun _ h => h⟩
    · exact ⟨rfl, hinsert _⟩
  | ack =>
    simp only [ConcurrentSessionManager.handleAck, hs]
    split
    · exact ⟨rfl, hinsert _⟩
    · exact ⟨rfl, fun _ h => h⟩

theorem turn_buffers (h : (call.turn mgr ourKey clk rng).2.buffers key ≠ none) :
    mgr.buffers key ≠ none ∨ call.Buffering key := by
  match call with
  | .write dest msg .lookup | .write dest msg (.done actions) | .handshake kind fromKey m .lookup
  | .handshake kind fromKey m .recheck
  | .handshake .init fromKey m (.insert buffered info) | .handshake .ack fromKey m (.insert buffered info)
  | .handshake kind fromKey m (.done actions) => exact .inl h
  | .write dest msg .snapshot | .write dest msg (.finalize traffic) =>
    simp only [Call.turn, writeTurn] at h
    split at h <;> exact .inl h
  | .write dest msg .buffer =>
    by_cases hkey : dest = key
    · exact .inr hkey
    left
    intro hnone
    apply h
    show update mgr.buffers dest _ key = none
    rw [update_of_ne (Ne.symm hkey), hnone]
  | .handshake kind fromKey m .update =>
    simp only [Call.turn, handshakeTurn] at h
    split at h
    next hs =>
      rw [(handle_found kind hs).1] at h
      exact .inl h
    · exact .inl h
  | .handshake kind fromKey m .takeBuffer =>
    left
    intro hnone
    apply h
    show (mgr.createSessionFromInit fromKey m clk.now rng).2.2.1.buffers key = none
    rw [createSessionFromInit_buffers]
    unfold update
    split
    next heq => subst heq; rfl
    · exact hnone

theorem turn_sessions (h : (call.turn mgr ourKey clk rng).2.sessions key ≠ none) :
    mgr.sessions key ≠ none ∨ call.Inserting key := by
  -- a session that is found may be written back
  have hfound : ∀ {dest : PublicKey} {info info' : SessionInfo}, mgr.sessions dest = some info →
      (mgr.insertSession dest info').sessions key ≠ none → mgr.sessions key ≠ none := by
    intro dest info info' hs h
    rcases insertSession_ne_none h with h | rfl
    · exact h
    rw [hs]
    exact some_ne_none info
  match call with
  | .write dest msg .lookup
  | .write dest msg .buffer | .write dest msg (.done actions) | .handshake kind fromKey m .lookup
  | .handshake kind fromKey m .recheck | .handshake kind fromKey m (.done actions) => exact .inl h
  | .write dest msg .snapshot | .write dest msg (.finalize traffic) =>
    simp only [Call.turn, writeTurn] at h
    split at h
    next hs => exact .inl (hfound hs h)
    · exact .inl h
  | .handshake kind fromKey m .update =>
    simp only [Call.turn, handshakeTurn] at h
    split at h
    next hs => exact .inl ((handle_found kind hs).2 key h)
    · exact .inl h
  | .handshake kind fromKey m .takeBuffer =>
    left
    rw [← createSessionFromInit_sessions mgr fromKey m clk.now rng]
    exact h
  | .handshake .init fromKey m (.insert buffered info) | .handshake .ack fromKey m (.insert buffered info) =>
    exact insertSession_ne_none h

theorem turn_inserting (h : (call.turn mgr ourKey clk rng).1.Inserting key) (hended : call.ended = false) :
    (call.turn mgr ourKey clk rng).2.buffers key = none := by
  match call with
  | .write dest msg stage
  | .handshake .init fromKey m (.insert buffered info) | .handshake .ack fromKey m (.insert buffered info) =>
    exact False.elim h
  | .handshake kind fromKey m .lookup | .handshake kind fromKey m .update | .handshake kind fromKey m .recheck =>
    simp only [Call.turn, handshakeTurn] at h
    split at h <;> exact False.elim h
  | .handshake kind fromKey m .takeBuffer =>
    have hkey : fromKey = key := h
    show (mgr.createSessionFromInit fromKey m clk.now rng).2.2.1.buffers key = none
    rw [createSessionFromInit_buffers, hkey, update_self]
  | .handshake kind fromKey m (.done actions) => exact Bool.noConfusion hended

end Effects

/-! ## Runs -/

namespace Sections
variable {s t : Sections} {e : SectionEvent} {ourKey : PublicKey}

/-- No buffer beside a session. -/
structure Clear (s : Sections) : Prop where
  buffers : ∀ key, s.mgr.buffers key ≠ none → s.mgr.sessions key = none
  inserting : ∀ call ∈ s.calls, ∀ key, call.Inserting key → s.mgr.buffers key = none

theorem Clear.new (groupAuth : GroupAuth) (sessionTimeout : Duration) : (new groupAuth sessionTimeout).Clear :=
  ⟨fun _ _ => rfl, fun _ hcall => absurd hcall not_mem_nil⟩

theorem Clear.step (h : s.Clear) (hstep : Guarded (Step ourKey) Rechecked s e t) : t.Clear := by
  obtain ⟨hexec, hrechecked⟩ := hstep
  cases e with
  | call job =>
    cases hexec
    refine ⟨h.buffers, fun call hcall key hinserting => ?_⟩
    rcases mem_append.mp hcall with hcall | hcall
    · exact h.inserting call hcall key hinserting
    rw [mem_singleton.mp hcall] at hinserting
    cases job <;> exact False.elim hinserting
  | turn i clk rng =>
    simp only [Step, exec] at hexec
    split at hexec
    · cases hexec
    next call hcall =>
      split at hexec
      · cases hexec
      next hruns =>
        cases hexec
        have hended : call.ended = false := by
          rw [Bool.not_eq_true, Bool.or_eq_false_iff] at hruns
          exact hruns.1
        refine ⟨fun key hbuffers => ?_, fun other hother key hinserting => ?_⟩
        · by_contra hsessions
          rcases turn_buffers hbuffers with hbefore | hbuffering
          · rcases turn_sessions hsessions with hs | hinserting
            · exact hs (h.buffers key hbefore)
            · exact hbefore (h.inserting call (mem_of_getElem? hcall) key hinserting)
          rcases turn_sessions hsessions with hs | hinserting
          · exact hs (hrechecked i clk rng call key rfl hcall hbuffering).1
          · exact hbuffering.not_inserting hinserting
        rcases mem_or_eq_of_mem_set hother with hother | rfl
        · by_contra hbuffers
          rcases turn_buffers hbuffers with hbefore | hbuffering
          · exact hbefore (h.inserting other hother key hinserting)
          -- the other call holds the lock of the map
          have hfree := (hrechecked i clk rng call key rfl hcall hbuffering).2
          rw [locked, List.any_eq_false] at hfree
          exact hfree other hother hinserting.holdsMap
        · exact turn_inserting hinserting hended

end Sections

open Sections in
/-- **No buffered write is stranded** in a run in which a buffer is only filled while its key has no session and none is
being inserted. -/
theorem buffered_write_not_stranded {groupAuth : GroupAuth} {sessionTimeout : Duration} {ourKey : PublicKey}
    {es : List SectionEvent} {s : Sections}
    (hrun : Run (Guarded (Step ourKey) Rechecked) (new groupAuth sessionTimeout) es s) (key : PublicKey)
    (hbuffer : s.mgr.buffers key ≠ none) : s.mgr.sessions key = none :=
  (hrun.invariant (Clear.new groupAuth sessionTimeout) fun _ _ _ h hstep => h.step hstep).buffers key hbuffer

theorem Sections.rechecked_of_not_buffering {s : Sections} {i : Nat} {clk : Clock} {rng : Rng} {call : Call}
    (h : s.calls[i]? = some call) (hnot : ∀ key, ¬ call.Buffering key) : s.Rechecked (.turn i clk rng) := by
  intro _ _ _ call' key he hcall' hbuffering
  cases he
  obtain rfl := some.inj (h.symm.trans hcall')
  exact absurd hbuffering (hnot key)

def peerInit : SessionInit := ⟨⟨⟨7, 0⟩⟩, ⟨⟨7, 1⟩⟩, 0, 10⟩

/-- The init of the peer comes between the two looks of `write_to`; the message is in the buffer when the
session is made. -/
theorem buffered_write_taken : ∃ es s, Run (Guarded (Sections.Step 1) Sections.Rechecked)
    (Sections.new ⟨none⟩ 60) es s ∧
    s.quiet = true ∧ s.mgr.sessions 7 ≠ none ∧ s.mgr.buffers 7 = none := by
  let turn (i : Nat) : SectionEvent := .turn i ⟨0, 10⟩ ⟨1, i⟩
  have next {es : List SectionEvent} {s t : Sections}
      (h : Run (Guarded (Sections.Step 1) Sections.Rechecked) (Sections.new ⟨none⟩ 60) es s) (e : SectionEvent)
      (hexec : s.exec 1 e = some t) (hok : s.Rechecked e) : Run (Guarded (Sections.Step 1) Sections.Rechecked) _ _ t :=
    h.snoc ⟨hexec, hok⟩
  have hlooked := next (next (Run.nil _) (.call (.write 7 [1])) rfl nofun) (turn 0) rfl
    (Sections.rechecked_of_not_buffering rfl fun _ => id)
  have hinit := next (next hlooked (.call (.handshake .init 7 peerInit)) rfl nofun) (turn 1) rfl
    (Sections.rechecked_of_not_buffering rfl fun _ => id)
  have hwrote := next hinit (turn 0) rfl fun _ _ _ _ _ he hcall _ => by
    cases he
    cases hcall
    exact ⟨rfl, rfl⟩
  have htaken := next (next hwrote (turn 1) rfl (Sections.rechecked_of_not_buffering rfl fun _ => id)) (turn 1) rfl
    (Sections.rechecked_of_not_buffering rfl fun _ => id)
  have hrun := next htaken (turn 1) rfl (Sections.rechecked_of_not_buffering rfl fun _ => id)
  refine ⟨_, _, hrun, rfl, fun h => some_ne_none _ h, ?_⟩
  by_contra hbuffer
  exact some_ne_none _ (buffered_write_not_stranded hrun 7 hbuffer)

/-- **A buffered write is stranded**: `write_to` finds no session, the init of the peer opens one and finds no buffer,
and then `write_to` fills the buffer. -/
theorem buffered_write_stranded : ∃ es s, Run (Sections.Step 1) (Sections.new ⟨none⟩ 60) es s ∧ s.quiet = true ∧
    s.mgr.buffers 7 ≠ none ∧ s.mgr.sessions 7 ≠ none := by
  let turn (i : Nat) : SectionEvent := .turn i ⟨0, 10⟩ ⟨1, i⟩
  have hrun : [.call (.write 7 [1]), turn 0, .call (.handshake .init 7 peerInit), turn 1, turn 1, turn 1, turn 1,
      turn 0].foldlM (Sections.exec 1) (Sections.new ⟨none⟩ 60) = some _ := rfl
  exact ⟨_, _, Lts.run_of_foldlM hrun, rfl, fun h => some_ne_none _ h, fun h => some_ne_none _ h⟩

end Yggdrasil.Session
