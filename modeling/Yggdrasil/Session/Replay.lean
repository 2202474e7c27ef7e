import Yggdrasil.Base.Run
import Yggdrasil.Session.Info

/-!
# No traffic message is accepted twice

One session from `SessionInfo.new` on, with the log of the messages that passed `recvSnapshot` and decryption.
-/

namespace Yggdrasil.Session
open SessionInfo List UInt64
open SessionInfo (decryptOutsideLock DecryptCase RecvSnapshot)

structure Receiver where
  info : SessionInfo
  rng : Rng
  accepted : List TrafficMsg

namespace Receiver

inductive Event where
  | recv (t : TrafficMsg) (now : Instant)
  | update (init : SessionInit) (now : Instant)
  | send (msg : Bytes) (now : Instant)

def start (current next : CurvePublicKey) (seq : UInt64) (now : Instant) (rng : Rng) : Receiver :=
  let created := SessionInfo.new current next seq now rng
  ⟨created.1, created.2, []⟩

def exec (s : Receiver) : Event → Receiver
  | .recv t now =>
    match s.info.recvSnapshot t with
    | .error _ => s
    | .ok snap =>
      match decryptOutsideLock snap t with
      | .error _ => s
      | .ok (payload, innerKey) =>
        let final := s.info.recvFinalize snap innerKey payload.length.toUInt64 now s.rng
        ⟨final.1, final.2, s.accepted ++ [t]⟩
  | .update init now =>
    let updated := s.info.handleUpdate init now s.rng
    ⟨updated.1, updated.2, s.accepted⟩
  | .send msg now =>
    let sent := s.info.doSend msg now s.rng
    ⟨sent.2.1, sent.2.2, s.accepted⟩

end Receiver

def Nameable (rng : Rng) (k : CurvePublicKey) : Prop := k.host = rng.host → k.idx < rng.drawn

instance (rng : Rng) (k : CurvePublicKey) : Decidable (Nameable rng k) := inferInstanceAs (Decidable (_ → _))

namespace Receiver

def Names (s : Receiver) : Event → Prop
  | .recv t _ => ∀ k ∈ t.body.plain.innerKey, Nameable s.rng k
  | .update init _ => Nameable s.rng init.current ∧ Nameable s.rng init.next
  | .send _ _ => True

def Step (s : Receiver) (e : Event) (s' : Receiver) : Prop := s.Names e ∧ s' = s.exec e

def KeepsCount (s : Receiver) : Event → Prop
  | .recv t now => ∀ hdr ∈ t.header, s.info.Matches hdr .nextToRecv → s.info.shouldRotate now →
      s.info.nextSendNonce ≤ hdr.nonce
  | .update init _ => s.info.nextSendNonce = 0 ∨
      ¬ (init.current = s.info.next ∧ init.keySeq = s.info.remoteKeySeq + 1) ∧
      ¬ (init.next = s.info.next ∧ init.keySeq = s.info.remoteKeySeq)
  | .send _ _ => s.info.sendNonce + 1 = 0 → s.info.nextSendNonce = 0

def keyAt (host : PublicKey) (d i : Nat) : BoxKeys := ⟨⟨host, d + i⟩⟩

variable {j : Nat} {s : Receiver} {hdr : TrafficHeader} {c : DecryptCase} {t : TrafficMsg} {s' : SessionInfo}
  {now : Instant}

theorem keyAt_pub_inj {host : PublicKey} {d i : Nat} (h : (keyAt host d i).pub = (keyAt host d j).pub) : i = j := by
  have : d + i = d + j := congrArg CurvePublicKey.idx h
  omega

/-- The session is in generation `g` of its keys. -/
structure Tracks (host : PublicKey) (d g : Nat) (s : Receiver) : Prop where
  synced : s.info.Synced
  recvKeys : s.info.recvKeys = keyAt host d g
  sendKeys : s.info.sendKeys = keyAt host d (g + 1)
  nextKeys : s.info.nextKeys = keyAt host d (g + 2)
  localKeySeq : s.info.localKeySeq = UInt64.ofNat g
  rng : s.rng = ⟨host, d + (g + 3)⟩
  current : Nameable s.rng s.info.current
  next : Nameable s.rng s.info.next

structure Past (host : PublicKey) (d g : Nat) (s : SessionInfo) (t : TrafficMsg) (hdr : TrafficHeader) (j : Nat) :
    Prop where
  header : t.header = some hdr
  names : hdr.remoteKeySeq + 1 = UInt64.ofNat j
  le : j ≤ g + 1
  near : ∀ i, (keyAt host d i).pub ∈ t.body.key → i ≤ j + 2
  toSend : j = g + 1 → t.body.key = s.nextSendShared ∧ hdr.localKeySeq = s.remoteKeySeq + 1 ∧
    hdr.nonce ≤ s.nextSendNonce
  toRecv : j = g → t.body.key = s.recvShared → hdr.localKeySeq = s.remoteKeySeq → hdr.nonce ≤ s.recvNonce
  nextToRecv : j = g → t.body.key = s.nextRecvShared → hdr.localKeySeq = s.remoteKeySeq + 1 →
    hdr.nonce ≤ s.nextRecvNonce

structure Inv (host : PublicKey) (d g : Nat) (s : Receiver) : Prop where
  tracks : Tracks host d g s
  past : ∀ t ∈ s.accepted, ∃ hdr j, Past host d g s.info t hdr j
  nodup : s.accepted.Nodup

variable {host : PublicKey} {d g : Nat}

def localIdx (g : Nat) : DecryptCase → Nat
  | .currentToRecv => g
  | .nextToSend => g + 1
  | .nextToRecv => g

theorem Tracks.localKeys (h : Tracks host d g s) (c : DecryptCase) :
    s.info.localKeys c = keyAt host d (localIdx g c) := by
  cases c
  · exact h.recvKeys
  · exact h.sendKeys
  · exact h.recvKeys

theorem Tracks.remoteKey (h : Tracks host d g s) (c : DecryptCase) : Nameable s.rng (s.info.remoteKey c) := by
  cases c
  · exact h.current
  · exact h.next
  · exact h.next

theorem Tracks.names (h : Tracks host d g s) (hm : s.info.Matches hdr c) :
    hdr.remoteKeySeq + 1 = UInt64.ofNat (localIdx g c) := by
  have hl := h.localKeySeq
  cases c with
  | currentToRecv | nextToRecv => exact hm.2.trans hl
  | nextToSend => rw [hm.2, hl, localIdx, ofNat_add]; rfl

theorem Tracks.near (h : Tracks host d g s) (c : DecryptCase) {i : Nat}
    (hi : (keyAt host d i).pub ∈ s.info.caseShared c) : i ≤ localIdx g c + 2 := by
  rw [h.synced.caseShared, h.localKeys] at hi
  rcases Sym2.mem_iff.mp hi with hi | hi
  · have hk : d + i < s.rng.drawn := by
      have := h.remoteKey c (by rw [← hi, h.rng]; rfl)
      rwa [← hi] at this
    rw [h.rng] at hk
    have : g ≤ localIdx g c := by cases c <;> simp [localIdx]
    simp only at hk
    omega
  have := keyAt_pub_inj hi
  omega

theorem Past.not_again {hdr' : TrafficHeader} (h : Past host d g s.info t hdr j) (htr : Tracks host d g s)
    (hhdr : t.header = some hdr') (hm : s.info.Matches hdr' c) (hn : s.info.caseNonce c < hdr'.nonce)
    (hk : t.body.key = s.info.caseShared c) :
    False := by
  obtain rfl : hdr' = hdr := Option.some.inj (hhdr.symm.trans h.header)
  have hc : (keyAt host d (localIdx g c)).pub ∈ t.body.key := by
    rw [hk, htr.synced.caseShared, htr.localKeys]
    exact Sym2.mem_mk_right ..
  -- the header determines the local key among those that are near
  have hj : j = localIdx g c := by
    have hmod := congrArg UInt64.toNat (h.names.symm.trans (htr.names hm))
    rw [toNat_ofNat', toNat_ofNat'] at hmod
    have h1 := h.near _ hc
    have h2 := h.le
    have h3 : g ≤ localIdx g c := by cases c <;> simp [localIdx]
    omega
  cases c with
  | currentToRecv => exact UInt64.not_le.mpr hn (h.toRecv hj hk hm.1)
  | nextToSend => exact UInt64.not_le.mpr hn (h.toSend hj).2.2
  | nextToRecv => exact UInt64.not_le.mpr hn (h.nextToRecv hj hk hm.1)

theorem Past.ratchet {s : SessionInfo} (h : Past host d g s t hdr j)
    (hcurrent : t.body.key = s.nextSendShared → hdr.localKeySeq = s.remoteKeySeq + 1 → hdr.nonce ≤ s.nextSendNonce →
      t.body.key = s'.recvShared → hdr.localKeySeq = s'.remoteKeySeq → hdr.nonce ≤ s'.recvNonce)
    (hnext : t.body.key = s.nextSendShared → hdr.localKeySeq = s.remoteKeySeq + 1 → hdr.nonce ≤ s.nextSendNonce →
      t.body.key = s'.nextRecvShared → hdr.localKeySeq = s'.remoteKeySeq + 1 → hdr.nonce ≤ s'.nextRecvNonce) :
    Past host d (g + 1) s' t hdr j where
  header := h.header
  names := h.names
  le := Nat.le_succ_of_le h.le
  near := h.near
  toSend hj := absurd hj (Nat.ne_of_lt (Nat.lt_succ_of_le h.le))
  toRecv hj := by
    obtain ⟨h1, h2, h3⟩ := h.toSend hj
    exact hcurrent h1 h2 h3
  nextToRecv hj := by
    obtain ⟨h1, h2, h3⟩ := h.toSend hj
    exact hnext h1 h2 h3

theorem nameable_succ {n : Nat} {k : CurvePublicKey} (h : Nameable ⟨host, n⟩ k) : Nameable ⟨host, n + 1⟩ k :=
  fun hk => Nat.lt_succ_of_lt (h hk)

theorem Tracks.ratchet {s' : Receiver} (h : Tracks host d g s) (hsynced : s'.info.Synced)
    (hrecv : s'.info.recvKeys = s.info.sendKeys) (hsend : s'.info.sendKeys = s.info.nextKeys)
    (hnext : s'.info.nextKeys = (newBoxKeys s.rng).1) (hseq : s'.info.localKeySeq = s.info.localKeySeq + 1)
    (hrng : s'.rng = (newBoxKeys s.rng).2) (hcur : Nameable s.rng s'.info.current)
    (hnxt : Nameable s.rng s'.info.next) :
    Tracks host d (g + 1) s' := by
  have hr : s'.rng = ⟨host, d + (g + 1 + 3)⟩ := by rw [hrng, h.rng]; rfl
  rw [h.rng] at hcur hnxt
  refine ⟨hsynced, hrecv.trans h.sendKeys, hsend.trans h.nextKeys, ?_, ?_, hr, ?_, ?_⟩
  · rw [hnext, h.rng]; rfl
  · rw [hseq, h.localKeySeq, ofNat_add]; rfl
  · rw [hr]; exact nameable_succ hcur
  · rw [hr]; exact nameable_succ hnxt

theorem Inv.update (h : Inv host d g s) {init : SessionInit} (hnames : s.Names (.update init now))
    (hkeeps : s.KeepsCount (.update init now)) :
    Inv host d (g + 1) (s.exec (.update init now)) where
  tracks := h.tracks.ratchet (SessionInfo.handleUpdate_synced ..) rfl rfl rfl rfl rfl hnames.1 hnames.2
  past t ht := by
    obtain ⟨hdr, j, hp⟩ := h.past t ht
    refine ⟨hdr, j, hp.ratchet ?_ ?_⟩
    · intro hk hr hn hk' hr'
      rcases hkeeps with hzero | ⟨hcur, -⟩
      · rwa [hzero] at hn
      refine absurd ⟨?_, ?_⟩ hcur
      · rw [hk, h.tracks.synced.nextSend] at hk'
        exact (makeSalsaBox_right_inj.mp hk').symm
      · exact hr'.symm.trans hr
    intro hk hr hn hk' hr'
    rcases hkeeps with hzero | ⟨-, hnext⟩
    · rwa [hzero] at hn
    refine absurd ⟨?_, ?_⟩ hnext
    · rw [hk, h.tracks.synced.nextSend] at hk'
      exact (makeSalsaBox_right_inj.mp hk').symm
    have : init.keySeq + 1 = s.info.remoteKeySeq + 1 := hr'.symm.trans hr
    grind
  nodup := h.nodup

theorem Inv.send (h : Inv host d g s) (msg : Bytes) (now : Instant)
    (hkeeps : s.KeepsCount (.send msg now)) : ∃ g', Inv host d g' (s.exec (.send msg now)) := by
  by_cases hover : s.info.sendNonce + 1 = 0
  · have hzero := hkeeps hover
    have hexec : s.exec (.send msg now) = ⟨{ s.info.overflowed s.rng with
        tx := s.info.tx + msg.length.toUInt64, lastActivity := now }, (newBoxKeys s.rng).2, s.accepted⟩ := by
      simp only [exec, doSend_overflow hover]
    rw [hexec]
    refine ⟨g + 1, ⟨h.tracks.ratchet ⟨rfl, rfl, rfl, rfl⟩ rfl rfl rfl rfl rfl h.tracks.current h.tracks.next,
      ?_, h.nodup⟩⟩
    intro t ht
    obtain ⟨hdr, j, hp⟩ := h.past t ht
    refine ⟨hdr, j, hp.ratchet ?_ ?_⟩ <;>
    · intro _ _ hn _ _
      rwa [hzero] at hn
  have hexec : s.exec (.send msg now) = ⟨{ s.info with
      sendNonce := s.info.sendNonce + 1, tx := s.info.tx + msg.length.toUInt64, lastActivity := now }, s.rng,
      s.accepted⟩ := by
    simp only [exec, doSend_eq hover]
  rw [hexec]
  refine ⟨g, ⟨⟨?_, h.tracks.2, h.tracks.3, h.tracks.4, h.tracks.5, h.tracks.6, h.tracks.7, h.tracks.8⟩, ?_, h.nodup⟩⟩
  · exact ⟨h.tracks.synced.1, h.tracks.synced.2, h.tracks.synced.3, h.tracks.synced.4⟩
  intro t ht
  obtain ⟨hdr, j, hp⟩ := h.past t ht
  exact ⟨hdr, j, hp.1, hp.2, hp.3, hp.4, hp.5, hp.6, hp.7⟩

structure Accepts (s : SessionInfo) (t : TrafficMsg) (hdr : TrafficHeader) (c : DecryptCase) : Prop where
  header : t.header = some hdr
  matched : s.Matches hdr c
  newer : s.caseNonce c < hdr.nonce
  key : t.body.key = s.caseShared c

theorem Past.count {s : SessionInfo} {n : UInt64}
    (h : Past host d g s t hdr j) (hc : s.Counted c n s') (hn : s.caseNonce c < n) : Past host d g s' t hdr j := by
  have hmono : ∀ e, s.caseNonce e ≤ s'.caseNonce e := by
    intro e
    rw [hc.counter]
    split
    next he => subst he; exact UInt64.le_of_lt hn
    · exact UInt64.le_refl _
  refine ⟨h.header, h.names, h.le, h.near, ?_, ?_, ?_⟩
  · intro hj
    obtain ⟨h1, h2, h3⟩ := h.toSend hj
    rw [hc.nextSendShared, hc.remoteKeySeq]
    exact ⟨h1, h2, UInt64.le_trans h3 (hmono .nextToSend)⟩
  · intro hj
    rw [hc.recvShared, hc.remoteKeySeq]
    exact fun hk hr => UInt64.le_trans (h.toRecv hj hk hr) (hmono .currentToRecv)
  intro hj
  rw [hc.nextRecvShared, hc.remoteKeySeq]
  exact fun hk hr => UInt64.le_trans (h.nextToRecv hj hk hr) (hmono .nextToRecv)

theorem Accepts.past_counted (h : Accepts s.info t hdr c) (htr : Tracks host d g s)
    (hc : s.info.Counted c hdr.nonce s') :
    Past host d g s' t hdr (localIdx g c) := by
  have hcount : s'.caseNonce c = hdr.nonce := by rw [hc.counter, if_pos rfl]
  have hmatch := h.matched
  refine ⟨h.header, htr.names h.matched, ?_, fun i hi => htr.near c (h.key ▸ hi), ?_, ?_, ?_⟩
  · cases c <;> simp [localIdx]
  · intro hj
    cases c with
    | nextToSend =>
      rw [hc.nextSendShared, hc.remoteKeySeq]
      exact ⟨h.key, hmatch.1, hcount ▸ UInt64.le_refl _⟩
    | currentToRecv | nextToRecv => simp [localIdx] at hj
  · intro hj hk hr
    cases c with
    | currentToRecv => exact hcount ▸ UInt64.le_refl _
    | nextToSend => simp [localIdx] at hj
    | nextToRecv =>
      have := hmatch.1
      rw [hc.remoteKeySeq] at hr
      grind
  intro hj hk hr
  cases c with
  | nextToRecv => exact hcount ▸ UInt64.le_refl _
  | nextToSend => simp [localIdx] at hj
  | currentToRecv =>
    have := hmatch.1
    rw [hc.remoteKeySeq] at hr
    grind

theorem Accepts.past_rotated {k : CurvePublicKey} {new : BoxKeys} (h : Accepts s.info t hdr c) (htr : Tracks host d g s)
    (hrot : s.info.Rotated k hdr.nonce now new s') : Past host d (g + 1) s' t hdr (localIdx g c) := by
  have hmatch := h.matched
  refine ⟨h.header, htr.names h.matched, ?_, fun i hi => htr.near c (h.key ▸ hi), ?_, ?_, ?_⟩
  · cases c <;> simp [localIdx] <;> omega
  · intro hj
    cases c <;> simp [localIdx] at hj <;> omega
  · intro _ _ _
    rw [hrot.recvNonce]
    exact UInt64.le_refl _
  intro hj _ hr
  cases c with
  | nextToSend =>
    have := hmatch.1
    rw [hrot.remoteKeySeq] at hr
    grind
  | currentToRecv | nextToRecv => simp [localIdx] at hj

theorem exec_recv_cases (s : Receiver) (t : TrafficMsg) (now : Instant) :
    s.exec (.recv t now) = s ∨ ∃ snap payload innerKey, s.info.recvSnapshot t = .ok snap ∧
      decryptOutsideLock snap t = .ok (payload, innerKey) ∧ s.exec (.recv t now) =
        ⟨(s.info.recvFinalize snap innerKey payload.length.toUInt64 now s.rng).1,
          (s.info.recvFinalize snap innerKey payload.length.toUInt64 now s.rng).2, s.accepted ++ [t]⟩ := by
  cases hsnap : s.info.recvSnapshot t with
  | error e => exact Or.inl (by simp only [exec, hsnap])
  | ok snap =>
    cases hdec : decryptOutsideLock snap t with
    | error e => exact Or.inl (by simp only [exec, hsnap, hdec])
    | ok r => exact Or.inr ⟨snap, r.1, r.2, rfl, hdec, by simp only [exec, hsnap, hdec]⟩

theorem Inv.recv (h : Inv host d g s) (hnames : s.Names (.recv t now))
    (hkeeps : s.KeepsCount (.recv t now)) : ∃ g', Inv host d g' (s.exec (.recv t now)) := by
  rcases s.exec_recv_cases t now with hsame | ⟨snap, payload, innerKey, hsnap, hdec, hexec⟩
  · rw [hsame]
    exact ⟨g, h⟩
  obtain ⟨hdr, hhdr, hm, hlt, hseq, hnonce, hshared⟩ := recvSnapshot_ok hsnap
  obtain ⟨hkey, -, hplain⟩ := decryptOutsideLock_ok.mp hdec
  have hacc : Accepts s.info t hdr snap.case := ⟨hhdr, hm, hlt, hkey.trans hshared⟩
  -- the message is not in the log yet
  have hnew : (s.accepted ++ [t]).Nodup := by
    refine h.nodup.append (nodup_singleton t) ?_
    intro t' ht' hmem
    obtain rfl : t' = t := by simpa using hmem
    obtain ⟨hdr', j, hp⟩ := h.past t' ht'
    exact hp.not_again h.tracks hhdr hm hlt hacc.key
  rw [hexec]
  rcases recvFinalize_cases hseq innerKey payload.length.toUInt64 now s.rng with
    ⟨hc, hrng, -⟩ | ⟨hrot, hrng, hcase, hdue⟩
  · rw [hnonce] at hc
    refine ⟨g, ⟨⟨hc.synced h.tracks.synced, hc.recvKeys.trans h.tracks.recvKeys, hc.sendKeys.trans h.tracks.sendKeys,
      hc.nextKeys.trans h.tracks.nextKeys, hc.localKeySeq.trans h.tracks.localKeySeq, hrng.trans h.tracks.rng, ?_, ?_⟩,
      ?_, hnew⟩⟩
    · rw [hrng, hc.current]; exact h.tracks.current
    · rw [hrng, hc.next]; exact h.tracks.next
    intro t' ht'
    rcases mem_append.mp ht' with ht' | ht'
    · obtain ⟨hdr', j, hp⟩ := h.past t' ht'
      exact ⟨hdr', j, hp.count hc hlt⟩
    obtain rfl : t' = t := by simpa using ht'
    exact ⟨hdr, _, hacc.past_counted h.tracks hc⟩
  rw [hnonce] at hrot
  -- what was counted for the sending key is behind the nonce the new current key starts from
  have hbehind : s.info.nextSendNonce ≤ hdr.nonce := by
    cases hc : snap.case with
    | currentToRecv => exact absurd hc hcase
    | nextToSend => rw [hc] at hlt; exact UInt64.le_of_lt hlt
    | nextToRecv => rw [hc] at hm; exact hkeeps hdr hhdr hm hdue
  have hinner : Nameable s.rng innerKey := hnames innerKey (by rw [hplain]; rfl)
  refine ⟨g + 1, ⟨h.tracks.ratchet hrot.synced hrot.recvKeys hrot.sendKeys hrot.nextKeys hrot.localKeySeq hrng
    (by rw [hrot.current]; exact h.tracks.next) (by rw [hrot.next]; exact hinner), ?_, hnew⟩⟩
  intro t' ht'
  rcases mem_append.mp ht' with ht' | ht'
  · obtain ⟨hdr', j, hp⟩ := h.past t' ht'
    refine ⟨hdr', j, hp.ratchet ?_ ?_⟩
    · intro _ _ hn _ _
      rw [hrot.recvNonce]
      exact UInt64.le_trans hn hbehind
    intro _ hr _ _ hr'
    rw [hrot.remoteKeySeq] at hr'
    grind
  obtain rfl : t' = t := by simpa using ht'
  exact ⟨hdr, _, hacc.past_rotated h.tracks hrot⟩

theorem Inv.start {current next : CurvePublicKey} {rng : Rng} (hcur : Nameable rng current) (hnext : Nameable rng next)
    (seq : UInt64) (now : Instant) : Inv rng.host rng.drawn 0 (Receiver.start current next seq now rng) where
  tracks := ⟨SessionInfo.new_synced .., rfl, rfl, rfl, rfl, rfl, nameable_succ (nameable_succ (nameable_succ hcur)),
    nameable_succ (nameable_succ (nameable_succ hnext))⟩
  past t ht := by cases ht
  nodup := nodup_nil

/-- No message is accepted twice, in every run that keeps the count. -/
theorem accepted_nodup (current next : CurvePublicKey) (seq : UInt64) (now : Instant) (rng : Rng)
    (hcur : Nameable rng current) (hnext : Nameable rng next) (es : List Event) (s : Receiver)
    (h : Lts.Run (Lts.Guarded Step KeepsCount) (start current next seq now rng) es s) : s.accepted.Nodup := by
  have hinv : ∃ g, Inv rng.host rng.drawn g s := by
    refine h.invariant (I := fun s => ∃ g, Inv rng.host rng.drawn g s) ⟨0, Inv.start hcur hnext seq now⟩ ?_
    rintro s e _ ⟨g, hg⟩ ⟨⟨hnames, rfl⟩, hkeeps⟩
    cases e with
    | recv t now => exact hg.recv hnames hkeeps
    | update init now => exact ⟨g + 1, hg.update hnames hkeeps⟩
    | send msg now => exact hg.send msg now hkeeps
  obtain ⟨g, hg⟩ := hinv
  exact hg.nodup

instance (s : Receiver) : ∀ e, Decidable (s.Names e)
  | .recv t _ => inferInstanceAs (Decidable (∀ k ∈ t.body.plain.innerKey, Nameable s.rng k))
  | .update _ _ => inferInstanceAs (Decidable (_ ∧ _))
  | .send _ _ => inferInstanceAs (Decidable True)

instance (s : SessionInfo) (hdr : TrafficHeader) : ∀ c, Decidable (s.Matches hdr c)
  | .currentToRecv => inferInstanceAs (Decidable (_ ∧ _))
  | .nextToSend => inferInstanceAs (Decidable (_ ∧ _))
  | .nextToRecv => inferInstanceAs (Decidable (_ ∧ _))

instance (s : Receiver) : ∀ e, Decidable (s.KeepsCount e)
  | .recv t now => inferInstanceAs (Decidable (∀ hdr ∈ t.header, s.info.Matches hdr .nextToRecv →
      s.info.shouldRotate now → s.info.nextSendNonce ≤ hdr.nonce))
  | .update _ _ => inferInstanceAs (Decidable (_ ∨ _))
  | .send _ _ => inferInstanceAs (Decidable (_ → _))

def remote (i : Nat) : CurvePublicKey := ⟨⟨2, i⟩⟩

def remoteMsg (i j : Nat) (keySeq ourKeySeq : UInt64) : TrafficMsg :=
  ⟨some ⟨keySeq, ourKeySeq, 1⟩, s(remote i, ⟨⟨1, j⟩⟩), 1, some (remote (i + 1)), [7]⟩

def rotateThenCount : List Event := [.recv (remoteMsg 1 1 1 0) 0, .recv (remoteMsg 2 2 2 1) 1, .send [9] 2]

theorem accepted_nodup_rotateThenCount :
    Lts.Run (Lts.Guarded Step KeepsCount) (start (remote 0) (remote 1) 5 0 ⟨1, 0⟩) rotateThenCount
        (rotateThenCount.foldl exec (start (remote 0) (remote 1) 5 0 ⟨1, 0⟩)) ∧
      (rotateThenCount.foldl exec (start (remote 0) (remote 1) 5 0 ⟨1, 0⟩)).accepted.length = 2 ∧
      (rotateThenCount.foldl exec (start (remote 0) (remote 1) 5 0 ⟨1, 0⟩)).accepted.Nodup := by
  have hadm : Lts.Admitted exec (fun s e => s.Names e ∧ s.KeepsCount e) (start (remote 0) (remote 1) 5 0 ⟨1, 0⟩)
      rotateThenCount := by decide
  have hrun : Lts.Run (Lts.Guarded Step KeepsCount) (start (remote 0) (remote 1) 5 0 ⟨1, 0⟩) rotateThenCount _ :=
    hadm.run fun _ _ h => ⟨⟨h.1, rfl⟩, h.2⟩
  exact ⟨hrun, by decide, accepted_nodup (remote 0) (remote 1) 5 0 ⟨1, 0⟩ (by decide)
    (by decide) rotateThenCount _ hrun⟩

def initThenReplay : List Event :=
  [.recv (remoteMsg 1 1 1 0) 0, .recv (remoteMsg 2 2 2 1) 1, .update ⟨remote 2, remote 3, 2, 6⟩ 2,
    .recv (remoteMsg 2 2 2 1) 3]

theorem init_replays_message : ¬ ∀ (current next : CurvePublicKey) (seq : UInt64) (now : Instant) (rng : Rng),
    Nameable rng current → Nameable rng next → ∀ (es : List Event) (s : Receiver),
      Lts.Run Step (start current next seq now rng) es s → s.accepted.Nodup := by
  intro h
  have hadm : Lts.Admitted exec Names (start (remote 0) (remote 1) 5 0 ⟨1, 0⟩) initThenReplay := by decide
  have hrun : Lts.Run Step (start (remote 0) (remote 1) 5 0 ⟨1, 0⟩) initThenReplay _ :=
    hadm.run fun _ _ h => ⟨h, rfl⟩
  exact absurd (h _ _ _ _ _ (by decide) (by decide) _ _ hrun) (by decide)

end Receiver

end Yggdrasil.Session
