import Yggdrasil.Session.Net

/-!
# A delivered payload was written by the other side

The network redirects, duplicates, reorders and rewrites headers.
-/

namespace Yggdrasil.Session
open Nat SessionInfo List Option World
open SessionInfo (decryptOutsideLock DecryptCase)

/-! ## Keys not sealed under yet -/

def Slot.Kept (s : Slot) (k : CurvePublicKey) : Prop :=
  (∃ info, s.session = some info ∧ info.nextKeys.pub = k) ∨
    ∃ buf, s.buffer = some buf ∧ (buf.currentKeys.pub = k ∨ buf.nextKeys.pub = k)

def Slot.Unused (s : Slot) (k : CurvePublicKey) : Prop :=
  k.host = s.rng.host ∧ (s.rng.drawn ≤ k.idx ∨ s.Kept k)

structure Reads (ids : Ids) (w : World) (p : Side) (s : SessionInfo) : Prop where
  synced : s.Synced
  recvHost : s.recvKeys.pub.host = ids.key p
  sendHost : s.sendKeys.pub.host = ids.key p
  currentHost : s.current.host = ids.key p.other
  nextHost : s.next.host = ids.key p.other
  remoteOrder : s.current.idx < s.next.idx
  localOrder : s.sendKeys.pub.idx < s.nextKeys.pub.idx
  recv_ne : s.recvKeys.pub ≠ s.sendKeys.pub
  used : ¬ (w.slot p).Unused s.sendKeys.pub
  only : ∀ t, w.Sealed p t → s.sendKeys.pub ∈ t.body.key → t.body.key = s.sendShared
  clear : ∀ t c, w.Sealed p t → t.body.key ≠ s.caseShared c

structure From (ids : Ids) (W : Side → Bytes → Prop) (p : Side) (c : Sealed TrafficInner) : Prop where
  key : ∃ x y inner, c.key = s(y, x) ∧ x.host = ids.key p ∧ y.host = ids.key p.other ∧
    c.plain.innerKey = some inner ∧ inner.host = ids.key p ∧ x.idx < inner.idx
  payload : W p c.plain.payload ∨ c.plain.payload = KEEPALIVE_ACK

structure OriginInv (ids : Ids) (W : Side → Bytes → Prop) (w : World) : Prop where
  host : ∀ p, (w.slot p).rng.host = ids.key p
  kept : ∀ p k, (w.slot p).Kept k → k.host = ids.key p ∧ k.idx < (w.slot p).rng.drawn
  alone : ∀ p s, (w.slot p).session = some s → (w.slot p).buffer = none
  reads : ∀ p s, (w.slot p).session = some s → Reads ids w p s
  bufferOrder : ∀ p b, (w.slot p).buffer = some b → b.currentKeys.pub.idx < b.nextKeys.pub.idx
  bufferData : ∀ p b msg, (w.slot p).buffer = some b → b.data = some msg → W p msg
  announced : ∀ p init, w.Announced p init →
    init.current.host = ids.key p ∧ init.next.host = ids.key p ∧ init.current.idx < init.next.idx
  sealed : ∀ p t, w.Sealed p t → From ids W p t.body
  unused : ∀ p t, w.Sealed p t → ∀ k ∈ t.body.key, ¬ (w.slot p).Unused k

section Put
variable {ids : Ids} {W : Side → Bytes → Prop} {w : World} {p : Side} {s' : Slot} {ps : List Packet}

theorem OriginInv.put (hinv : OriginInv ids W w) (hhost : s'.rng.host = (w.slot p).rng.host)
    (hunused : ∀ k, s'.Unused k → (w.slot p).Unused k)
    (hkept : ∀ k, s'.Kept k → k.host = ids.key p ∧ k.idx < s'.rng.drawn)
    (hsession : ∀ s, s'.session = some s → Reads ids (w.put p s' ps) p s ∧ s'.buffer = none)
    (hbuffer : ∀ b, s'.buffer = some b → b.currentKeys.pub.idx < b.nextKeys.pub.idx ∧
      ∀ msg, b.data = some msg → W p msg)
    (hannounced : ∀ h : SealedInit, Packet.init h ∈ ps ∨ Packet.ack h ∈ ps →
      h.init.current.host = ids.key p ∧ h.init.next.host = ids.key p ∧ h.init.current.idx < h.init.next.idx)
    (htraffic : ∀ t, Packet.traffic t ∈ ps → From ids W p t.body ∧ ∀ k ∈ t.body.key, ¬ s'.Unused k) :
    OriginInv ids W (w.put p s' ps) := by
  have hother : ∀ t, (w.put p s' ps).Sealed p.other t → w.Sealed p.other t := fun t ht =>
    (sealed_put ht).resolve_right fun hc => Side.other_ne p hc.1
  refine
    { host := forall_put (P := fun q s => s.rng.host = ids.key q) (hhost.trans (hinv.host p)) (hinv.host _)
      kept := forall_put (P := fun q s => ∀ k, s.Kept k → k.host = ids.key q ∧ k.idx < s.rng.drawn) hkept
        (hinv.kept _)
      alone := forall_put (P := fun _ s => ∀ i, s.session = some i → s.buffer = none)
        (fun i hi => (hsession i hi).2) (hinv.alone _)
      reads := forall_put (P := fun q s => ∀ i, s.session = some i → Reads ids (w.put p s' ps) q i)
        (fun i hi => (hsession i hi).1) ?_
      bufferOrder := forall_put
        (P := fun _ s => ∀ b, s.buffer = some b → b.currentKeys.pub.idx < b.nextKeys.pub.idx)
        (fun b hb => (hbuffer b hb).1) (hinv.bufferOrder _)
      bufferData := forall_put (P := fun q s => ∀ b msg, s.buffer = some b → b.data = some msg → W q msg)
        (fun b msg hb => (hbuffer b hb).2 msg) (hinv.bufferData _)
      announced := ?_
      sealed := ?_
      unused := forall_put
        (P := fun q s => ∀ t, (w.put p s' ps).Sealed q t → ∀ k ∈ t.body.key, ¬ s.Unused k) ?_ ?_ }
  · intro i hi
    have old := hinv.reads _ i hi
    exact { old with
      used := by rw [put_slot_other]; exact old.used
      only := fun t ht => old.only t (hother t ht)
      clear := fun t c ht => old.clear t c (hother t ht) }
  · intro q init hinit
    rcases announced_put hinit with h | ⟨rfl, h, hmem, rfl⟩
    · exact hinv.announced q init h
    · exact hannounced h hmem
  · intro q t ht
    rcases sealed_put ht with hold | ⟨rfl, hnew⟩
    · exact hinv.sealed q t hold
    · exact (htraffic t hnew).1
  · intro t ht k hk hun
    rcases sealed_put ht with hold | ⟨-, hnew⟩
    · exact hinv.unused p t hold k hk (hunused k hun)
    · exact (htraffic t hnew).2 k hk hun
  · exact fun t ht => hinv.unused _ t (hother t ht)

end Put

section Steps
variable {ids : Ids} {W : Side → Bytes → Prop} {w : World} {p : Side}

theorem Slot.not_unused {s : Slot} {k : CurvePublicKey} (hlt : k.idx < s.rng.drawn) (hkept : ¬ s.Kept k) :
    ¬ s.Unused k := by
  rintro ⟨-, h | h⟩
  · exact absurd hlt (not_lt.mpr h)
  · exact hkept h

theorem Slot.not_unused_of_host {s : Slot} {k : CurvePublicKey} (h : k.host ≠ s.rng.host) : ¬ s.Unused k :=
  fun hk => h hk.1

structure GoesOver (ids : Ids) (w : World) (p : Side) (s : SessionInfo) (rng : Rng) : Prop where
  host : rng.host = (w.slot p).rng.host
  drawn : (w.slot p).rng.drawn ≤ rng.drawn
  synced : s.Synced
  recvHost : s.recvKeys.pub.host = ids.key p
  recv_ne : s.recvKeys.pub ≠ s.sendKeys.pub
  send : (w.slot p).Unused s.sendKeys.pub
  send_lt : s.sendKeys.pub.idx < rng.drawn
  next_host : s.nextKeys.pub.host = ids.key p
  next_ge : (w.slot p).rng.drawn ≤ s.nextKeys.pub.idx ∨ (w.slot p).Kept s.nextKeys.pub
  next_lt : s.nextKeys.pub.idx < rng.drawn
  localOrder : s.sendKeys.pub.idx < s.nextKeys.pub.idx
  currentHost : s.current.host = ids.key p.other
  nextHost : s.next.host = ids.key p.other
  remoteOrder : s.current.idx < s.next.idx
  recv_clear : ∀ t, w.Sealed p t → t.body.key ≠ makeSalsaBox s.current s.recvKeys.priv ∧
    t.body.key ≠ makeSalsaBox s.next s.recvKeys.priv

theorem OriginInv.goesOver (hinv : OriginInv ids W w) {s : SessionInfo} {rng : Rng} (h : GoesOver ids w p s rng) :
    OriginInv ids W (w.put p ⟨some s, none, rng⟩ []) := by
  have hkept : ∀ k, Slot.Kept ⟨some s, none, rng⟩ k → k = s.nextKeys.pub := by
    rintro k (⟨info, hinfo, rfl⟩ | ⟨buf, hbuf, -⟩)
    · cases hinfo; rfl
    · cases hbuf
  have hsealed : ∀ t, (w.put p ⟨some s, none, rng⟩ []).Sealed p t → w.Sealed p t := fun t ht => by
    simpa using sealed_put ht
  -- nothing was sealed under the new sending key
  have hfresh : ∀ t, w.Sealed p t → s.sendKeys.pub ∉ t.body.key := fun t ht hk => hinv.unused p t ht _ hk h.send
  refine hinv.put h.host ?_ ?_ ?_ (by simp) (by simp) (by simp)
  · rintro k ⟨hhost, hk⟩
    refine ⟨hhost.trans h.host, ?_⟩
    rcases hk with hk | hk
    · exact .inl (h.drawn.trans hk)
    · rw [hkept k hk]; exact h.next_ge
  · intro k hk
    rw [hkept k hk]
    exact ⟨h.next_host, h.next_lt⟩
  rintro s' ⟨⟩
  refine ⟨⟨h.synced, h.recvHost, h.send.1.trans (hinv.host p), h.currentHost, h.nextHost, h.remoteOrder, h.localOrder,
    h.recv_ne, ?_, ?_, ?_⟩, rfl⟩
  · rw [put_slot_self]
    exact Slot.not_unused h.send_lt fun hk => h.localOrder.ne (congrArg CurvePublicKey.idx (hkept _ hk))
  · exact fun t ht hk => absurd hk (hfresh t (hsealed t ht))
  intro t c ht hk
  rw [h.synced.caseShared] at hk
  cases c with
  | currentToRecv => exact (h.recv_clear t (hsealed t ht)).1 hk
  | nextToSend => exact hfresh t (hsealed t ht) (hk ▸ Sym2.mem_mk_right ..)
  | nextToRecv => exact (h.recv_clear t (hsealed t ht)).2 hk

theorem OriginInv.keep (hinv : OriginInv ids W w) {s' : Slot} {ps : List Packet}
    (hhost : s'.rng.host = (w.slot p).rng.host) (hdrawn : (w.slot p).rng.drawn ≤ s'.rng.drawn)
    (hsession : ∀ i', s'.session = some i' → ∃ i, (w.slot p).session = some i ∧ i'.Synced ∧
      i'.recvKeys = i.recvKeys ∧ i'.sendKeys = i.sendKeys ∧ i'.nextKeys = i.nextKeys ∧ i'.current = i.current ∧
      i'.next = i.next)
    (hbuffer : ∀ b', s'.buffer = some b' → ∃ b, (w.slot p).buffer = some b ∧ b'.currentKeys = b.currentKeys ∧
      b'.nextKeys = b.nextKeys ∧ ∀ msg, b'.data = some msg → b.data = some msg ∨ W p msg)
    (hannounced : ∀ h : SealedInit, Packet.init h ∈ ps ∨ Packet.ack h ∈ ps →
      h.init.current.host = ids.key p ∧ h.init.next.host = ids.key p ∧ h.init.current.idx < h.init.next.idx)
    (hps : ∀ t, Packet.traffic t ∉ ps) : OriginInv ids W (w.put p s' ps) := by
  have hkept : ∀ k, s'.Kept k → (w.slot p).Kept k := by
    rintro k (⟨i', hi', rfl⟩ | ⟨b', hb', hk⟩)
    · obtain ⟨i, hi, -, -, -, hnext, -⟩ := hsession i' hi'
      exact .inl ⟨i, hi, by rw [hnext]⟩
    obtain ⟨b, hb, hcur, hnext, -⟩ := hbuffer b' hb'
    exact .inr ⟨b, hb, by rwa [← hcur, ← hnext]⟩
  have hunused : ∀ k, s'.Unused k → (w.slot p).Unused k := fun k hk =>
    ⟨hk.1.trans hhost, hk.2.imp hdrawn.trans (hkept k)⟩
  have hsealed : ∀ t, (w.put p s' ps).Sealed p t → w.Sealed p t := fun t ht =>
    (sealed_put ht).resolve_right fun hc => hps t hc.2
  refine hinv.put hhost hunused ?_ ?_ ?_ hannounced (fun t ht => absurd ht (hps t))
  · exact fun k hk => (hinv.kept p k (hkept k hk)).imp_right fun h => lt_of_lt_of_le h hdrawn
  · intro i' hi'
    obtain ⟨i, hi, hsynced, hrecv, hsend, hnextKeys, hcur, hnext⟩ := hsession i' hi'
    have old := hinv.reads p i hi
    have hshared : i'.sendShared = i.sendShared := by rw [hsynced.send, old.synced.send, hcur, hsend]
    have hcase : ∀ c, i'.caseShared c = i.caseShared c := by
      intro c
      rw [hsynced.caseShared, old.synced.caseShared]
      cases c <;> simp only [remoteKey, localKeys, hcur, hnext, hrecv, hsend]
    refine ⟨⟨hsynced, hrecv ▸ old.recvHost, hsend ▸ old.sendHost, hcur ▸ old.currentHost, hnext ▸ old.nextHost, ?_, ?_,
      ?_, ?_, ?_, ?_⟩, ?_⟩
    · rw [hcur, hnext]; exact old.remoteOrder
    · rw [hsend, hnextKeys]; exact old.localOrder
    · rw [hrecv, hsend]; exact old.recv_ne
    · rw [put_slot_self, hsend]
      exact fun h => old.used (hunused _ h)
    · intro t ht
      rw [hsend, hshared]
      exact old.only t (hsealed t ht)
    · intro t c ht
      rw [hcase]
      exact old.clear t c (hsealed t ht)
    cases hb' : s'.buffer with
    | none => rfl
    | some b' =>
      obtain ⟨b, hb, -⟩ := hbuffer b' hb'
      rw [hinv.alone p i hi] at hb
      cases hb
  intro b' hb'
  obtain ⟨b, hb, hcur, hnext, hdata⟩ := hbuffer b' hb'
  rw [hcur, hnext]
  exact ⟨hinv.bufferOrder p b hb, fun msg hmsg => (hdata msg hmsg).elim (hinv.bufferData p b msg hb) id⟩

variable {info : SessionInfo} {h : SealedInit}

section
variable (hinv : OriginInv ids W w)
include hinv

theorem OriginInv.ratchet {r : SessionInfo} (hs : (w.slot p).session = some info)
    (hrecv : r.recvKeys = info.sendKeys) (hsend : r.sendKeys = info.nextKeys)
    (hnext : r.nextKeys = (newBoxKeys (w.slot p).rng).1) (hsynced : r.Synced)
    (hcurrentHost : r.current.host = ids.key p.other) (hnextHost : r.next.host = ids.key p.other)
    (hremote : r.current.idx < r.next.idx)
    (hecho : ∀ t, w.Sealed p t → t.body.key = info.sendShared → r.current ≠ info.current ∧ r.next ≠ info.current) :
    GoesOver ids w p r (newBoxKeys (w.slot p).rng).2 := by
  have old := hinv.reads p info hs
  have hkept : (w.slot p).Kept info.nextKeys.pub := .inl ⟨info, hs, rfl⟩
  obtain ⟨hhost, hlt⟩ := hinv.kept p _ hkept
  have hclear : ∀ t k, w.Sealed p t → t.body.key = makeSalsaBox k info.sendKeys.priv →
      k = info.current ∧ t.body.key = info.sendShared := by
    intro t k ht hk
    have hshared := old.only t ht (hk ▸ Sym2.mem_mk_right ..)
    have hk' := hk.symm.trans (hshared.trans old.synced.send)
    exact ⟨makeSalsaBox_right_inj.mp hk', hshared⟩
  refine ⟨rfl, le_succ _, hsynced, ?_, ?_, ?_, ?_, ?_, .inl ?_, ?_, ?_, hcurrentHost, hnextHost, hremote, ?_⟩
  · rw [hrecv]; exact old.sendHost
  · rw [hrecv, hsend]
    exact fun h => old.localOrder.ne (congrArg CurvePublicKey.idx h)
  · rw [hsend]
    exact ⟨hhost.trans (hinv.host p).symm, .inr hkept⟩
  · rw [hsend]; exact lt_succ_of_lt hlt
  · rw [hnext]; exact hinv.host p
  · rw [hnext]; exact le_refl _
  · rw [hnext]; exact lt_succ_self _
  · rw [hsend, hnext]; exact hlt
  intro t ht
  rw [hrecv]
  constructor
  · intro hk
    obtain ⟨hcur, hshared⟩ := hclear t _ ht hk
    exact (hecho t ht hshared).1 hcur
  intro hk
  obtain ⟨hcur, hshared⟩ := hclear t _ ht hk
  exact (hecho t ht hshared).2 hcur

theorem OriginInv.update (hs : (w.slot p).session = some info) {init : SessionInit} (hinit : w.Announced p.other init)
    (hecho : ∀ t, w.Sealed p t → t.body.key = info.sendShared → init.current ≠ info.current ∧ init.next ≠ info.current)
    (now : Instant) : OriginInv ids W (w.put p ((w.slot p).updated info init now) []) := by
  obtain ⟨hc, hn, hlt⟩ := hinv.announced _ _ hinit
  have h := hinv.goesOver (hinv.ratchet (r := (info.handleUpdate init now (w.slot p).rng).1) hs rfl rfl rfl
    (handleUpdate_synced ..) hc hn hlt hecho)
  rwa [← hinv.alone p info hs] at h

theorem OriginInv.created_keys (p : Side) (init : SessionInit) (now : Instant) : let c := (w.slot p).created init now
    c.Synced ∧ c.recvKeys = (newBoxKeys (w.slot p).rng).1 ∧ c.recvKeys.pub ≠ c.sendKeys.pub ∧
      (w.slot p).Unused c.sendKeys.pub ∧ (w.slot p).Unused c.nextKeys.pub ∧
      c.sendKeys.pub.idx < c.nextKeys.pub.idx ∧ c.nextKeys.pub.idx < (w.slot p).rng.drawn + 3 ∧
      c.current = init.current ∧ c.next = init.next := by
  cases hb : (w.slot p).buffer with
  | none =>
    simp only [Slot.created, hb]
    refine ⟨new_synced .., rfl, ?_, ⟨rfl, .inl (le_add_right _ 1)⟩,
      ⟨rfl, .inl (le_add_right _ 2)⟩, lt_succ_self _, lt_succ_self _, rfl, rfl⟩
    exact fun h => absurd (congrArg CurvePublicKey.idx h) (lt_succ_self _).ne
  | some buf =>
    simp only [Slot.created, hb]
    have hcur : (w.slot p).Kept buf.currentKeys.pub := .inr ⟨buf, hb, .inl rfl⟩
    have hnext : (w.slot p).Kept buf.nextKeys.pub := .inr ⟨buf, hb, .inr rfl⟩
    obtain ⟨hch, hclt⟩ := hinv.kept p _ hcur
    obtain ⟨hnh, hnlt⟩ := hinv.kept p _ hnext
    refine ⟨fixShared_synced .., rfl, ?_, ⟨hch.trans (hinv.host p).symm, .inr hcur⟩,
      ⟨hnh.trans (hinv.host p).symm, .inr hnext⟩, hinv.bufferOrder p buf hb,
      lt_of_lt_of_le hnlt (le_add_right _ 3), rfl, rfl⟩
    exact fun h => absurd (congrArg CurvePublicKey.idx h) hclt.ne'

theorem OriginInv.openInit {init : SessionInit} (hinit : w.Announced p.other init)
    (now : Instant) : OriginInv ids W (w.put p ((w.slot p).opened init now) []) := by
  obtain ⟨hsynced, hrecv, hne, hsend, hnext, hlt, hdrawn, hcur, hnxt⟩ := hinv.created_keys p init now
  obtain ⟨hc, hn, hord⟩ := hinv.announced _ _ hinit
  have hnew : (w.slot p).Unused ((w.slot p).created init now).recvKeys.pub := by
    rw [hrecv]; exact ⟨rfl, .inl (le_refl _)⟩
  refine hinv.goesOver ⟨rfl, le_add_right _ 3, hsynced, hnew.1.trans (hinv.host p), hne, hsend, hlt.trans hdrawn,
    hnext.1.trans (hinv.host p), hnext.2, hdrawn, hlt, hcur ▸ hc, hnxt ▸ hn, ?_, ?_⟩
  · rw [hcur, hnxt]; exact hord
  intro t ht
  constructor <;>
  · intro hk
    exact hinv.unused p t ht _ (hk ▸ Sym2.mem_mk_right ..) hnew

theorem OriginInv.openAck {ack : SessionInit} (hack : w.Announced p.other ack)
    (now : Instant) : OriginInv ids W (w.put p ((w.slot p).openedAck ack now) []) := by
  by_cases hnew : ack.seq > ((w.slot p).created ack now).seq
  · rw [Slot.openedAck_newer hnew]
    obtain ⟨-, -, -, hsend, hnext, hlt, hdrawn, -, -⟩ := hinv.created_keys p ack now
    obtain ⟨hc, hn, hord⟩ := hinv.announced _ _ hack
    -- the key announced in the buffer's init becomes the receiving key; nothing was sealed under it
    refine hinv.goesOver ⟨rfl, le_add_right _ 4, handleUpdate_synced .., hsend.1.trans (hinv.host p),
      fun h => hlt.ne (congrArg CurvePublicKey.idx h), hnext, lt_succ_of_lt hdrawn, hinv.host p,
      .inl (le_add_right _ 3), lt_succ_self _, hdrawn, hc, hn, hord, ?_⟩
    intro t ht
    constructor <;>
    · intro hk
      exact hinv.unused p t ht _ (hk ▸ Sym2.mem_mk_right ..) hsend
  rw [Slot.openedAck_stale hnew]
  exact hinv.openInit hack now

theorem OriginInv.accepted_from {t : TrafficMsg}
    {snap : SessionInfo.RecvSnapshot} {r : Bytes × CurvePublicKey} (hs : (w.slot p).session = some info)
    (ht : ∃ q t', w.Sealed q t' ∧ t'.body = t.body) (hsnap : info.recvSnapshot t = .ok snap)
    (hdec : decryptOutsideLock snap t = .ok r) :
    From ids W p.other t.body ∧ t.body.key = info.caseShared snap.case := by
  obtain ⟨-, -, -, -, -, -, hshared⟩ := recvSnapshot_ok hsnap
  have hkey : t.body.key = info.caseShared snap.case := by
    rw [(decryptOutsideLock_ok.mp hdec).1, hshared]
  obtain ⟨q, t', ht', hbody⟩ := ht
  refine ⟨?_, hkey⟩
  rcases Side.eq_or_eq_other p q with rfl | rfl
  · rw [← hbody] at hkey
    exact absurd hkey ((hinv.reads q info hs).clear t' _ ht')
  rw [← hbody]
  exact hinv.sealed _ t' ht'

theorem OriginInv.accept {t : TrafficMsg}
    {snap : SessionInfo.RecvSnapshot} {payload : Bytes} {innerKey : CurvePublicKey}
    (hs : (w.slot p).session = some info) (ht : ∃ q t', w.Sealed q t' ∧ t'.body = t.body)
    (hsnap : info.recvSnapshot t = .ok snap) (hdec : decryptOutsideLock snap t = .ok (payload, innerKey)) (len : UInt64)
    (now : Instant) : OriginInv ids W (w.put p ((w.slot p).accepted info snap innerKey len now) []) := by
  obtain ⟨hfrom, hkey⟩ := hinv.accepted_from hs ht hsnap hdec
  obtain ⟨hdr, -, -, -, hseq, -, -⟩ := recvSnapshot_ok hsnap
  have old := hinv.reads p info hs
  rcases recvFinalize_cases hseq innerKey len now (w.slot p).rng with
    ⟨hcount, hrng, -⟩ | ⟨hrot, hrng, hcase, -⟩
  · refine hinv.keep ?_ ?_ ?_ (fun b hb => ⟨b, hb, rfl, rfl, fun _ => .inl⟩) (by simp) (by simp)
    · exact congrArg Rng.host hrng
    · exact (congrArg Rng.drawn hrng).ge
    rintro i ⟨⟩
    exact ⟨info, hs, hcount.synced old.synced, hcount.recvKeys, hcount.sendKeys, hcount.nextKeys, hcount.current,
      hcount.next⟩
  -- the message names a key later than the one it is sealed under, and that one is later than the current key
  obtain ⟨x, y, inner, hxy, hx, hy, hinner, hih, hilt⟩ := hfrom.key
  obtain rfl : inner = innerKey := by
    rw [(decryptOutsideLock_ok.mp hdec).2.2] at hinner
    exact (some.inj hinner).symm
  have hnext : x = info.next := by
    rw [hkey, old.synced.caseShared] at hxy
    rcases Sym2.eq_iff.mp hxy with ⟨hr, -⟩ | ⟨hr, -⟩
    · -- the remote key of the path is not the receiver's own
      have hrh : (info.remoteKey snap.case).host = ids.key p.other := by
        cases snap.case
        · exact old.currentHost
        · exact old.nextHost
        · exact old.nextHost
      rw [hr, hy, Side.other_other] at hrh
      exact absurd hrh.symm (ids.key_other_ne p)
    cases hc : snap.case with
    | currentToRecv => exact absurd hc hcase
    | nextToSend | nextToRecv => rw [hc] at hr; exact hr.symm
  rw [hnext] at hilt
  have h := hinv.goesOver (hinv.ratchet hs hrot.recvKeys hrot.sendKeys hrot.nextKeys hrot.synced
    (by rw [hrot.current]; exact old.nextHost) (by rw [hrot.next]; exact hih)
    (by rw [hrot.current, hrot.next]; exact hilt) (fun t' _ _ => by
      rw [hrot.current, hrot.next]
      exact ⟨fun h => old.remoteOrder.ne' (congrArg CurvePublicKey.idx h),
        fun h => (old.remoteOrder.trans hilt).ne' (congrArg CurvePublicKey.idx h)⟩))
  rw [← hrng] at h
  rwa [← hinv.alone p info hs] at h

end

theorem Reads.localKeys_host (h : Reads ids w p info) (c : SessionInfo.DecryptCase) :
    (info.localKeys c).pub.host = ids.key p := by
  cases c with
  | currentToRecv | nextToRecv => exact h.recvHost
  | nextToSend => exact h.sendHost

theorem Reads.sendShared_ne (h : Reads ids w p info) (c : SessionInfo.DecryptCase) :
    info.sendShared ≠ info.caseShared c := by
  intro hc
  rw [h.synced.send, h.synced.caseShared] at hc
  have hhost : info.current.host ≠ (info.localKeys c).pub.host := by
    rw [h.currentHost, h.localKeys_host]
    exact ids.key_other_ne p
  obtain ⟨hr, hl⟩ := makeSalsaBox_inj hc hhost
  cases c with
  | currentToRecv | nextToRecv => exact h.recv_ne (congrArg BoxKeys.pub hl).symm
  | nextToSend => exact h.remoteOrder.ne (congrArg CurvePublicKey.idx hr)

theorem OriginInv.sealMsg (hinv : OriginInv ids W w) (hs : (w.slot p).session = some info)
    {msg : Bytes} (hmsg : W p msg ∨ msg = KEEPALIVE_ACK) (hover : info.sendNonce + 1 ≠ 0) (now : Instant) :
    OriginInv ids W
      (w.put p ((w.slot p).sealed info msg now) [.traffic (info.doSend msg now (w.slot p).rng).1]) := by
  have old := hinv.reads p info hs
  have hkept : (w.slot p).Kept info.nextKeys.pub := .inl ⟨info, hs, rfl⟩
  unfold Slot.sealed
  rw [doSend_eq hover]
  have hunused : ∀ k, Slot.Unused ⟨some { info with
      sendNonce := info.sendNonce + 1, tx := info.tx + msg.length.toUInt64, lastActivity := now }, (w.slot p).buffer,
      (w.slot p).rng⟩ k → (w.slot p).Unused k := by
    rintro k ⟨hk, hd | hd⟩
    · exact ⟨hk, .inl hd⟩
    refine ⟨hk, .inr ?_⟩
    rcases hd with ⟨i, hi, rfl⟩ | hd
    · cases hi; exact hkept
    · exact .inr hd
  refine hinv.put rfl hunused ?_ ?_ (fun b hb => ⟨hinv.bufferOrder p b hb, fun m => hinv.bufferData p b m hb⟩)
    (by simp) ?_
  · rintro k (⟨i, hi, rfl⟩ | hk)
    · cases hi; exact hinv.kept p _ hkept
    · exact hinv.kept p k (.inr hk)
  · rintro i ⟨⟩
    refine ⟨⟨⟨old.synced.1, old.synced.2, old.synced.3, old.synced.4⟩, old.recvHost, old.sendHost, old.currentHost,
      old.nextHost, old.remoteOrder, old.localOrder, old.recv_ne, ?_, ?_, ?_⟩, hinv.alone p info hs⟩
    · rw [put_slot_self]
      exact fun h => old.used (hunused _ h)
    · intro t ht hk
      rcases sealed_put ht with ht | ⟨-, ht⟩
      · exact old.only t ht hk
      obtain rfl := mem_singleton.mp ht |> Packet.traffic.inj
      rfl
    intro t c ht
    rcases sealed_put ht with ht | ⟨-, ht⟩
    · exact old.clear t c ht
    obtain rfl := mem_singleton.mp ht |> Packet.traffic.inj
    exact old.sendShared_ne c
  intro t ht
  obtain rfl := mem_singleton.mp ht |> Packet.traffic.inj
  refine ⟨⟨⟨info.sendKeys.pub, info.current, info.nextKeys.pub, old.synced.send, old.sendHost, old.currentHost, rfl,
    (hinv.kept p _ hkept).1, old.localOrder⟩, hmsg⟩, ?_⟩
  intro k hk hun
  have hk' : k ∈ info.sendShared := hk
  rw [old.synced.send] at hk'
  rcases Sym2.mem_iff.mp hk' with rfl | rfl
  · refine Slot.not_unused_of_host ?_ (hunused _ hun)
    rw [old.currentHost, hinv.host]
    exact ids.key_other_ne p
  · exact old.used (hunused _ hun)

theorem OriginInv.announce (hinv : OriginInv ids W w) {rng : Rng} {d : Packet} (hd : d = .init h ∨ d = .ack h)
    (hhost : rng.host = (w.slot p).rng.host) (hdrawn : (w.slot p).rng.drawn ≤ rng.drawn)
    (hcur : h.init.current.host = ids.key p) (hnext : h.init.next.host = ids.key p)
    (hlt : h.init.current.idx < h.init.next.idx) : OriginInv ids W (w.put p { w.slot p with rng } [d]) := by
  refine hinv.keep hhost hdrawn ?_ (fun b hb => ⟨b, hb, rfl, rfl, fun _ => .inl⟩) ?_ ?_
  · exact fun i hi => ⟨i, hi, (hinv.reads p i hi).synced, rfl, rfl, rfl, rfl, rfl⟩
  · intro h' hm
    have : h' = h := by rcases hd with rfl | rfl <;> simpa using hm
    rw [this]
    exact ⟨hcur, hnext, hlt⟩
  · rcases hd with rfl | rfl <;> simp

theorem OriginInv.announceKeys (hinv : OriginInv ids W w) (hs : (w.slot p).session = some info)
    {d : Packet} (hd : d = .init h ∨ d = .ack h) (clk : Clock) (hh : h.init = info.announce clk) :
    OriginInv ids W (w.put p (w.slot p) [d]) := by
  have old := hinv.reads p info hs
  have h' : OriginInv ids W (w.put p { w.slot p with rng := (w.slot p).rng } [d]) := by
    refine hinv.announce hd rfl (le_refl _) ?_ ?_ ?_ <;> rw [hh]
    · exact old.sendHost
    · exact (hinv.kept p _ (.inl ⟨info, hs, rfl⟩)).1
    · exact old.localOrder
  exact h'

theorem OriginInv.enqueue (hinv : OriginInv ids W w) (hs : (w.slot p).session = none) {msg : Bytes} (hmsg : W p msg)
    (clk : Clock) (hh : h.init = ((w.slot p).enqueued msg clk).1.init) : OriginInv ids W (w.put p
      { w.slot p with buffer := some ((w.slot p).enqueued msg clk).1, rng := ((w.slot p).enqueued msg clk).2 }
      [.init h]) := by
  cases hb : (w.slot p).buffer with
  | some buf =>
    rw [Slot.enqueued_some hb] at hh ⊢
    refine hinv.keep rfl (le_refl _) ?_ ?_ ?_ (by simp)
    · intro i hi
      rw [hs] at hi; cases hi
    · rintro b ⟨⟩
      exact ⟨buf, hb, rfl, rfl, fun m hm => .inr (by cases hm; exact hmsg)⟩
    intro h' hm
    obtain rfl : h' = h := by simpa using hm
    rw [hh, buf.current_eq, buf.next_eq]
    exact ⟨(hinv.kept p _ (.inr ⟨buf, hb, .inl rfl⟩)).1, (hinv.kept p _ (.inr ⟨buf, hb, .inr rfl⟩)).1,
      hinv.bufferOrder p buf hb⟩
  | none =>
    rw [Slot.enqueued_none hb] at hh ⊢
    -- the two keys of the new buffer are the next two draws
    have hkept : ∀ k, Slot.Kept
        { w.slot p with
          buffer := some ((w.slot p).drawnBuffer msg clk), rng := (newBoxKeys (newBoxKeys (w.slot p).rng).2).2 } k →
        k.host = (w.slot p).rng.host ∧ (w.slot p).rng.drawn ≤ k.idx ∧ k.idx < (w.slot p).rng.drawn + 2 := by
      rintro k (⟨i, hi, -⟩ | ⟨b, ⟨⟩, rfl | rfl⟩)
      · rw [hs] at hi; cases hi
      · exact ⟨rfl, le_refl _, lt_succ_of_lt (lt_succ_self _)⟩
      · exact ⟨rfl, le_succ _, lt_succ_self _⟩
    refine hinv.put rfl ?_ ?_ ?_ ?_ ?_ (by simp)
    · rintro k ⟨hk, hdrawn | hkept'⟩
      · exact ⟨hk, .inl ((le_add_right _ 2).trans hdrawn)⟩
      · exact ⟨hk, .inl (hkept k hkept').2.1⟩
    · intro k hk
      exact ⟨(hkept k hk).1.trans (hinv.host p), (hkept k hk).2.2⟩
    · intro i hi
      rw [hs] at hi; cases hi
    · rintro b ⟨⟩
      exact ⟨lt_succ_self _, fun m hm => by cases hm; exact hmsg⟩
    intro h' hm
    obtain rfl : h' = h := by simpa using hm
    rw [hh]
    exact ⟨hinv.host p, hinv.host p, lt_succ_self _⟩

/-- A side is handed what either side emitted, takes no echo of its own traffic, and has nonces left. -/
def EchoFree (W : Side → Bytes → Prop) (w : World) (p : Side) : SlotAct → Prop
  | .update init => w.Announced p.other init ∧ ∀ s t, (w.slot p).session = some s → w.Sealed p t →
      t.body.key = s.sendShared → init.current ≠ s.current ∧ init.next ≠ s.current
  | .openInit init => w.Announced p.other init
  | .openAck ack => w.Announced p.other ack
  | .enqueue msg => W p msg
  | .sealMsg msg => (W p msg ∨ msg = KEEPALIVE_ACK) ∧ ∀ s, (w.slot p).session = some s → s.sendNonce + 1 ≠ 0
  | .accept t => ∃ q t', w.Sealed q t' ∧ t'.body = t.body

theorem OriginInv.step (hinv : OriginInv ids W w) {w' : World} (h : World.Step ids (EchoFree W) w w') :
    OriginInv ids W w' := by
  cases h with
  | throwaway p clk hs =>
    exact hinv.announce (.inl rfl) rfl (le_add_right _ 2) (hinv.host p) (hinv.host p) (lt_succ_self _)
  | announceInit p info clk hs => exact hinv.announceKeys hs (.inl rfl) clk rfl
  | announceAck p info clk hs => exact hinv.announceKeys hs (.inr rfl) clk rfl
  | update p info init now hs hok => exact hinv.update hs hok.1 (fun t => hok.2 info t hs) now
  | openInit p init now hs hok => exact hinv.openInit hok now
  | openAck p ack now hs hok => exact hinv.openAck hok now
  | enqueue p msg clk hs hok => exact hinv.enqueue hs hok clk rfl
  | sealMsg p info msg now hs hok => exact hinv.sealMsg hs hok.1 (hok.2 info hs) now
  | accept p info t snap payload innerKey now hs hok hsnap hdec => exact hinv.accept hs hok hsnap hdec _ now
  | forgetSession p =>
    exact hinv.keep rfl (le_refl _) (by simp) (fun b hb => ⟨b, hb, rfl, rfl, fun _ => .inl⟩) (by simp) (by simp)
  | forgetBuffer p =>
    refine hinv.keep rfl (le_refl _) ?_ (by simp) (by simp) (by simp)
    exact fun i hi => ⟨i, hi, (hinv.reads p i hi).synced, rfl, rfl, rfl, rfl, rfl⟩

end Steps

/-! ## Runs under a hostile network -/

def Packet.Rewrites : Packet → Packet → Prop
  | .traffic t, .traffic t' => t'.body = t.body
  | d, data => data = d

instance : ∀ d data, Decidable (Packet.Rewrites d data)
  | .traffic t, .traffic t' => inferInstanceAs (Decidable (t'.body = t.body))
  | .traffic t, .junk => inferInstanceAs (Decidable (Packet.junk = .traffic t))
  | .traffic t, .init h => inferInstanceAs (Decidable (Packet.init h = .traffic t))
  | .traffic t, .ack h => inferInstanceAs (Decidable (Packet.ack h = .traffic t))
  | .junk, data => inferInstanceAs (Decidable (data = .junk))
  | .init h, data => inferInstanceAs (Decidable (data = .init h))
  | .ack h, data => inferInstanceAs (Decidable (data = .ack h))

/-- A network that may also redirect a packet to the side that sent it, and rewrite headers. -/
def hostile (net : Net) (_ : Side) (data : Packet) : Prop := ∃ e ∈ net.emitted, e.2.Rewrites data

instance (net : Net) (p : Side) (data : Packet) : Decidable (hostile net p data) :=
  inferInstanceAs (Decidable (∃ e ∈ net.emitted, e.2.Rewrites data))

variable {ids : Ids} {net : Net} {p : Side}

theorem hostile.traffic {t : TrafficMsg} (h : hostile net p (.traffic t)) :
    ∃ q t', (net.world ids).Sealed q t' ∧ t'.body = t.body := by
  obtain ⟨⟨q, d⟩, hd, hr⟩ := h
  cases d with
  | traffic t' => exact ⟨q, t', hd, Eq.symm hr⟩
  | _ => cases hr

theorem hostile.announced {data : Packet} {h : SealedInit} {init : SessionInit}
    (hd : data = .init h ∨ data = .ack h) (hoffer : hostile net p data) (hsigned : (net.world ids).Signed ids)
    (hdec : SessionInit.decrypt h (ids.key p) (ids.key p.other) (ids.auth p) = some init) :
    (net.world ids).Announced p.other init := by
  obtain ⟨⟨q, d⟩, hmem, hr⟩ := hoffer
  obtain ⟨-, hsigner, -, rfl⟩ := SessionInit.decrypt_eq_some.mp hdec
  have hq : (q, Packet.init h) ∈ net.emitted ∨ (q, Packet.ack h) ∈ net.emitted := by
    rcases hd with rfl | rfl
    · cases d <;> cases hr
      exact .inl hmem
    cases d <;> cases hr
    exact .inr hmem
  rcases Side.eq_or_eq_other p q with rfl | rfl
  · exact absurd ((hsigner.symm.trans (hsigned q h hq))) (ids.key_other_ne q)
  · exact ⟨h, hq, rfl⟩

/-- The handshake message would be taken over and names the remote current key, again or as the next one, which
this side has sealed under. -/
def Net.Echoes (ids : Ids) (net : Net) (p : Side) (init : SessionInit) : Prop :=
  ∃ info ∈ (net.party p).mgr.sessions (ids.key p.other), info.seq < init.seq ∧
    (∃ e ∈ net.emitted, e.1 = p ∧ e.2.use.map Prod.fst = some info.sendShared) ∧
    (init.current = info.current ∨ init.next = info.current)

def Net.HasNonce (ids : Ids) (net : Net) (p : Side) : Prop :=
  ∀ info ∈ (net.party p).mgr.sessions (ids.key p.other), info.sendNonce + 1 ≠ 0

/-- The event neither takes over an echoing handshake message nor seals with a nonce that has run out. -/
def Net.NoEcho (ids : Ids) (net : Net) : Event → Prop
  | .write p _ _ => net.HasNonce ids p
  | .receive p (.traffic _) _ => net.HasNonce ids p
  | .receive p (.init h) _ => ¬ net.Echoes ids p h.init
  | .receive p (.ack h) _ => ¬ net.Echoes ids p h.init
  | _ => True

theorem OriginInv.mono {W W' : Side → Bytes → Prop} {w : World} (h : OriginInv ids W w)
    (hW : ∀ p msg, W p msg → W' p msg) : OriginInv ids W' w :=
  { h with
    bufferData := fun p b msg hb hm => hW p msg (h.bufferData p b msg hb hm)
    sealed := fun p t ht => ⟨(h.sealed p t ht).key, (h.sealed p t ht).payload.imp_left (hW p _)⟩ }

def Net.Wrote (net : Net) (p : Side) (msg : Bytes) : Prop := (p, msg) ∈ net.written

theorem Net.wrote_exec (e : Event) {msg : Bytes} (h : net.Wrote p msg) :
    (net.exec ids e).Wrote p msg := mem_append_left _ h

/-- What was delivered was written at the other side. -/
structure Authentic (ids : Ids) (net : Net) : Prop where
  auth : net.AuthKept ids
  signed : (net.world ids).Signed ids
  origin : OriginInv ids net.Wrote (net.world ids)
  delivered : ∀ d ∈ net.delivered, d.2.1 = ids.key d.1.other ∧ net.Wrote d.1.other d.2.2

theorem Authentic.start (ids : Ids) (timeout : Duration) : Authentic ids (Net.start ids timeout) where
  auth := Net.start_authKept ids timeout
  signed := by rintro p h (hm | hm) <;> cases hm
  origin := by
    refine ⟨fun _ => rfl, ?_, ?_, ?_, ?_, ?_, ?_, ?_, ?_⟩
    · rintro p k (⟨i, ⟨⟩, -⟩ | ⟨b, ⟨⟩, -⟩)
    · rintro p s ⟨⟩
    · rintro p s ⟨⟩
    · rintro p b ⟨⟩
    · rintro p b msg ⟨⟩
    · rintro p init ⟨h, hm | hm, -⟩ <;> cases hm
    · intro p t ht; cases ht
    · intro p t ht; cases ht
  delivered := by intro d hd; cases hd

theorem Authentic.admits (h : Authentic ids net) {data : Packet} {clk : Clock}
    (hoffer : hostile net p data) (hecho : net.NoEcho ids (.receive p data clk)) :
    Admits ids (EchoFree net.Wrote) (net.world ids) p data where
  update info hs init hses hd hdec hlt := by
    refine ⟨hostile.announced hd hoffer h.signed hdec, ?_⟩
    obtain ⟨-, -, -, rfl⟩ := SessionInit.decrypt_eq_some.mp hdec
    have hno : ¬ net.Echoes ids p hs.init := by rcases hd with rfl | rfl <;> exact hecho
    intro s t hs' ht hk
    obtain rfl : s = info := some.inj (hs'.symm.trans hses)
    have hse : ∃ e ∈ net.emitted, e.1 = p ∧ e.2.use.map Prod.fst = some s.sendShared :=
      ⟨_, ht, rfl, congrArg some hk⟩
    exact ⟨fun hc => hno ⟨s, hses, hlt, hse, .inl hc⟩, fun hc => hno ⟨s, hses, hlt, hse, .inr hc⟩⟩
  openInit hs init _ hd hdec := hostile.announced (.inl hd) hoffer h.signed hdec
  openAck hs ack _ hd hdec := hostile.announced (.inr hd) hoffer h.signed hdec
  accept t hd := by
    subst hd
    exact hoffer.traffic
  sealMsg w' info msg hs hnonce hmsg := by
    refine ⟨?_, ?_⟩
    · rcases hmsg with rfl | hmsg
      · exact .inr rfl
      obtain ⟨b, hb, hdata⟩ := bind_eq_some_iff.mp hmsg
      exact .inl (h.origin.bufferData p b msg hb hdata)
    intro s hs'
    obtain rfl : s = info := some.inj (hs'.symm.trans hs)
    rcases hnonce with hzero | ⟨t, old, rfl, hold, hsame⟩
    · rw [hzero]; decide
    rw [hsame]
    exact hecho old hold

theorem Authentic.exec (h : Authentic ids net) {e : Event} (hoffer : net.Offered hostile e)
    (hecho : net.NoEcho ids e) : Authentic ids (net.exec ids e) := by
  have hmono : OriginInv ids (net.exec ids e).Wrote (net.world ids) := h.origin.mono fun p msg => Net.wrote_exec e
  have hsteps : World.Steps ids (EchoFree (net.exec ids e).Wrote) (net.world ids) ((net.exec ids e).world ids) := by
    refine Net.exec_steps h.auth e ?_ ?_ ?_
    · rintro p msg clk info rfl hs
      refine ⟨.inl (mem_append_right _ (mem_singleton.mpr rfl)), fun s hs' => ?_⟩
      exact hecho s hs'
    · rintro p msg clk rfl hs
      exact mem_append_right _ (mem_singleton.mpr rfl)
    rintro p data clk rfl
    have hw : (net.exec ids (.receive p data clk)).Wrote = net.Wrote := by
      funext q msg
      simp [Net.Wrote, Net.exec, Event.writes]
    rw [hw]
    exact h.admits hoffer hecho
  refine ⟨h.auth.exec e, hsteps.invariant h.signed fun _ _ hi hs => hi.step hs,
    hsteps.invariant hmono fun _ _ hi hs => hi.step hs, ?_⟩
  intro d hd
  rcases mem_append.mp hd with hd | hd
  · exact ⟨(h.delivered d hd).1, Net.wrote_exec e (h.delivered d hd).2⟩
  obtain ⟨⟨source, payload⟩, hmem, rfl⟩ := mem_map.mp hd
  cases e with
  | write p msg clk =>
    have hquiet := deliveries_writeTo (net.party p).mgr (ids.key p.other) (ids.key p) clk (net.party p).rng msg
    rw [Net.outcome, hquiet] at hmem
    cases hmem
  | cleanup p now => cases hmem
  | receive p data clk =>
    obtain ⟨rfl, hack, t, info, snap, innerKey, rfl, hs, hsnap, hdec⟩ := mem_deliveries_handleData hmem
    have hfrom := (h.origin.accepted_from hs (hostile.traffic (p := p) hoffer) hsnap hdec).1
    have hpl := hfrom.payload
    rw [(decryptOutsideLock_ok.mp hdec).2.2] at hpl
    exact ⟨rfl, Net.wrote_exec _ (hpl.resolve_right hack)⟩

/-- What a side delivers as from the other was passed to `write_to` by the other, in every run without an echo. -/
theorem delivered_written (ids : Ids) (timeout : Duration) (es : List Event) (net : Net)
    (h : Lts.Run (Lts.Guarded (Net.Step ids hostile) (Net.NoEcho ids)) (Net.start ids timeout) es net) (p : Side)
    (source : PublicKey) (data : Bytes) (hd : (p, source, data) ∈ net.delivered) :
    source = ids.key p.other ∧ (p.other, data) ∈ net.written := by
  have hinv : Authentic ids net := by
    refine h.invariant (Authentic.start ids timeout) ?_
    rintro net e _ hi ⟨⟨hoffer, rfl⟩, hecho⟩
    exact hi.exec hoffer hecho
  exact hinv.delivered _ hd

def oneSidedDelivery : List Event :=
  [.write .b [1] ⟨0, 1⟩, .receive .a (.init (firstInit exampleIds .b ⟨0, 1⟩)) ⟨0, 1⟩,
    .receive .b (.ack ((SessionInit.new ⟨⟨1, 1⟩⟩ ⟨⟨1, 2⟩⟩ 0 ⟨0, 1⟩).encrypt 1 2 ⟨none⟩)) ⟨0, 1⟩,
    .receive .a (.traffic ⟨some ⟨1, 0, 1⟩, s(⟨⟨1, 1⟩⟩, ⟨⟨2, 1⟩⟩), 1, some ⟨⟨2, 5⟩⟩, [1]⟩) ⟨0, 1⟩]

instance (ids : Ids) (net : Net) (p : Side) (init : SessionInit) : Decidable (net.Echoes ids p init) :=
  inferInstanceAs (Decidable (∃ info ∈ _, _))

instance (ids : Ids) (net : Net) (p : Side) : Decidable (net.HasNonce ids p) :=
  inferInstanceAs (Decidable (∀ info ∈ (net.party p).mgr.sessions (ids.key p.other), info.sendNonce + 1 ≠ 0))

instance (ids : Ids) (net : Net) : ∀ e, Decidable (net.NoEcho ids e)
  | .write p _ _ => inferInstanceAs (Decidable (net.HasNonce ids p))
  | .receive p (.traffic _) _ => inferInstanceAs (Decidable (net.HasNonce ids p))
  | .receive p (.init h) _ => inferInstanceAs (Decidable (¬ net.Echoes ids p h.init))
  | .receive p (.ack h) _ => inferInstanceAs (Decidable (¬ net.Echoes ids p h.init))
  | .receive _ .junk _ => inferInstanceAs (Decidable True)
  | .cleanup _ _ => inferInstanceAs (Decidable True)

theorem delivered_written_oneSidedDelivery :
    (.a, 2, [1]) ∈ (oneSidedDelivery.foldl (Net.exec exampleIds) (Net.start exampleIds 0)).delivered ∧
      (2 = exampleIds.key Side.a.other ∧
        (Side.a.other, [1]) ∈ (oneSidedDelivery.foldl (Net.exec exampleIds) (Net.start exampleIds 0)).written) := by
  have hadm : Lts.Admitted (Net.exec exampleIds) (fun net e => net.Offered hostile e ∧ net.NoEcho exampleIds e)
      (Net.start exampleIds 0) oneSidedDelivery := by decide
  have hrun : Lts.Run (Lts.Guarded (Net.Step exampleIds hostile) (Net.NoEcho exampleIds)) (Net.start exampleIds 0)
      oneSidedDelivery _ := hadm.run fun _ _ h => ⟨⟨h.1, rfl⟩, h.2⟩
  have hmem : (.a, 2, [1]) ∈ (oneSidedDelivery.foldl (Net.exec exampleIds) (Net.start exampleIds 0)).delivered := by
    decide
  exact ⟨hmem, delivered_written exampleIds 0 oneSidedDelivery _ hrun .a 2 [1] hmem⟩

def repeatedInit : List Event :=
  [.write .b [1] ⟨0, 1⟩, .receive .a (.init (firstInit exampleIds .b ⟨0, 1⟩)) ⟨0, 1⟩, .write .a [7] ⟨0, 1⟩,
    .receive .a (.init (firstInit exampleIds .b ⟨0, 1⟩)) ⟨0, 1⟩,
    .receive .a (.traffic ⟨some ⟨0, 0, 1⟩, s(⟨⟨2, 0⟩⟩, ⟨⟨1, 1⟩⟩), 1, some ⟨⟨1, 2⟩⟩, [7]⟩) ⟨0, 1⟩]

theorem repeated_init_echoes : ¬ ∀ (ids : Ids) (timeout : Duration) (es : List Event) (net : Net),
    Lts.Run (Net.Step ids hostile) (Net.start ids timeout) es net →
      ∀ (p : Side) (source : PublicKey) (data : Bytes), (p, source, data) ∈ net.delivered →
        source = ids.key p.other ∧ (p.other, data) ∈ net.written := by
  intro h
  have hadm : Lts.Admitted (Net.exec exampleIds) (Net.Offered hostile)
      (Net.start exampleIds 0) repeatedInit := by decide
  have hrun : Lts.Run (Net.Step exampleIds hostile) (Net.start exampleIds 0) repeatedInit _ :=
    hadm.run fun _ _ h => ⟨h, rfl⟩
  exact absurd (h _ _ _ _ hrun .a 2 [7] (by decide)).2 (by decide)
end Yggdrasil.Session
