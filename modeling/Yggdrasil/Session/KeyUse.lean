import Yggdrasil.Session.Net

/-!
# No key pair meets a nonce twice
-/

namespace Yggdrasil.Session
open SessionInfo Nat List World
open SessionInfo (decryptOutsideLock)

/-! ## Keys still to come -/

def Slot.Reserved (s : Slot) (k : CurvePublicKey) : Prop :=
  (∃ info, s.session = some info ∧ info.nextKeys.pub = k) ∨ ∃ buf, s.buffer = some buf ∧ buf.nextKeys.pub = k

/-- The key is still to come: not drawn yet, or kept as the next key of the session or of the buffer. -/
def Slot.Future (s : Slot) (k : CurvePublicKey) : Prop :=
  k.host = s.rng.host ∧ (s.rng.drawn ≤ k.idx ∨ s.Reserved k)

/-- The key is no longer to come at either side. -/
def World.Spent (w : World) (k : CurvePublicKey) : Prop := ∀ p, ¬ (w.slot p).Future k

def World.uses (w : World) : List (SalsaBox × UInt64) := w.emitted.filterMap fun e => e.2.use

structure World.Sending (w : World) (p : Side) (s : SessionInfo) : Prop where
  synced : s.Synced
  count : ∀ t, w.Sealed p t → t.body.key = s.sendShared → t.body.nonce ≤ s.sendNonce
  cross : ∀ t, w.Sealed p.other t → t.body.key ≠ s.sendShared
  apart : ∀ s', (w.slot p.other).session = some s' → s.sendShared ≠ s'.sendShared

structure KeyInv (ids : Ids) (w : World) : Prop where
  host : ∀ p, (w.slot p).rng.host = ids.key p
  sending : ∀ p s, (w.slot p).session = some s → w.Sending p s
  send : ∀ p s, (w.slot p).session = some s → w.Spent s.sendKeys.pub
  current : ∀ p s, (w.slot p).session = some s → w.Spent s.current
  bufferCurrent : ∀ p b, (w.slot p).buffer = some b → w.Spent b.currentKeys.pub
  reserved : ∀ p k, (w.slot p).Reserved k → k.host = ids.key p ∧ k.idx < (w.slot p).rng.drawn
  alone : ∀ p s, (w.slot p).session = some s → (w.slot p).buffer = none
  announced : ∀ p init, w.Announced p init → w.Spent init.current
  sealed : ∀ p t, w.Sealed p t → ∀ k ∈ t.body.key, w.Spent k
  nodup : w.uses.Nodup

section Frame
variable {ids : Ids} {w : World} {p : Side} {s' : Slot} {ps : List Packet} {k : CurvePublicKey}

theorem World.spent_put (h : ∀ k, s'.Future k → (w.slot p).Future k) (hk : w.Spent k) : (w.put p s' ps).Spent k := by
  intro q
  rcases Side.eq_or_eq_other p q with rfl | rfl
  · rw [put_slot_self]
    exact fun hf => hk q (h k hf)
  rw [put_slot_other]
  exact hk _

theorem World.uses_put : (w.put p s' ps).uses = w.uses ++ ps.filterMap Packet.use := by
  simp [World.uses, World.put, filterMap_append, filterMap_map]

theorem World.Sending.mono {s : SessionInfo} (h : w.Sending p s) (hps : ∀ t, Packet.traffic t ∉ ps) :
    (w.put p s' ps).Sending p s where
  synced := h.synced
  count t ht := h.count t ((sealed_put ht).resolve_right fun hc => hps t hc.2)
  cross t ht := h.cross t ((sealed_put ht).resolve_right fun hc => hps t hc.2)
  apart s' hs' := h.apart s' (by rwa [put_slot_other] at hs')

theorem KeyInv.put (hinv : KeyInv ids w) (hhost : s'.rng.host = (w.slot p).rng.host)
    (hfuture : ∀ k, s'.Future k → (w.slot p).Future k) (hsession : ∀ s, s'.session = some s →
      (w.put p s' ps).Sending p s ∧ (w.put p s' ps).Spent s.sendKeys.pub ∧ (w.put p s' ps).Spent s.current ∧
        s'.buffer = none)
    (hbuffer : ∀ b, s'.buffer = some b → (w.put p s' ps).Spent b.currentKeys.pub)
    (hreserved : ∀ k, s'.Reserved k → k.host = ids.key p ∧ k.idx < s'.rng.drawn)
    (hannounced : ∀ h : SealedInit, Packet.init h ∈ ps ∨ Packet.ack h ∈ ps → (w.put p s' ps).Spent h.init.current)
    (htraffic : ∀ t, Packet.traffic t ∈ ps → (∀ k ∈ t.body.key, (w.put p s' ps).Spent k) ∧
      ∀ s, (w.slot p.other).session = some s → t.body.key ≠ s.sendShared)
    (hnodup : (w.put p s' ps).uses.Nodup) : KeyInv ids (w.put p s' ps) := by
  have hspent : ∀ {k}, w.Spent k → (w.put p s' ps).Spent k := spent_put hfuture
  -- the other side's session faces the new one of this side and what this side has just sealed
  have hother : ∀ s, (w.slot p.other).session = some s → (w.put p s' ps).Sending p.other s := by
    intro s hs
    have old := hinv.sending _ s hs
    refine ⟨old.synced, fun t ht => ?_, fun t ht => ?_, fun s2 hs2 => ?_⟩
    · exact old.count t ((sealed_put ht).resolve_right fun hc => Side.other_ne p hc.1)
    · rw [Side.other_other] at ht
      rcases sealed_put ht with ht | ⟨-, ht⟩
      · exact old.cross t (by rwa [Side.other_other])
      · exact (htraffic t ht).2 s hs
    rw [Side.other_other, put_slot_self] at hs2
    exact ((hsession s2 hs2).1.apart s (by rwa [put_slot_other])).symm
  refine
    { host := forall_put (P := fun q s => s.rng.host = ids.key q) (hhost.trans (hinv.host p)) (hinv.host _)
      sending := forall_put (P := fun q s => ∀ i, s.session = some i → (w.put p s' ps).Sending q i)
        (fun i hi => (hsession i hi).1) hother
      send := forall_put (P := fun _ s => ∀ i, s.session = some i → (w.put p s' ps).Spent i.sendKeys.pub)
        (fun i hi => (hsession i hi).2.1) fun i hi => hspent (hinv.send _ i hi)
      current := forall_put (P := fun _ s => ∀ i, s.session = some i → (w.put p s' ps).Spent i.current)
        (fun i hi => (hsession i hi).2.2.1) fun i hi => hspent (hinv.current _ i hi)
      bufferCurrent := forall_put
        (P := fun _ s => ∀ b, s.buffer = some b → (w.put p s' ps).Spent b.currentKeys.pub)
        hbuffer fun b hb => hspent (hinv.bufferCurrent _ b hb)
      reserved := forall_put
        (P := fun q s => ∀ k, s.Reserved k → k.host = ids.key q ∧ k.idx < s.rng.drawn) hreserved (hinv.reserved _)
      alone := forall_put (P := fun _ s => ∀ i, s.session = some i → s.buffer = none)
        (fun i hi => (hsession i hi).2.2.2) (hinv.alone _)
      announced := ?_
      sealed := ?_
      nodup := hnodup }
  · intro q init hinit
    rcases announced_put hinit with h | ⟨-, h, hmem, rfl⟩
    · exact hspent (hinv.announced q init h)
    · exact hannounced h hmem
  intro q t ht
  rcases sealed_put ht with ht | ⟨-, ht⟩
  · exact fun k hk => hspent (hinv.sealed q t ht k hk)
  · exact (htraffic t ht).1

theorem World.uses_put_quiet (hps : ∀ t, Packet.traffic t ∉ ps) : (w.put p s' ps).uses = w.uses := by
  rw [uses_put, filterMap_eq_nil_iff.mpr, append_nil]
  intro d hd
  cases d with
  | traffic t => exact absurd hd (hps t)
  | _ => rfl

theorem KeyInv.put_quiet (hinv : KeyInv ids w) (hhost : s'.rng.host = (w.slot p).rng.host)
    (hfuture : ∀ k, s'.Future k → (w.slot p).Future k) (hsession : ∀ s, s'.session = some s →
      w.Sending p s ∧ (w.put p s' ps).Spent s.sendKeys.pub ∧ w.Spent s.current ∧ s'.buffer = none)
    (hbuffer : ∀ b, s'.buffer = some b → (w.put p s' ps).Spent b.currentKeys.pub)
    (hreserved : ∀ k, s'.Reserved k → k.host = ids.key p ∧ k.idx < s'.rng.drawn)
    (hannounced : ∀ h : SealedInit, Packet.init h ∈ ps ∨ Packet.ack h ∈ ps → (w.put p s' ps).Spent h.init.current)
    (hps : ∀ t, Packet.traffic t ∉ ps) : KeyInv ids (w.put p s' ps) := by
  refine hinv.put hhost hfuture (fun s hs => ?_) hbuffer hreserved hannounced (fun t ht => absurd ht (hps t)) ?_
  · obtain ⟨h1, h2, h3, h4⟩ := hsession s hs
    exact ⟨h1.mono hps, h2, spent_put hfuture h3, h4⟩
  rw [uses_put_quiet hps]
  exact hinv.nodup

end Frame

section Steps
variable {ids : Ids} {w : World} {p : Side}
variable {k : CurvePublicKey} {s info : SessionInfo} {rng : Rng}

theorem KeyInv.fresh (hinv : KeyInv ids w) {κ : SalsaBox} (hk : k ∈ κ)
    (hf : (w.slot p).Future k) : (∀ q t, w.Sealed q t → t.body.key ≠ κ) ∧
      ∀ q s, (w.slot q).session = some s → s.sendShared ≠ κ := by
  constructor
  · rintro q t ht rfl
    exact hinv.sealed q t ht k hk p hf
  rintro q s hs rfl
  rw [(hinv.sending q s hs).synced.send] at hk
  rcases Sym2.mem_iff.mp hk with rfl | rfl
  · exact hinv.current q s hs p hf
  · exact hinv.send q s hs p hf

theorem KeyInv.spent_of_drawn (hinv : KeyInv ids w) {s' : Slot} (ps : List Packet) (hhost : k.host = ids.key p)
    (hlt : k.idx < s'.rng.drawn) (hres : ¬ s'.Reserved k) : (w.put p s' ps).Spent k := by
  intro q
  rcases Side.eq_or_eq_other p q with rfl | rfl
  · rw [put_slot_self]
    rintro ⟨-, hk | hk⟩
    · exact absurd hlt (not_lt.mpr hk)
    · exact hres hk
  rw [put_slot_other]
  rintro ⟨hk, -⟩
  rw [hhost, hinv.host] at hk
  exact ids.key_other_ne p hk.symm

structure Turnover (w : World) (p : Side) (s : SessionInfo) (rng : Rng) : Prop where
  host : rng.host = (w.slot p).rng.host
  drawn : (w.slot p).rng.drawn ≤ rng.drawn
  synced : s.Synced
  send : (w.slot p).Future s.sendKeys.pub
  send_lt : s.sendKeys.pub.idx < rng.drawn
  next_host : s.nextKeys.pub.host = (w.slot p).rng.host
  next_ge : (w.slot p).rng.drawn ≤ s.nextKeys.pub.idx
  next_lt : s.nextKeys.pub.idx < rng.drawn
  ne : s.sendKeys.pub ≠ s.nextKeys.pub
  current : w.Spent s.current

theorem Turnover.sending (hinv : KeyInv ids w) (h : Turnover w p s rng) : w.Sending p s := by
  have hmem : s.sendKeys.pub ∈ s.sendShared := by rw [h.synced.send]; exact Sym2.mem_mk_right ..
  have hnew := hinv.fresh hmem h.send
  exact ⟨h.synced, fun t ht hk => absurd hk (hnew.1 p t ht), fun t ht => hnew.1 _ t ht,
    fun s' hs' => (hnew.2 _ s' hs').symm⟩

theorem KeyInv.turnover (hinv : KeyInv ids w) (h : Turnover w p s rng) :
    KeyInv ids (w.put p ⟨some s, none, rng⟩ []) := by
  have hreserved : ∀ k, Slot.Reserved ⟨some s, none, rng⟩ k → k = s.nextKeys.pub := by
    rintro k (⟨info, hinfo, rfl⟩ | ⟨buf, hbuf, -⟩)
    · cases hinfo; rfl
    · cases hbuf
  refine hinv.put_quiet h.host ?_ ?_ ?_ ?_ ?_ ?_
  · rintro k ⟨hhost, hk⟩
    refine ⟨hhost.trans h.host, .inl ?_⟩
    rcases hk with hk | hk
    · exact h.drawn.trans hk
    · rw [hreserved k hk]; exact h.next_ge
  · rintro s' ⟨⟩
    exact ⟨Turnover.sending hinv h, hinv.spent_of_drawn _ (h.send.1.trans (hinv.host p)) h.send_lt
      fun hk => h.ne (hreserved _ hk), h.current, rfl⟩
  · rintro b ⟨⟩
  · intro k hk
    rw [hreserved k hk]
    exact ⟨h.next_host.trans (hinv.host p), h.next_lt⟩
  · rintro h' (hm | hm) <;> cases hm
  · intro t ht; cases ht

structure SameKeys (s s' : SessionInfo) : Prop where
  current : s'.current = s.current
  sendKeys : s'.sendKeys = s.sendKeys
  nextKeys : s'.nextKeys = s.nextKeys
  sendShared : s'.sendShared = s.sendShared

theorem SameKeys.future {s' : SessionInfo} (h : SameKeys s s') {buf : Option SessionBuffer}
    (hk : Slot.Future ⟨some s', buf, rng⟩ k) : Slot.Future ⟨some s, buf, rng⟩ k := by
  refine ⟨hk.1, hk.2.imp_right ?_⟩
  rintro (⟨info, hinfo, rfl⟩ | hb)
  · cases hinfo
    exact .inl ⟨s, rfl, by rw [h.nextKeys]⟩
  · exact .inr hb

theorem KeyInv.sealing (hinv : KeyInv ids w) {r : SessionInfo} {t : TrafficMsg}
    (hs : (w.slot p).session = some s) (hsame : SameKeys s r) (hsynced : r.Synced)
    (hkey : t.body.key = s.sendShared) (hnonce : t.body.nonce = r.sendNonce)
    (hlt : ∀ t', w.Sealed p t' → t'.body.key = s.sendShared → t'.body.nonce < t.body.nonce) :
    KeyInv ids (w.put p { w.slot p with session := some r } [.traffic t]) := by
  have hslot : w.slot p = ⟨some s, (w.slot p).buffer, (w.slot p).rng⟩ := by rw [← hs]
  have hfuture : ∀ k, Slot.Future { w.slot p with session := some r } k → (w.slot p).Future k := by
    intro k hk
    rw [hslot]
    exact hsame.future hk
  have hspent : ∀ {k}, w.Spent k → (w.put p { w.slot p with session := some r } [.traffic t]).Spent k :=
    spent_put hfuture
  have hold := hinv.sending p s hs
  have hsealed : ∀ {q t'}, (w.put p { w.slot p with session := some r } [.traffic t]).Sealed q t' →
      w.Sealed q t' ∨ q = p ∧ t' = t := fun ht' => by simpa using sealed_put ht'
  refine hinv.put rfl hfuture ?_ (fun b hb => hspent (hinv.bufferCurrent p b hb)) ?_ (by simp) ?_ ?_
  · rintro j ⟨⟩
    rw [hsame.sendKeys, hsame.current]
    refine ⟨⟨hsynced, ?_, ?_, ?_⟩, hspent (hinv.send p s hs), hspent (hinv.current p s hs), hinv.alone p s hs⟩
    · intro t' ht' hk
      rw [hsame.sendShared] at hk
      rw [← hnonce]
      rcases hsealed ht' with ht' | ⟨-, rfl⟩
      · exact UInt64.le_of_lt (hlt t' ht' hk)
      · exact UInt64.le_refl _
    · intro t' ht'
      rw [hsame.sendShared]
      exact hold.cross t' ((hsealed ht').resolve_right fun h => absurd h.1 (Side.other_ne p))
    intro j hj
    rw [put_slot_other] at hj
    rw [hsame.sendShared]
    exact hold.apart j hj
  · rintro k (⟨info, hinfo, rfl⟩ | hb)
    · cases hinfo
      rw [hsame.nextKeys]
      exact hinv.reserved p _ (.inl ⟨s, hs, rfl⟩)
    · exact hinv.reserved p k (.inr hb)
  · intro t' ht'
    obtain rfl : t' = t := by simpa using ht'
    rw [hkey]
    refine ⟨fun k hk => ?_, hold.apart⟩
    rw [hold.synced.send] at hk
    rcases Sym2.mem_iff.mp hk with rfl | rfl
    · exact hspent (hinv.current p s hs)
    · exact hspent (hinv.send p s hs)
  rw [uses_put]
  refine hinv.nodup.append (nodup_singleton _) ?_
  -- a use of this key so far is this side's, with a smaller nonce
  intro u hu hu'
  obtain rfl : u = (t.body.key, t.body.nonce) := by simpa [Packet.use] using hu'
  obtain ⟨⟨q, d⟩, hd, huse⟩ := mem_filterMap.mp hu
  cases d with
  | traffic t' =>
    simp only [Packet.use, Option.some.injEq, Prod.mk.injEq] at huse
    rcases Side.eq_or_eq_other p q with rfl | rfl
    · exact UInt64.ne_of_lt (hlt t' hd (huse.1.trans hkey)) huse.2
    · exact hold.cross t' hd (huse.1.trans hkey)
  | _ => cases huse

theorem KeyInv.keep (hinv : KeyInv ids w) {s' : Slot} {ps : List Packet} (hhost : s'.rng.host = (w.slot p).rng.host)
    (hdrawn : (w.slot p).rng.drawn ≤ s'.rng.drawn) (hsession : ∀ i', s'.session = some i' →
      ∃ i, (w.slot p).session = some i ∧ SameKeys i i' ∧ i'.Synced ∧ i'.sendNonce = i.sendNonce)
    (hbuffer : ∀ b', s'.buffer = some b' →
      ∃ b, (w.slot p).buffer = some b ∧ b'.currentKeys = b.currentKeys ∧ b'.nextKeys = b.nextKeys)
    (hannounced : ∀ h : SealedInit, Packet.init h ∈ ps ∨ Packet.ack h ∈ ps → (w.put p s' ps).Spent h.init.current)
    (hps : ∀ t, Packet.traffic t ∉ ps) : KeyInv ids (w.put p s' ps) := by
  have hreserved : ∀ k, s'.Reserved k → (w.slot p).Reserved k := by
    rintro k (⟨i', hi', rfl⟩ | ⟨b', hb', rfl⟩)
    · obtain ⟨i, hi, hsame, -⟩ := hsession i' hi'
      exact .inl ⟨i, hi, by rw [hsame.nextKeys]⟩
    obtain ⟨b, hb, -, hnext⟩ := hbuffer b' hb'
    exact .inr ⟨b, hb, by rw [hnext]⟩
  have hfuture : ∀ k, s'.Future k → (w.slot p).Future k := fun k hk =>
    ⟨hk.1.trans hhost, hk.2.imp hdrawn.trans (hreserved k)⟩
  refine hinv.put_quiet hhost hfuture ?_ ?_ ?_ hannounced hps
  · intro i' hi'
    obtain ⟨i, hi, hsame, hsynced, hnonce⟩ := hsession i' hi'
    have old := hinv.sending p i hi
    rw [hsame.sendKeys, hsame.current]
    refine ⟨⟨hsynced, ?_, ?_, ?_⟩, spent_put hfuture (hinv.send p i hi), hinv.current p i hi, ?_⟩
    · rw [hsame.sendShared, hnonce]; exact old.count
    · rw [hsame.sendShared]; exact old.cross
    · rw [hsame.sendShared]; exact old.apart
    cases hb' : s'.buffer with
    | none => rfl
    | some b' =>
      obtain ⟨b, hb, -⟩ := hbuffer b' hb'
      rw [hinv.alone p i hi] at hb
      cases hb
  · intro b' hb'
    obtain ⟨b, hb, hcur, -⟩ := hbuffer b' hb'
    rw [hcur]
    exact spent_put hfuture (hinv.bufferCurrent p b hb)
  intro k hk
  exact (hinv.reserved p k (hreserved k hk)).imp_right fun h => lt_of_lt_of_le h hdrawn

theorem KeyInv.announce (hinv : KeyInv ids w) {d : Packet} {h : SealedInit} (hd : d = .init h ∨ d = .ack h)
    (hspent : w.Spent h.init.current) : KeyInv ids (w.put p (w.slot p) [d]) := by
  have hfuture : ∀ k, (w.slot p).Future k → (w.slot p).Future k := fun _ => id
  refine hinv.keep rfl (le_refl _) ?_ (fun b hb => ⟨b, hb, rfl, rfl⟩) ?_ ?_
  · exact fun i hi => ⟨i, hi, ⟨rfl, rfl, rfl, rfl⟩, (hinv.sending p i hi).synced, rfl⟩
  · intro h' hm
    have : h' = h := by rcases hd with rfl | rfl <;> simpa using hm
    rw [this]
    exact spent_put hfuture hspent
  · rcases hd with rfl | rfl <;> simp

/-- A side is handed what the other emitted; only an ack that also updates it opens a session over a buffer. -/
def CleanAct (w : World) (p : Side) : SlotAct → Prop
  | .update init => w.Announced p.other init
  | .openInit init => w.Announced p.other init ∧ (w.slot p).buffer = none
  | .openAck ack => w.Announced p.other ack ∧ ((w.slot p).buffer = none ∨ ack.seq ≠ 0)
  | .accept t => w.Sealed p.other t
  | .enqueue _ => True
  | .sealMsg _ => True

section
variable (hinv : KeyInv ids w)
include hinv

theorem KeyInv.ratchet {r : SessionInfo} (hs : (w.slot p).session = some info)
    (hsend : r.sendKeys = info.nextKeys) (hnext : r.nextKeys = (newBoxKeys (w.slot p).rng).1) (hsynced : r.Synced)
    (hcurrent : w.Spent r.current) : Turnover w p r (newBoxKeys (w.slot p).rng).2 := by
  have hres : (w.slot p).Reserved info.nextKeys.pub := .inl ⟨info, hs, rfl⟩
  obtain ⟨hhost, hlt⟩ := hinv.reserved p _ hres
  refine ⟨rfl, le_succ _, hsynced, ?_, ?_, ?_, ?_, ?_, ?_, hcurrent⟩
  · rw [hsend]
    exact ⟨hhost.trans (hinv.host p).symm, .inr hres⟩
  · rw [hsend]
    exact lt_succ_of_lt hlt
  · rw [hnext]; rfl
  · rw [hnext]; exact le_refl _
  · rw [hnext]; exact lt_succ_self _
  rw [hsend, hnext]
  intro h
  exact absurd (congrArg CurvePublicKey.idx h) hlt.ne

theorem KeyInv.update (hs : (w.slot p).session = some info)
    {init : SessionInit} (hinit : w.Announced p.other init) (now : Instant) :
    KeyInv ids (w.put p ((w.slot p).updated info init now) []) := by
  have h := hinv.turnover (hinv.ratchet (r := (info.handleUpdate init now (w.slot p).rng).1) hs rfl rfl
    (handleUpdate_synced ..) (hinv.announced _ _ hinit))
  rwa [← hinv.alone p info hs] at h

theorem KeyInv.openInit {init : SessionInit} (hinit : w.Announced p.other init)
    (hbuf : (w.slot p).buffer = none) (now : Instant) : KeyInv ids (w.put p ((w.slot p).opened init now) []) := by
  refine hinv.turnover ?_
  have hc : (w.slot p).created init now = (new init.current init.next init.seq now (w.slot p).rng).1 := by
    rw [Slot.created, hbuf]
  rw [hc]
  refine ⟨rfl, le_add_right _ 3, new_synced .., ⟨rfl, .inl (le_add_right _ 1)⟩,
    lt_succ_of_lt (lt_succ_self _), rfl, le_add_right _ 2, lt_succ_self _, fun h => ?_,
    hinv.announced _ _ hinit⟩
  exact absurd (congrArg CurvePublicKey.idx h) (lt_succ_self _).ne

theorem KeyInv.created_next (init : SessionInit) (now : Instant) :
    (w.slot p).Future ((w.slot p).created init now).nextKeys.pub ∧
      ((w.slot p).created init now).nextKeys.pub.idx < ((w.slot p).opened init now).rng.drawn := by
  cases hb : (w.slot p).buffer with
  | none =>
    rw [Slot.created, hb]
    exact ⟨⟨rfl, .inl (le_add_right _ 2)⟩, lt_succ_self _⟩
  | some buf =>
    rw [Slot.created, hb]
    have hres : (w.slot p).Reserved buf.nextKeys.pub := .inr ⟨buf, hb, rfl⟩
    obtain ⟨hhost, hlt⟩ := hinv.reserved p _ hres
    exact ⟨⟨hhost.trans (hinv.host p).symm, .inr hres⟩, lt_of_lt_of_le hlt (le_add_right _ 3)⟩

theorem KeyInv.openAck {ack : SessionInit} (hack : w.Announced p.other ack)
    (hbuf : (w.slot p).buffer = none ∨ ack.seq ≠ 0) (now : Instant) :
    KeyInv ids (w.put p ((w.slot p).openedAck ack now) []) := by
  have hseq : ((w.slot p).created ack now).seq = ack.seq - 1 := by
    unfold Slot.created
    cases (w.slot p).buffer <;> rfl
  by_cases hnew : ack.seq > ((w.slot p).created ack now).seq
  · -- the ack also ratchets the session it opened
    rw [Slot.openedAck_newer hnew]
    obtain ⟨hfuture, hlt⟩ := hinv.created_next (p := p) ack now
    refine hinv.turnover ⟨rfl, le_add_right _ 4, handleUpdate_synced .., hfuture, lt_succ_of_lt hlt,
      rfl, le_add_right _ 3, lt_succ_self _, fun h => ?_, hinv.announced _ _ hack⟩
    exact absurd (congrArg CurvePublicKey.idx h) hlt.ne
  have hzero : ack.seq = 0 := by
    grind
  rw [Slot.openedAck_stale hnew]
  exact hinv.openInit hack (hbuf.resolve_right (not_not.mpr hzero)) now

theorem KeyInv.accept {t : TrafficMsg} {snap : SessionInfo.RecvSnapshot}
    {payload : Bytes} {innerKey : CurvePublicKey} (hs : (w.slot p).session = some info)
    (ht : w.Sealed p.other t) (hsnap : info.recvSnapshot t = .ok snap)
    (hdec : decryptOutsideLock snap t = .ok (payload, innerKey)) (len : UInt64) (now : Instant) :
    KeyInv ids (w.put p ((w.slot p).accepted info snap innerKey len now) []) := by
  obtain ⟨hdr, -, -, -, hseq, -, hshared⟩ := recvSnapshot_ok hsnap
  have hsynced := (hinv.sending p info hs).synced
  have hkey : t.body.key = makeSalsaBox (info.remoteKey snap.case) (info.localKeys snap.case).priv := by
    rw [(decryptOutsideLock_ok.mp hdec).1, hshared, hsynced.caseShared]
  rcases recvFinalize_cases hseq innerKey len now (w.slot p).rng with
    ⟨hcount, hrng, -⟩ | ⟨hrot, hrng, hcase, -⟩
  · refine hinv.keep ?_ ?_ ?_ (fun b hb => ⟨b, hb, rfl, rfl⟩) (by simp) (by simp)
    · exact congrArg Rng.host hrng
    · exact (congrArg Rng.drawn hrng).ge
    rintro i ⟨⟩
    exact ⟨info, hs, ⟨hcount.current, hcount.sendKeys, hcount.nextKeys, hcount.sendShared⟩, hcount.synced hsynced,
      hcount.sendNonce⟩
  -- the remote next key has been sealed under
  have hmem : info.next ∈ t.body.key := by
    rw [hkey]
    cases hc : snap.case with
    | currentToRecv => exact absurd hc hcase
    | nextToSend | nextToRecv => exact Sym2.mem_mk_left ..
  have h := hinv.turnover (hinv.ratchet hs hrot.sendKeys hrot.nextKeys hrot.synced
    (by rw [hrot.current]; exact hinv.sealed _ t ht _ hmem))
  rw [← hrng] at h
  rwa [← hinv.alone p info hs] at h

theorem KeyInv.sealMsg (hs : (w.slot p).session = some info) (msg : Bytes) (now : Instant) : KeyInv ids
      (w.put p ((w.slot p).sealed info msg now) [.traffic (info.doSend msg now (w.slot p).rng).1]) := by
  have hold := hinv.sending p info hs
  unfold Slot.sealed
  by_cases hover : info.sendNonce + 1 = 0
  · -- the counter has run out: ratchet, then seal with nonce zero under a key that is new
    have hturn := hinv.ratchet (r := info.overflowed (w.slot p).rng) hs rfl rfl (fixShared_synced ..)
      (hinv.current p info hs)
    have hnew := hinv.fresh (κ := (info.overflowed (w.slot p).rng).sendShared) (Sym2.mem_mk_right ..) hturn.send
    rw [doSend_overflow hover]
    have hs1 : ((w.put p ⟨some (info.overflowed (w.slot p).rng), none,
      (newBoxKeys (w.slot p).rng).2⟩ []).slot p).session =
        some (info.overflowed (w.slot p).rng) := by rw [put_slot_self]
    have h := (hinv.turnover hturn).sealing (r := { info.overflowed (w.slot p).rng with
        tx := info.tx + msg.length.toUInt64, lastActivity := now })
      (t := ⟨some ⟨info.localKeySeq + 1, info.remoteKeySeq, 0⟩, (info.overflowed (w.slot p).rng).sendShared, 0,
        some (newBoxKeys (w.slot p).rng).1.pub, msg⟩)
      hs1 ⟨rfl, rfl, rfl, rfl⟩ ⟨rfl, rfl, rfl, rfl⟩ rfl rfl
      (fun t' ht' hk => absurd hk (hnew.1 p t' (by simpa using sealed_put ht')))
    rw [put_slot_self, put_put, nil_append] at h
    rw [hinv.alone p info hs]
    exact h
  rw [doSend_eq hover]
  refine hinv.sealing hs ⟨rfl, rfl, rfl, rfl⟩ ⟨hold.synced.1, hold.synced.2, hold.synced.3, hold.synced.4⟩ rfl rfl ?_
  intro t' ht' hk
  have := hold.count t' ht' hk
  grind

theorem KeyInv.throwaway (clk : Clock) (h : SealedInit) (hh : h.init = (w.slot p).throwaway clk) : KeyInv ids
      (w.put p { w.slot p with rng := (newBoxKeys (newBoxKeys (w.slot p).rng).2).2 } [.init h]) := by
  refine hinv.keep rfl (le_add_right _ 2) ?_ (fun b hb => ⟨b, hb, rfl, rfl⟩) ?_ (by simp)
  · exact fun i hi => ⟨i, hi, ⟨rfl, rfl, rfl, rfl⟩, (hinv.sending p i hi).synced, rfl⟩
  intro h' hm
  obtain rfl : h' = h := by simpa using hm
  rw [hh]
  refine hinv.spent_of_drawn _ (hinv.host p) (lt_succ_of_lt (lt_succ_self _)) fun hres => ?_
  exact absurd (hinv.reserved p _ hres).2 (lt_irrefl _)

theorem KeyInv.enqueue (hs : (w.slot p).session = none) (msg : Bytes) (clk : Clock)
    (h : SealedInit) (hh : h.init = ((w.slot p).enqueued msg clk).1.init) : KeyInv ids (w.put p
      { w.slot p with buffer := some ((w.slot p).enqueued msg clk).1, rng := ((w.slot p).enqueued msg clk).2 }
      [.init h]) := by
  cases hb : (w.slot p).buffer with
  | some buf =>
    rw [Slot.enqueued_some hb] at hh ⊢
    refine hinv.keep rfl (le_refl _) ?_ ?_ ?_ (by simp)
    · intro i hi
      exact ⟨i, hi, ⟨rfl, rfl, rfl, rfl⟩, (hinv.sending p i hi).synced, rfl⟩
    · rintro b ⟨⟩
      exact ⟨buf, hb, rfl, rfl⟩
    intro h' hm
    obtain rfl : h' = h := by simpa using hm
    rw [hh, buf.current_eq]
    refine spent_put (fun k hk => ⟨hk.1, hk.2.imp_right ?_⟩) (hinv.bufferCurrent p buf hb)
    rintro (hi | ⟨b, ⟨⟩, rfl⟩)
    · exact .inl hi
    · exact .inr ⟨buf, hb, rfl⟩
  | none =>
    rw [Slot.enqueued_none hb] at hh ⊢
    -- both keys of the new buffer are drawn here; the second one is kept for later
    have hreserved : ∀ k, Slot.Reserved
        { w.slot p with
          buffer := some ((w.slot p).drawnBuffer msg clk), rng := (newBoxKeys (newBoxKeys (w.slot p).rng).2).2 } k →
        k = (newBoxKeys (newBoxKeys (w.slot p).rng).2).1.pub := by
      rintro k (⟨i, hi, -⟩ | ⟨b, ⟨⟩, rfl⟩)
      · rw [hs] at hi; cases hi
      · rfl
    have hcurrent := hinv.spent_of_drawn [.init h] (k := (newBoxKeys (w.slot p).rng).1.pub) (hinv.host p)
      (lt_succ_of_lt (lt_succ_self _))
      (fun hres => absurd (congrArg CurvePublicKey.idx (hreserved _ hres)) (lt_succ_self _).ne)
    refine hinv.put_quiet rfl ?_ ?_ ?_ ?_ ?_ (by simp)
    · rintro k ⟨hk, hdrawn | hres⟩
      · exact ⟨hk, .inl ((le_add_right _ 2).trans hdrawn)⟩
      rw [hreserved k hres]
      exact ⟨rfl, .inl (le_succ _)⟩
    · intro i hi
      rw [hs] at hi; cases hi
    · rintro b ⟨⟩
      exact hcurrent
    · intro k hk
      rw [hreserved k hk]
      exact ⟨hinv.host p, lt_succ_self _⟩
    intro h' hm
    obtain rfl : h' = h := by simpa using hm
    rw [hh]
    exact hcurrent

theorem KeyInv.step {w' : World} (h : World.Step ids CleanAct w w') : KeyInv ids w' := by
  cases h with
  | throwaway p clk hs => exact hinv.throwaway clk _ rfl
  | announceInit p info clk hs => exact hinv.announce (.inl rfl) (hinv.send p info hs)
  | announceAck p info clk hs => exact hinv.announce (.inr rfl) (hinv.send p info hs)
  | update p info init now hs hok => exact hinv.update hs hok now
  | openInit p init now hs hok => exact hinv.openInit hok.1 hok.2 now
  | openAck p ack now hs hok => exact hinv.openAck hok.1 hok.2 now
  | enqueue p msg clk hs hok => exact hinv.enqueue hs msg clk _ rfl
  | sealMsg p info msg now hs hok => exact hinv.sealMsg hs msg now
  | accept p info t snap payload innerKey now hs hok hsnap hdec => exact hinv.accept hs hok hsnap hdec _ now
  | forgetSession p =>
    exact hinv.keep rfl (le_refl _) (by simp) (fun b hb => ⟨b, hb, rfl, rfl⟩) (by simp) (by simp)
  | forgetBuffer p =>
    refine hinv.keep rfl (le_refl _) ?_ (by simp) (by simp) (by simp)
    exact fun i hi => ⟨i, hi, ⟨rfl, rfl, rfl, rfl⟩, (hinv.sending p i hi).synced, rfl⟩

end

end Steps

/-! ## Runs of the two managers -/

def Net.encryptions (net : Net) : List (SalsaBox × UInt64) := net.emitted.filterMap fun e => e.2.use

/-- The event opens no session over a pending buffer, unless from an ack that also updates it. -/
def Net.OpensCleanly (ids : Ids) (net : Net) : Event → Prop
  | .receive p (.init _) _ => (net.party p).mgr.sessions (ids.key p.other) = none →
      (net.party p).mgr.buffers (ids.key p.other) = none
  | .receive p (.ack h) _ => (net.party p).mgr.sessions (ids.key p.other) = none →
      (net.party p).mgr.buffers (ids.key p.other) = none ∨ h.init.seq ≠ 0
  | _ => True

instance (ids : Ids) (net : Net) : ∀ e, Decidable (net.OpensCleanly ids e)
  | .receive _ (.init _) _ => inferInstanceAs (Decidable (_ → _))
  | .receive _ (.ack _) _ => inferInstanceAs (Decidable (_ → _))
  | .receive _ (.traffic _) _ => inferInstanceAs (Decidable True)
  | .receive _ .junk _ => inferInstanceAs (Decidable True)
  | .write _ _ _ => inferInstanceAs (Decidable True)
  | .cleanup _ _ => inferInstanceAs (Decidable True)

theorem KeyInv.start (ids : Ids) (timeout : Duration) : KeyInv ids ((Net.start ids timeout).world ids) := by
  refine ⟨fun _ => rfl, ?_, ?_, ?_, ?_, ?_, ?_, ?_, ?_, nodup_nil⟩
  · rintro p s ⟨⟩
  · rintro p s ⟨⟩
  · rintro p s ⟨⟩
  · rintro p b ⟨⟩
  · rintro p k (⟨i, ⟨⟩, -⟩ | ⟨b, ⟨⟩, -⟩)
  · rintro p s ⟨⟩
  · rintro p init ⟨h, hm | hm, -⟩ <;> cases hm
  · intro p t ht; cases ht

theorem Net.OpensCleanly.admits {ids : Ids} {net : Net} {p : Side} {data : Packet} {clk : Clock}
    (h : net.OpensCleanly ids (.receive p data clk)) (hdata : lossy net p data) :
    Admits ids CleanAct (net.world ids) p data where
  update info h' init _ hd hdec _ := by
    obtain ⟨-, -, -, rfl⟩ := SessionInit.decrypt_eq_some.mp hdec
    rcases hd with rfl | rfl
    · exact ⟨h', .inl hdata, rfl⟩
    · exact ⟨h', .inr hdata, rfl⟩
  openInit h' init hs hd hdec := by
    obtain ⟨-, -, -, rfl⟩ := SessionInit.decrypt_eq_some.mp hdec
    subst hd
    exact ⟨⟨h', .inl hdata, rfl⟩, h hs⟩
  openAck h' ack hs hd hdec := by
    obtain ⟨-, -, -, rfl⟩ := SessionInit.decrypt_eq_some.mp hdec
    subst hd
    exact ⟨⟨h', .inr hdata, rfl⟩, h hs⟩
  accept t hd := by
    subst hd
    exact hdata
  sealMsg _ _ _ _ _ _ := trivial

theorem KeyInv.run {ids : Ids} {timeout : Duration} {es : List Event} {net : Net}
    (h : Lts.Run (Lts.Guarded (Net.Step ids lossy) (Net.OpensCleanly ids)) (Net.start ids timeout) es net) :
    KeyInv ids (net.world ids) := by
  refine (h.invariant (I := fun net => net.AuthKept ids ∧ KeyInv ids (net.world ids))
    ⟨Net.start_authKept ids timeout, KeyInv.start ids timeout⟩ ?_).2
  rintro net e _ ⟨hauth, hinv⟩ ⟨⟨hoffers, rfl⟩, hclean⟩
  refine ⟨hauth.exec e, ?_⟩
  have hsteps : World.Steps ids CleanAct (net.world ids) ((net.exec ids e).world ids) := by
    refine Net.exec_steps hauth e (fun _ _ _ _ _ _ => trivial) (fun _ _ _ _ _ => trivial) ?_
    rintro p data clk rfl
    exact hclean.admits hoffers
  exact hsteps.invariant hinv fun _ _ hi hs => hi.step hs

def oneSidedOpen : List Event :=
  [.write .a [1] ⟨0, 1⟩, .receive .b (.init (firstInit exampleIds .a ⟨0, 1⟩)) ⟨0, 1⟩,
    .receive .a (.ack ((SessionInit.new ⟨⟨2, 1⟩⟩ ⟨⟨2, 2⟩⟩ 0 ⟨0, 1⟩).encrypt 2 1 ⟨none⟩)) ⟨0, 1⟩, .write .b [2] ⟨0, 1⟩]

/-- No two encryptions share their unordered key pair and their nonce, if no session is opened over a pending buffer
except by an ack that also updates it. -/
theorem encryptions_nodup (ids : Ids) (timeout : Duration) (es : List Event) (net : Net)
    (h : Lts.Run (Lts.Guarded (Net.Step ids lossy) (Net.OpensCleanly ids)) (Net.start ids timeout) es net) :
    net.encryptions.Nodup :=
  (KeyInv.run h).nodup

theorem encryptions_nodup_oneSidedOpen :
    Lts.Run (Lts.Guarded (Net.Step exampleIds lossy) (Net.OpensCleanly exampleIds)) (Net.start exampleIds 0)
        oneSidedOpen (oneSidedOpen.foldl (Net.exec exampleIds) (Net.start exampleIds 0)) ∧
      (oneSidedOpen.foldl (Net.exec exampleIds) (Net.start exampleIds 0)).encryptions.length = 2 ∧
      (oneSidedOpen.foldl (Net.exec exampleIds) (Net.start exampleIds 0)).encryptions.Nodup := by
  have hadm : Lts.Admitted (Net.exec exampleIds)
      (fun net e => net.Offered lossy e ∧ net.OpensCleanly exampleIds e) (Net.start exampleIds 0) oneSidedOpen := by
    decide
  have hrun : Lts.Run (Lts.Guarded (Net.Step exampleIds lossy) (Net.OpensCleanly exampleIds)) (Net.start exampleIds 0)
      oneSidedOpen _ := hadm.run fun _ _ h => ⟨⟨h.1, rfl⟩, h.2⟩
  exact ⟨hrun, by decide, encryptions_nodup exampleIds 0 oneSidedOpen _ hrun⟩

def simultaneousOpen : List Event :=
  [.write .a [1] ⟨0, 1⟩, .write .b [2] ⟨0, 1⟩, .receive .b (.init (firstInit exampleIds .a ⟨0, 1⟩)) ⟨0, 1⟩,
    .receive .a (.init (firstInit exampleIds .b ⟨0, 1⟩)) ⟨0, 1⟩]

theorem simultaneous_open_reuses_nonce : ¬ ∀ (ids : Ids) (timeout : Duration) (es : List Event) (net : Net),
    Lts.Run (Net.Step ids lossy) (Net.start ids timeout) es net → net.encryptions.Nodup := by
  intro h
  have hadm : Lts.Admitted (Net.exec exampleIds) (Net.Offered lossy) (Net.start exampleIds 0) simultaneousOpen := by
    decide
  exact absurd (h _ _ _ _ (hadm.run fun _ _ h => ⟨h, rfl⟩)) (by decide)

end Yggdrasil.Session
