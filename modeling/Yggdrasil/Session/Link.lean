import Yggdrasil.Session.Flight
import Yggdrasil.Session.Leaves

/-!
# How far the two sides have come
-/

namespace Yggdrasil.Session
open SessionInfo Option
open SessionInfo (DecryptCase)

/-! ## What is in flight from one side -/

/-- In flight from one side: at most one init, one ack and one traffic message. -/
structure Mail where
  init : Option SessionInit
  ack : Option SessionInit
  traffic : Option TrafficMsg

def Mail.bag (ids : Ids) (p : Side) (m : Mail) : Multiset (Side × Packet) :=
  (m.init.elim 0 fun i => {(p.other, .init (ids.sealInit p i))}) +
    (m.ack.elim 0 fun i => {(p.other, .ack (ids.sealInit p i))}) + m.traffic.elim 0 fun t => {(p.other, .traffic t)}

/-! ## How far the two sides have come -/

structure End where
  session : Option SessionInfo
  buffer : Option SessionBuffer
  mail : Mail
  wrote : Prop

structure End.Ok (x : End) (secs : UInt64) : Prop where
  buffer : ∀ b, x.buffer = some b → x.wrote ∧ b.init.keySeq = 0 ∧ b.init.seq ≠ 0 ∧ b.init.seq ≤ secs ∧
    ∃ msg, b.data = some msg ∧ IsData msg
  traffic : ∀ t, x.mail.traffic = some t → x.wrote ∧ IsData t.body.plain.payload

structure Unsent (sx sy : SessionInfo) (y : End) : Prop where
  wrote : y.wrote
  nonce : sx.sendNonce = 0
  next : sy.nextSendNonce = 0
  ends : (Aligned sy sx ∧ sy.recvNonce = 0 ∧ ∀ a, y.mail.ack = some a → Announces sy a) ∨
    (Aligned sx sy ∧ y.mail.ack = none)

/-- How far the opening is, seen from `x`. -/
inductive Link (x y : End) : Prop
  | idle : x.session = none → x.buffer = none → x.mail = ⟨none, none, none⟩ → y.session = none → Link x y
  | asked (b : SessionBuffer) : x.session = none → x.buffer = some b → x.mail = ⟨some b.init, none, none⟩ →
      y.session = none → Link x y
  | answered (b : SessionBuffer) (sy : SessionInfo) : x.session = none → x.buffer = some b →
      x.mail = ⟨none, none, none⟩ → y.session = some sy → Link x y
  | opening (sx : SessionInfo) (b : SessionBuffer) (a : SessionInit) : x.session = some sx → x.buffer = none →
      y.session = none → y.buffer = some b → x.mail.ack = some a → OpenedFrom b.init sx → Announces sx a → a.seq ≠ 0 →
      (∀ i, x.mail.init = some i → x.wrote ∧ Announces sx i ∧ i.seq ≠ 0 ∧ i.seq ≤ a.seq) →
      (∀ t, x.mail.traffic = some t → Carries t ⟨0, 0, 1⟩ (makeSalsaBox sx.sendKeys.pub b.currentKeys.priv)) →
      (¬ x.wrote → sx.sendNonce = 0) → Link x y
  | acking (sx sy : SessionInfo) (a : SessionInit) : x.session = some sx → x.buffer = none → y.session = some sy →
      x.mail.init = none → x.mail.ack = some a → x.wrote → sy.seq < a.seq → (∀ t, x.mail.traffic = some t →
        Carries t ⟨a.keySeq, sy.localKeySeq, 1⟩ (makeSalsaBox a.current sy.sendKeys.priv)) → Link x y
  | settled (sx sy : SessionInfo) : x.session = some sx → x.buffer = none → y.session = some sy → x.mail.ack = none →
      (∀ i, x.mail.init = some i → i.seq ≤ sy.seq) → (∀ t, x.mail.traffic = some t → ReadBy t sy y.wrote) →
      (¬ x.wrote → Unsent sx sy y) → Link x y

/-! ## The links, one message at a time -/

section Links
variable {x y : End}
variable {secs : UInt64} {s' sx sy : SessionInfo} {i a : SessionInit}

theorem Link.write_first (xy : Link x y) (yx : Link y x) (hx : x.session = none) (hw : ¬ x.wrote) (hok : x.Ok secs) :
    x.buffer = none ∧ x.mail = ⟨none, none, none⟩ ∧ ∀ b : SessionBuffer,
      Link ⟨none, some b, ⟨some b.init, none, none⟩, True⟩ y ∧
      Link y ⟨none, some b, ⟨some b.init, none, none⟩, True⟩ := by
  have hb : x.buffer = none := by
    cases hb : x.buffer with
    | none => rfl
    | some b => exact absurd (hok.buffer b hb).1 hw
  cases xy with
  | idle _ _ hm hy =>
    refine ⟨hb, hm, fun b => ⟨.asked b rfl rfl rfl hy, ?_⟩⟩
    cases yx with
    | idle _ h2 h3 _ => exact .idle hy h2 h3 rfl
    | asked b' _ h2 h3 _ => exact .asked b' hy h2 h3 rfl
    | _ => simp_all
  | _ => simp_all

theorem ReadBy.sent {t : TrafficMsg} {s : SessionInfo} {wrote wrote' : Prop} (h : ReadBy t s wrote) (hs : Sent s s')
    (hw : wrote → wrote') : ReadBy t s' wrote' := by
  obtain ⟨hdr, c, hcar, hm, hn, hc⟩ := h
  refine ⟨hdr, c, hs.caseShared c ▸ hcar, ?_, hs.caseNonce c ▸ hn, hc.imp_right hw⟩
  cases c <;> simpa only [SessionInfo.Matches, hs.remoteKeySeq, hs.localKeySeq] using hm

theorem zero_lt_one_nonce : (0 : UInt64) < 1 := by decide

theorem Link.write_session (xy : Link x y) (yx : Link y x) (hx : x.session = some sx)
    (hw : ¬ x.wrote) : x.buffer = none ∧ sx.sendNonce = 0 ∧ ∀ (s' : SessionInfo) (t : TrafficMsg),
      Sent sx s' → Carries t ⟨sx.localKeySeq, sx.remoteKeySeq, 1⟩ sx.sendShared →
      Link ⟨some s', none, ⟨x.mail.init, x.mail.ack, some t⟩, True⟩ y ∧
      Link y ⟨some s', none, ⟨x.mail.init, x.mail.ack, some t⟩, True⟩ := by
  cases xy with
  | acking _ _ _ _ _ _ _ _ h => exact absurd h hw
  | opening sx' b a h hb hy hyb hack hopen hann hseq hinit htraf hzero =>
    obtain rfl : sx = sx' := some.inj (hx.symm.trans h)
    refine ⟨hb, hzero hw, fun s' t hsent hcar => ⟨?_, ?_⟩⟩
    · refine .opening s' b a rfl rfl hy hyb hack (hsent.openedFrom hopen) (hsent.announces hann) hseq ?_ ?_
        (absurd trivial)
      · intro i hi
        obtain ⟨-, h1, h2⟩ := hinit i hi
        exact ⟨trivial, hsent.announces h1, h2⟩
      rintro _ ⟨⟩
      rw [hopen.localSeq, hopen.remoteSeq, hopen.synced.send, hopen.current, b.current_eq, makeSalsaBox_comm] at hcar
      rwa [hsent.sendKeys]
    cases yx with
    | answered b' _ _ h2 h3 _ => exact .answered b' s' hy h2 h3 rfl
    | _ => simp_all
  | settled sx' sy h hb hy hack hinit htraf hun =>
    obtain rfl : sx = sx' := some.inj (hx.symm.trans h)
    have hun := hun hw
    refine ⟨hb, hun.nonce, fun s' t hsent hcar => ⟨?_, ?_⟩⟩
    · refine .settled s' sy rfl rfl hy hack hinit ?_ (absurd trivial)
      rintro _ ⟨⟩
      rcases hun.ends with ⟨hal, hrecv, -⟩ | ⟨hal, -⟩
      · refine ⟨_, .currentToRecv, hal.key_left ▸ hcar, ⟨hal.xRemote.symm, hal.xLocal.symm⟩, ?_, .inl rfl⟩
        rw [caseNonce, hrecv]
        exact zero_lt_one_nonce
      refine ⟨_, .nextToSend, hal.key_right ▸ hcar, ⟨hal.xLocal, hal.xRemote⟩, ?_, .inr hun.wrote⟩
      rw [caseNonce, hun.next]
      exact zero_lt_one_nonce
    cases yx with
    | acking _ sx' a h1 h2 h3 h4 h5 h6 h7 h8 =>
      obtain rfl : sx = sx' := some.inj (hx.symm.trans h3)
      refine .acking _ s' a h1 h2 rfl h4 h5 h6 (hsent.seq.symm ▸ h7) fun t ht => ?_
      rw [hsent.localKeySeq, hsent.sendKeys]
      exact h8 t ht
    | settled _ sx' h1 h2 h3 h4 h5 h6 _ =>
      obtain rfl : sx = sx' := some.inj (hx.symm.trans h3)
      exact .settled _ s' h1 h2 rfl h4 (fun i hi => hsent.seq.symm ▸ h5 i hi)
        (fun t ht => (h6 t ht).sent hsent fun _ => trivial) (absurd hun.wrote)
    | _ => simp_all
  | _ => simp_all

theorem Link.mail_eq (xy : Link x y) (hx : x.session = none) (hy : y.session = some sy) :
    x.mail = ⟨none, none, none⟩ := by
  cases xy with
  | idle _ _ h _ | answered _ _ _ _ h => exact h
  | _ => simp_all

theorem Link.init_fresh (xy : Link x y) (yx : Link y x) (hi : y.mail.init = some i)
    (hx : x.session = none) (hxb : x.buffer = none) : x.mail = ⟨none, none, none⟩ ∧
      ∀ (s' : SessionInfo) (a : SessionInit), OpenedFrom i s' → s'.sendNonce = 0 → Announces s' a → a.seq ≠ 0 →
      Link ⟨some s', none, ⟨none, some a, none⟩, x.wrote⟩ { y with mail := { y.mail with init := none } } ∧
      Link { y with mail := { y.mail with init := none } } ⟨some s', none, ⟨none, some a, none⟩, x.wrote⟩ := by
  have hm : x.mail = ⟨none, none, none⟩ := by
    cases xy with
    | idle _ _ h => exact h
    | _ => simp_all
  refine ⟨hm, fun s' a hopen hzero hann hseq => ?_⟩
  cases yx with
  | asked b hy hyb hym _ =>
    rw [hym] at hi ⊢
    cases hi
    exact ⟨.opening s' b a rfl rfl hy hyb rfl hopen hann hseq nofun nofun fun _ => hzero, .answered b s' hy hyb rfl rfl⟩
  | _ => simp_all

theorem Link.init_buffered (xy : Link x y) (yx : Link y x) (hok : x.Ok secs) (hi : y.mail.init = some i)
    (hx : x.session = none) {bx : SessionBuffer} (hxb : x.buffer = some bx) :
    x.mail.ack = none ∧ x.mail.traffic = none ∧
      ∀ (s' : SessionInfo) (a : SessionInit) (t : TrafficMsg), OpenedFrom i s' →
      s'.sendKeys = bx.currentKeys → s'.nextKeys = bx.nextKeys → Announces s' a → a.seq ≠ 0 → secs ≤ a.seq →
      Carries t ⟨0, 0, 1⟩ (makeSalsaBox i.current bx.currentKeys.priv) →
      Link ⟨some s', none, ⟨x.mail.init, some a, some t⟩, x.wrote⟩ { y with mail := { y.mail with init := none } } ∧
      Link { y with mail := { y.mail with init := none } } ⟨some s', none, ⟨x.mail.init, some a, some t⟩, x.wrote⟩ := by
  obtain ⟨hw, hkey0, hseq0, hsecs, -⟩ := hok.buffer bx hxb
  cases yx with
  | asked b hy hyb hym _ =>
    rw [hym] at hi ⊢
    cases hi
    have hxm : x.mail = ⟨some bx.init, none, none⟩ := by
      cases xy with
      | asked _ _ h h' => rw [hxb] at h; cases h; exact h'
      | _ => simp_all
    rw [hxm]
    refine ⟨rfl, rfl, fun s' a t hopen hsend hnext hann hseq hle hcar => ⟨?_, .answered b s' hy hyb rfl rfl⟩⟩
    refine .opening s' b a rfl rfl hy hyb rfl hopen hann hseq ?_ ?_ (absurd hw)
    · rintro _ ⟨⟩
      refine ⟨hw, ⟨?_, ?_, ?_⟩, hseq0, UInt64.le_trans hsecs hle⟩
      · rw [bx.current_eq, hsend]
      · rw [bx.next_eq, hnext]
      · rw [hkey0, hopen.localSeq]
    rintro _ ⟨⟩
    rwa [hsend, makeSalsaBox_comm, ← b.current_eq]
  | opening sy b a' hy hyb _ hb hack hopeny hanny hseqy hinity htrafy _ =>
    obtain rfl : bx = b := some.inj (hxb.symm.trans hb)
    obtain ⟨hwy, hanni, hiseq, hile⟩ := hinity i hi
    have hxm := xy.mail_eq hx hy
    rw [hxm]
    refine ⟨rfl, rfl, fun s' a t hopen hsend hnext hann hseq hle hcar => ⟨?_, ?_⟩⟩
    · refine .acking s' sy a rfl rfl hy rfl rfl hw ?_ ?_
      · rw [hopeny.seq]
        exact pred_lt_of_ne_zero hseq0 (UInt64.le_trans hsecs hle)
      rintro _ ⟨⟩
      rw [hanni.current, makeSalsaBox_comm] at hcar
      rwa [hann.keySeq, hopen.localSeq, hopeny.localSeq, hann.current, hsend]
    refine .acking sy s' a' hy hyb rfl rfl hack hwy ?_ ?_
    · rw [hopen.seq]
      exact pred_lt_of_ne_zero hiseq hile
    intro t' ht'
    rw [hanny.keySeq, hopeny.localSeq, hopen.localSeq, hanny.current, hsend]
    exact htrafy t' ht'
  | _ => simp_all

theorem Link.congr_right (h : Link x y) {y' : End} (hs : y'.session = y.session) (hb : y'.buffer = y.buffer)
    (ha : y'.mail.ack = y.mail.ack) (hw : y'.wrote = y.wrote) : Link x y' := by
  cases h with
  | idle h1 h2 h3 h4 => exact .idle h1 h2 h3 (hs.trans h4)
  | asked b h1 h2 h3 h4 => exact .asked b h1 h2 h3 (hs.trans h4)
  | answered b sy h1 h2 h3 h4 => exact .answered b sy h1 h2 h3 (hs.trans h4)
  | opening sx b a h1 h2 h3 h4 h5 h6 h7 h8 h9 h10 h11 =>
    exact .opening sx b a h1 h2 (hs.trans h3) (hb.trans h4) h5 h6 h7 h8 h9 h10 h11
  | acking sx sy a h1 h2 h3 h4 h5 h6 h7 h8 => exact .acking sx sy a h1 h2 (hs.trans h3) h4 h5 h6 h7 h8
  | settled sx sy h1 h2 h3 h4 h5 h6 h7 =>
    refine .settled sx sy h1 h2 (hs.trans h3) h4 h5 (hw ▸ h6) fun hx => ?_
    obtain ⟨w1, w2, w3, w4⟩ := h7 hx
    exact ⟨hw ▸ w1, w2, w3, ha ▸ w4⟩

theorem Link.init_stale (xy : Link x y) (yx : Link y x) (hi : y.mail.init = some i) (hx : x.session = some sx) :
    i.seq ≤ sx.seq ∧ Link x { y with mail := { y.mail with init := none } } ∧
      Link { y with mail := { y.mail with init := none } } x := by
  cases yx with
  | settled sy sx' h1 h2 h3 h4 h5 h6 h7 =>
    obtain rfl : sx = sx' := some.inj (hx.symm.trans h3)
    exact ⟨h5 i hi, xy.congr_right rfl rfl rfl rfl, .settled sy sx h1 h2 h3 h4 nofun h6 h7⟩
  | _ => simp_all

theorem Link.ack_buffered (xy : Link x y) (yx : Link y x) (hok : x.Ok secs) (ha : y.mail.ack = some a)
    (hx : x.session = none) : ∃ bx, x.buffer = some bx ∧ x.mail = ⟨none, none, none⟩ ∧
      a.seq ≠ 0 ∧ ∀ (s' : SessionInfo) (a' : SessionInit) (t : TrafficMsg), AckOpened bx a s' → Announces s' a' →
      secs ≤ a'.seq → Carries t ⟨1, a.keySeq, 1⟩ (makeSalsaBox a.current bx.nextKeys.priv) →
      Link ⟨some s', none, ⟨none, some a', some t⟩, x.wrote⟩ { y with mail := { y.mail with ack := none } } ∧
      Link { y with mail := { y.mail with ack := none } } ⟨some s', none, ⟨none, some a', some t⟩, x.wrote⟩ := by
  cases yx with
  | opening sy bx a0 hy hyb _ hb hack hopen hann hseq hinit htraf hzero =>
    obtain rfl : a = a0 := some.inj (ha.symm.trans hack)
    obtain ⟨hw, -, hseq0, hsecs, -⟩ := hok.buffer bx hb
    have hxm := xy.mail_eq hx hy
    refine ⟨bx, hb, hxm, hseq, fun s' a' t hs' hann' hle hcar => ⟨?_, ?_⟩⟩
    · refine .acking s' sy a' rfl rfl hy rfl rfl hw ?_ ?_
      · rw [hopen.seq]
        exact pred_lt_of_ne_zero hseq0 (UInt64.le_trans hsecs hle)
      rintro _ ⟨⟩
      rw [hann.keySeq, hann.current, makeSalsaBox_comm] at hcar
      rwa [hann'.keySeq, hs'.localSeq, hann'.current, hs'.sendKeys]
    have hal : Aligned s' sy := by
      refine ⟨hs'.synced, hopen.synced, ?_, ?_, ?_, ?_, ?_, ?_⟩
      · rw [hopen.current, bx.current_eq, hs'.recvKeys]
      · rw [hopen.next, bx.next_eq, hs'.sendKeys]
      · rw [hs'.current, hann.current]
      · rw [hs'.next, hann.next]
      · rw [hs'.remoteSeq, hann.keySeq]
      · rw [hs'.localSeq, hopen.remoteSeq]; rfl
    refine .settled sy s' hy hyb rfl rfl ?_ ?_ fun hwy =>
      ⟨hw, hzero hwy, hs'.nextSendNonce, .inl ⟨hal, hs'.recvNonce, ?_⟩⟩
    · intro i hi
      rw [hs'.seq]
      exact (hinit i hi).2.2.2
    · intro t' ht'
      have hcar' := htraf t' ht'
      refine ⟨⟨0, 0, 1⟩, .currentToRecv, ?_, ⟨?_, ?_⟩, ?_, .inl rfl⟩
      · rwa [caseShared, hs'.synced.recv, hs'.current, hs'.recvKeys, hann.current]
      · rw [hal.xRemote, hopen.localSeq]
      · rw [hs'.localSeq]; rfl
      rw [caseNonce, hs'.recvNonce]
      exact zero_lt_one_nonce
    rintro _ ⟨⟩
    exact hann'
  | _ => simp_all

theorem Link.session_left (xy : Link x y) (hx : x.session = some sx) (hy : y.session = some sy)
    {y' : End} (hs : y'.session = y.session) (hw : y'.wrote = y.wrote)
    (hun : ¬ x.wrote → Unsent sx sy y → Unsent s' sy y') : Link { x with session := some s' } y' := by
  cases xy with
  | acking _ sy' a _ h2 h3 h4 h5 h6 h7 h8 => exact .acking s' sy' a rfl h2 (hs.trans h3) h4 h5 h6 h7 h8
  | settled sx' sy' h1 h2 h3 h4 h5 h6 h7 =>
    obtain rfl : sx = sx' := some.inj (hx.symm.trans h1)
    obtain rfl : sy = sy' := some.inj (hy.symm.trans h3)
    exact .settled s' sy rfl h2 (hs.trans h3) h4 h5 (hw ▸ h6) fun hwx => hun hwx (h7 hwx)
  | _ => simp_all

theorem Unsent.updated (h : Unsent sx sy y) (ha : y.mail.ack = some a)
    (hs' : Updated sx a s') : Unsent s' sy { y with mail := { y.mail with ack := none } } := by
  rcases h.ends with ⟨hal, -, hann⟩ | ⟨-, hnone⟩
  · have hann := hann a ha
    refine ⟨h.wrote, hs'.sendNonce.trans h.nonce, h.next, .inr ⟨⟨hs'.synced, hal.xSynced, ?_, ?_, ?_, ?_, ?_, ?_⟩, rfl⟩⟩
    · rw [hs'.recvKeys, hal.xCurrent]
    · rw [hs'.sendKeys, hal.xNext]
    · rw [hs'.current, hann.current]
    · rw [hs'.next, hann.next]
    · rw [hs'.remoteSeq, hann.keySeq]
    · rw [hs'.localSeq, hal.xRemote]
  rw [ha] at hnone
  cases hnone

theorem Unsent.counted {n : UInt64} (h : Unsent sx sy y)
    (hc : sx.Counted .currentToRecv n s') : Unsent s' sy { y with mail := { y.mail with traffic := none } } := by
  refine ⟨h.wrote, hc.sendNonce.trans h.nonce, h.next, ?_⟩
  rcases h.ends with ⟨hal, h0, hann⟩ | ⟨hal, hnone⟩
  · exact .inl ⟨hal.counted_right hc, h0, hann⟩
  · exact .inr ⟨hal.counted_left hc, hnone⟩

theorem Link.ack_session (xy : Link x y) (yx : Link y x) (ha : y.mail.ack = some a) (hx : x.session = some sx) :
    sx.seq < a.seq ∧ ∀ s', Updated sx a s' →
      Link { x with session := some s' } { y with mail := { y.mail with ack := none } } ∧
      Link { y with mail := { y.mail with ack := none } } { x with session := some s' } := by
  cases yx with
  | acking sy sx' a0 hy hyb hx' hinit hack hwy hlt htraf =>
    obtain rfl : sx = sx' := some.inj (hx.symm.trans hx')
    obtain rfl : a = a0 := some.inj (ha.symm.trans hack)
    refine ⟨hlt, fun s' hs' => ⟨xy.session_left hx hy rfl rfl fun _ h => h.updated ha hs', ?_⟩⟩
    refine .settled sy s' hy hyb rfl rfl (fun i hi => ?_) (fun t ht => ?_) (absurd hwy)
    · rw [show y.mail.init = some i from hi] at hinit
      cases hinit
    refine ⟨⟨a.keySeq, sx.localKeySeq, 1⟩, .currentToRecv, ?_, ⟨hs'.remoteSeq.symm, hs'.localSeq.symm⟩, ?_, .inl rfl⟩
    · rw [caseShared, hs'.synced.recv, hs'.current, hs'.recvKeys]
      exact htraf t ht
    rw [caseNonce, hs'.recvNonce]
    exact zero_lt_one_nonce
  | _ => simp_all

/-- Traffic that overtakes no ack can be read. -/
theorem Link.traffic (xy : Link x y) (yx : Link y x) {t : TrafficMsg} (ht : y.mail.traffic = some t)
    (hack : y.mail.ack = none) (hx : x.session = some sx) (hwy : y.wrote) :
    ReadBy t sx x.wrote ∧ ∀ s', s'.seq = sx.seq → (¬ x.wrote → ∃ n, sx.Counted .currentToRecv n s') →
      Link { x with session := some s' } { y with mail := { y.mail with traffic := none } } ∧
      Link { y with mail := { y.mail with traffic := none } } { x with session := some s' } := by
  cases yx with
  | settled sy sx' hy hyb hx' _ hinit htraf _ =>
    obtain rfl : sx = sx' := some.inj (hx.symm.trans hx')
    refine ⟨htraf t ht, fun s' hseq hcnt => ⟨?_, ?_⟩⟩
    · refine xy.session_left hx hy rfl rfl fun hw h => ?_
      obtain ⟨n, hc⟩ := hcnt hw
      exact h.counted hc
    · exact .settled sy s' hy hyb rfl hack (fun i hi => hseq.symm ▸ hinit i hi) nofun (absurd hwy)
  | _ => simp_all

end Links

end Yggdrasil.Session
