import Mathlib.Data.Multiset.OrderedMonoid
import Yggdrasil.Session.Link

/-!
# The first messages arrive

Two managers that know nothing of each other; each side writes at most once, every message is delivered exactly once,
in any order.
-/

namespace Yggdrasil.Session
open List Option Mail Session.Net

/-! ## The runs -/

/-- Two managers, what is in flight, the last clock reading of each side, and the payloads buffered so far. -/
structure Opening where
  flight : Flight
  secs : Side → UInt64
  buffered : List (Side × Bytes)

namespace Opening
variable (ids : Ids)

def start (timeout : Duration) : Opening := ⟨⟨Net.start ids timeout, 0⟩, fun _ => 0, []⟩

def reads (s : Opening) : Event → Side → UInt64
  | .write p _ clk => Function.update s.secs p clk.unixSecs
  | .receive p _ clk => Function.update s.secs p clk.unixSecs
  | .cleanup _ _ => s.secs

def buffers (s : Opening) : Event → List (Side × Bytes)
  | .write p msg _ => if (s.flight.net.session ids p).isSome then [] else [(p, msg)]
  | _ => []

def exec (s : Opening) (e : Event) : Opening :=
  ⟨s.flight.exec ids e, s.reads e, s.buffered ++ s.buffers ids e⟩

def Wrote (s : Opening) (p : Side) : Prop := p ∈ s.flight.net.written.map Prod.fst

instance (s : Opening) (p : Side) : Decidable (s.Wrote p) := inferInstanceAs (Decidable (_ ∈ _))

/-- Each side writes at most once, what is received is in flight, nothing expires, and no clock goes back. -/
def Offered (s : Opening) : Event → Prop
  | .write p _ clk => ¬ s.Wrote p ∧ s.secs p ≤ clk.unixSecs
  | .receive p data clk => (p, data) ∈ s.flight.inflight ∧ s.secs p ≤ clk.unixSecs
  | .cleanup _ _ => False

def Step (s : Opening) (e : Event) (s' : Opening) : Prop := s.Offered e ∧ s' = s.exec ids e

/-- Every buffered payload has been delivered. -/
def AllDelivered (s : Opening) : Prop :=
  ∀ e ∈ s.buffered, (e.1.other, ids.key e.1, e.2) ∈ s.flight.net.delivered

/-- The clock is past the epoch, data is written, and traffic comes to a side with a session and no ack in flight. -/
def InOrder (s : Opening) : Event → Prop
  | .write _ msg clk => clk.unixSecs ≠ 0 ∧ IsData msg
  | .receive p (.traffic _) _ => (s.flight.net.session ids p).isSome ∧
      ∀ e ∈ s.flight.inflight, ¬ (e.1 = p ∧ e.2.isAck)
  | .receive _ (.init _) clk => clk.unixSecs ≠ 0
  | _ => True

end Opening

/-! ## The whole state -/

def End.Keeps (x : End) (msg : Bytes) (delivered : Prop) : Prop :=
  (∃ b, x.buffer = some b ∧ b.data = some msg) ∨ (∃ t, x.mail.traffic = some t ∧ t.body.plain.payload = msg) ∨ delivered

structure Opening.Holds (ids : Ids) (s : Opening) (p : Side) (x : End) : Prop where
  session : s.flight.net.session ids p = x.session
  buffer : s.flight.net.buffer ids p = x.buffer
  wrote : x.wrote ↔ s.Wrote p
  ok : x.Ok (s.secs p)
  keeps : ∀ msg, (p, msg) ∈ s.buffered → x.Keeps msg ((p.other, ids.key p, msg) ∈ s.flight.net.delivered)

structure Opening.Progress (ids : Ids) (s : Opening) (p : Side) (x y : End) : Prop where
  auth : s.flight.net.AuthKept ids
  here : s.Holds ids p x
  there : s.Holds ids p.other y
  inflight : s.flight.inflight = x.mail.bag ids p + y.mail.bag ids p.other
  xy : Link x y
  yx : Link y x

variable {ids : Ids} {s : Opening}

theorem Opening.Progress.symm {p : Side} {x y : End} (h : s.Progress ids p x y) : s.Progress ids p.other y x := by
  refine ⟨h.auth, h.there, ?_, ?_, h.yx, h.xy⟩
  · rw [Side.other_other]
    exact h.here
  · rw [Side.other_other, h.inflight, add_comm]

def Opening.Sound (ids : Ids) (s : Opening) : Prop := ∃ x y, s.Progress ids .a x y

theorem Opening.Sound.at (h : s.Sound ids) (p : Side) : ∃ x y, s.Progress ids p x y := by
  obtain ⟨x, y, hp⟩ := h
  cases p with
  | a => exact ⟨x, y, hp⟩
  | b => exact ⟨y, x, hp.symm⟩

theorem Opening.Progress.sound {p : Side} {x y : End} (h : s.Progress ids p x y) : s.Sound ids := by
  cases p with
  | a => exact ⟨x, y, h⟩
  | b => exact ⟨y, x, h.symm⟩

theorem Opening.start_sound (ids : Ids) (timeout : Duration) : (Opening.start ids timeout).Sound ids := by
  have hend : ∀ p, (Opening.start ids timeout).Holds ids p ⟨none, none, ⟨none, none, none⟩, False⟩ := fun p =>
    ⟨rfl, rfl, ⟨False.elim, nofun⟩, ⟨nofun, nofun⟩, nofun⟩
  exact ⟨_, _, ⟨start_authKept ids timeout, hend .a, hend .b, rfl, .idle rfl rfl rfl rfl, .idle rfl rfl rfl rfl⟩⟩

section Exec
variable {ids : Ids} {s : Opening} {p : Side} {x y : End} {e : Event}

theorem Opening.wrote_exec (q : Side) : (s.exec ids e).Wrote q ↔ s.Wrote q ∨ q = e.side ∧ e.writes ≠ [] := by
  have : e.writes = [] ∨ ∃ msg, e.writes = [msg] := by
    cases e with
    | write _ msg _ => exact .inr ⟨msg, rfl⟩
    | receive | cleanup => exact .inl rfl
  rcases this with h | ⟨msg, h⟩ <;> simp [Opening.Wrote, Opening.exec, Flight.exec, Net.exec, h, eq_comm]

theorem Opening.delivered_exec {d : Side × PublicKey × Bytes} (h : d ∈ s.flight.net.delivered) :
    d ∈ (s.exec ids e).flight.net.delivered := mem_append_left _ h

variable {x' : End} {msg : Bytes} {t : TrafficMsg} {m : Mail} {clk : Clock} {i : SessionInit}

theorem End.Keeps.imp {P Q : Prop} (h : x.Keeps msg P) (hb : x'.buffer = x.buffer)
    (ht : ∀ t, x.mail.traffic = some t → x'.mail.traffic = some t ∨ (t.body.plain.payload = msg → Q)) (hPQ : P → Q) :
    x'.Keeps msg Q := by
  rcases h with ⟨b, h1, h2⟩ | ⟨t, h1, h2⟩ | h
  · exact .inl ⟨b, hb.trans h1, h2⟩
  · rcases ht t h1 with h | h
    · exact .inr (.inl ⟨t, h, h2⟩)
    · exact .inr (.inr (h h2))
  · exact .inr (.inr (hPQ h))

theorem End.Keeps.opened {b : SessionBuffer} {msg' : Bytes} {P : Prop} (h : x.Keeps msg' P)
    (hb : x.buffer = some b) (hmsg : b.data = some msg) (hnone : x.mail.traffic = none)
    (hpay : t.body.plain.payload = msg) (ht : x'.mail.traffic = some t) : x'.Keeps msg' P := by
  rcases h with ⟨b', h1, h2⟩ | ⟨t', h1, -⟩ | h
  · obtain rfl : b = b' := some.inj (hb.symm.trans h1)
    exact .inr (.inl ⟨t, ht, hpay.trans (some.inj (hmsg.symm.trans h2))⟩)
  · rw [hnone] at h1; cases h1
  · exact .inr (.inr h)

theorem Opening.Holds.exec_other (h : s.Holds ids e.side.other y)
    (hm : ∀ t, m.traffic = some t → y.mail.traffic = some t)
    (hgone : ∀ t, y.mail.traffic = some t → m.traffic = some t ∨
      (e.side, ids.key e.side.other, t.body.plain.payload) ∈ (s.exec ids e).flight.net.delivered) :
    (s.exec ids e).Holds ids e.side.other { y with mail := m } := by
  have hsecs : (s.exec ids e).secs e.side.other = s.secs e.side.other := by
    cases e <;> simp [Opening.exec, Opening.reads, Event.side]
  refine ⟨?_, ?_, ?_, ⟨?_, ?_⟩, ?_⟩
  · exact (session_exec_other e).trans h.session
  · rw [← h.buffer]
    simp [Opening.exec, Flight.exec, Net.exec, Net.buffer]
  · rw [Opening.wrote_exec]
    simpa using h.wrote
  · rw [hsecs]
    exact h.ok.buffer
  · intro t ht
    exact h.ok.traffic t (hm t ht)
  intro msg hmsg
  have hold : (e.side.other, msg) ∈ s.buffered := by
    rcases mem_append.mp hmsg with hmem | hmem
    · exact hmem
    cases e with
    | write q m clk =>
      simp only [Opening.buffers, Event.side] at hmem
      split at hmem <;> simp at hmem
    | receive | cleanup => cases hmem
  refine (h.keeps msg hold).imp rfl (fun t ht => (hgone t ht).imp_right ?_) Opening.delivered_exec
  rw [Side.other_other]
  rintro hd rfl
  exact hd

theorem Opening.Holds.exec_self {ps : List Packet} {ds : List (PublicKey × Bytes)} (h : s.Holds ids e.side x)
    (hl : s.flight.net.Leaves ids e x'.session x'.buffer ps ds) (hw : x'.wrote ↔ x.wrote ∨ e.writes ≠ [])
    (hok : x'.Ok ((s.exec ids e).secs e.side)) (hk : ∀ msg P, x.Keeps msg P → x'.Keeps msg P)
    (hnew : ∀ msg, (e.side, msg) ∈ s.buffers ids e → x'.Keeps msg False) : (s.exec ids e).Holds ids e.side x' := by
  refine ⟨?_, ?_, ?_, hok, ?_⟩
  · rw [← hl.session]
    simp [Opening.exec, Flight.exec, Net.exec, Net.session]
  · rw [← hl.buffer]
    simp [Opening.exec, Flight.exec, Net.exec, Net.buffer]
  · rw [Opening.wrote_exec, hw, h.wrote]
    simp
  intro msg hmsg
  rcases mem_append.mp hmsg with hold | hmem
  · exact (hk msg _ (h.keeps msg hold)).imp rfl (fun t ht => .inl ht) Opening.delivered_exec
  · exact (hnew msg hmem).imp rfl (fun t ht => .inl ht) False.elim

theorem End.Ok.mono {secs secs' : UInt64} (h : x.Ok secs) (hle : secs ≤ secs') : x.Ok secs' := by
  refine ⟨fun b hb => ?_, h.traffic⟩
  obtain ⟨h1, h2, h3, h4, h5⟩ := h.buffer b hb
  exact ⟨h1, h2, h3, UInt64.le_trans h4 hle, h5⟩

theorem Opening.Progress.receive_exec (h : s.Progress ids p x y) {d : Packet} {z : End}
    {ps : List Packet} {ds : List (PublicKey × Bytes)}
    (hl : s.flight.net.Leaves ids (.receive p d clk) z.session z.buffer ps ds)
    (hy : y.mail.bag ids p.other = {(p, d)} + m.bag ids p.other)
    (hx : z.mail.bag ids p = x.mail.bag ids p + (ps.map (Prod.mk p.other) : List _)) (hw : z.wrote = x.wrote)
    (hok : z.Ok clk.unixSecs) (hk : ∀ msg P, x.Keeps msg P → z.Keeps msg P)
    (hm : ∀ t, m.traffic = some t → y.mail.traffic = some t)
    (hgone : ∀ t, y.mail.traffic = some t → m.traffic = some t ∨ (ids.key p.other, t.body.plain.payload) ∈ ds)
    (hlinks : Link z { y with mail := m } ∧ Link { y with mail := m } z) :
    (s.exec ids (.receive p d clk)).Sound ids := by
  have hsecs : (s.exec ids (.receive p d clk)).secs p = clk.unixSecs := by
    simp [Opening.exec, Opening.reads]
  refine Opening.Progress.sound (p := p) ⟨h.auth.exec _, ?_, ?_, ?_, hlinks.1, hlinks.2⟩
  · exact h.here.exec_self hl (by simp [hw, Event.writes]) (hsecs.symm ▸ hok) hk nofun
  · refine h.there.exec_other (e := .receive p d clk) hm fun t ht => (hgone t ht).imp_right fun hd => ?_
    rw [← hl.deliveries] at hd
    exact mem_append_right _ (mem_map_of_mem hd)
  have hbag : s.flight.inflight = {(p, d)} + (x.mail.bag ids p + m.bag ids p.other) := by
    rw [h.inflight, hy, add_left_comm]
  have hans : s.flight.answers ids (.receive p d clk) = (ps.map (Prod.mk p.other) : List _) := by
    rw [← hl.packets]
    rfl
  simp only [Opening.exec, Flight.exec, hans, Event.takes]
  rw [hbag, add_tsub_cancel_left, hx, add_right_comm]

theorem Mail.bag_init (ids : Ids) (h : m.init = some i) (q : Side) :
    m.bag ids q = {(q.other, .init (ids.sealInit q i))} + { m with init := none }.bag ids q := by
  simp only [Mail.bag, h, elim_some, elim_none, zero_add, add_assoc]

theorem Mail.bag_ack (ids : Ids) (h : m.ack = some i) (q : Side) :
    m.bag ids q = {(q.other, .ack (ids.sealInit q i))} + { m with ack := none }.bag ids q := by
  simp only [Mail.bag, h, elim_some, elim_none, add_zero, add_assoc, add_left_comm]

theorem Mail.bag_traffic (ids : Ids) (h : m.traffic = some t) (q : Side) :
    m.bag ids q = {(q.other, .traffic t)} + { m with traffic := none }.bag ids q := by
  simp only [Mail.bag, h, elim_some, elim_none, add_zero]
  rw [add_comm]

theorem Mail.bag_opened (i : Option SessionInit) (a : SessionInit) (t : TrafficMsg) (q : Side) :
    (Mail.mk i (some a) (some t)).bag ids q =
      (Mail.mk i none none).bag ids q + ↑[(q.other, .ack (ids.sealInit q a)), (q.other, Packet.traffic t)] := by
  simp only [Mail.bag, elim_some, elim_none, add_zero, add_assoc]
  rfl

section
variable (h : s.Progress ids p x y)
include h

theorem Opening.Progress.received {d : Packet} (hd : (p, d) ∈ s.flight.inflight) :
    (∃ i, y.mail.init = some i ∧ d = .init (ids.sealInit p.other i)) ∨
    (∃ i, y.mail.ack = some i ∧ d = .ack (ids.sealInit p.other i)) ∨
      (∃ t, y.mail.traffic = some t ∧ d = .traffic t) := by
  rw [h.inflight, Multiset.mem_add] at hd
  have hmem : ∀ (q : Side) (m : Mail), (p, d) ∈ m.bag ids q → q.other = p ∧
      ((∃ i, m.init = some i ∧ d = .init (ids.sealInit q i)) ∨ (∃ i, m.ack = some i ∧ d = .ack (ids.sealInit q i)) ∨
        (∃ t, m.traffic = some t ∧ d = .traffic t)) := by
    rintro q ⟨i, a, t⟩ hq
    simp only [Mail.bag, Multiset.mem_add] at hq
    rcases hq with (hq | hq) | hq
    · cases i with
      | none => cases hq
      | some i =>
        obtain ⟨rfl, rfl⟩ := Prod.mk.inj (Multiset.mem_singleton.mp hq)
        exact ⟨rfl, .inl ⟨i, rfl, rfl⟩⟩
    · cases a with
      | none => cases hq
      | some a =>
        obtain ⟨rfl, rfl⟩ := Prod.mk.inj (Multiset.mem_singleton.mp hq)
        exact ⟨rfl, .inr (.inl ⟨a, rfl, rfl⟩)⟩
    cases t with
    | none => cases hq
    | some t =>
      obtain ⟨rfl, rfl⟩ := Prod.mk.inj (Multiset.mem_singleton.mp hq)
      exact ⟨rfl, .inr (.inr ⟨t, rfl, rfl⟩)⟩
  rcases hd with hd | hd
  · exact absurd (hmem p _ hd).1 (Side.other_ne p)
  · exact (hmem p.other _ hd).2

/-! ## Every step keeps the state sound -/

theorem Opening.Progress.receive_init (hsame : ids.auth .a = ids.auth .b)
    (hi : y.mail.init = some i) (hsecs : s.secs p ≤ clk.unixSecs) (hclk : clk.unixSecs ≠ 0) :
    (s.exec ids (.receive p (.init (ids.sealInit p.other i)) clk)).Sound ids := by
  have hy := bag_init ids hi p.other
  rw [Side.other_other] at hy
  have hok := h.here.ok.mono hsecs
  cases hx : x.session with
  | some sx =>
    obtain ⟨hle, hlinks⟩ := h.xy.init_stale h.yx hi hx
    have hl := leaves_init_stale h.auth hsame (h.here.session.trans hx) hle clk
    rw [h.here.buffer, ← hx] at hl
    exact h.receive_exec hl hy (by simp) rfl hok (fun _ _ hk => hk) (fun _ ht => ht) (fun _ ht => .inl ht) hlinks
  | none =>
    cases hxb : x.buffer with
    | none =>
      obtain ⟨hm, hlinks⟩ := h.xy.init_fresh h.yx hi hx hxb
      obtain ⟨s', a, hopen, hzero, hann, hseq, hl⟩ :=
        leaves_init_fresh h.auth hsame (h.here.session.trans hx) (h.here.buffer.trans hxb) i clk
      refine h.receive_exec (z := ⟨some s', none, ⟨none, some a, none⟩, x.wrote⟩) hl hy ?_ rfl ⟨nofun, nofun⟩ ?_
        (fun _ ht => ht) (fun _ ht => .inl ht) (hlinks s' a hopen hzero hann (hseq ▸ hclk))
      · rw [hm]
        simp [Mail.bag]
      intro msg P hk
      exact hk.imp hxb.symm (fun t ht => by rw [hm] at ht; cases ht) id
    | some bx =>
      obtain ⟨hwx, -, -, -, msg, hmsg, hdata⟩ := hok.buffer bx hxb
      obtain ⟨hma, hmt, hlinks⟩ := h.xy.init_buffered h.yx hok hi hx hxb
      obtain ⟨s', a, t, hopen, hsend, hnext, hann, hseq, hcar, hpay, hl⟩ :=
        leaves_init_buffered h.auth hsame (h.here.session.trans hx) (h.here.buffer.trans hxb) hmsg i clk
      refine h.receive_exec (z := ⟨some s', none, ⟨x.mail.init, some a, some t⟩, x.wrote⟩) hl hy ?_ rfl ⟨nofun, ?_⟩ ?_
        (fun _ ht => ht) (fun _ ht => .inl ht)
        (hlinks s' a t hopen hsend hnext hann (hseq ▸ hclk) (UInt64.le_of_eq hseq.symm) hcar)
      · have hm : x.mail = ⟨x.mail.init, none, none⟩ := by rw [← hma, ← hmt]
        rw [hm, bag_opened]
        exact congrArg _ (Multiset.coe_eq_coe.mpr (List.Perm.swap ..))
      · rintro _ ⟨⟩
        exact ⟨hwx, hpay.symm ▸ hdata⟩
      · exact fun _ _ hk => hk.opened hxb hmsg hmt hpay rfl

theorem Opening.Progress.receive_ack (hsame : ids.auth .a = ids.auth .b) {a : SessionInit}
    (ha : y.mail.ack = some a) (hsecs : s.secs p ≤ clk.unixSecs) :
    (s.exec ids (.receive p (.ack (ids.sealInit p.other a)) clk)).Sound ids := by
  have hy := bag_ack ids ha p.other
  rw [Side.other_other] at hy
  have hok := h.here.ok.mono hsecs
  cases hx : x.session with
  | some sx =>
    obtain ⟨hlt, hlinks⟩ := h.xy.ack_session h.yx ha hx
    obtain ⟨s', hs', hl⟩ := leaves_ack_session h.auth hsame (h.here.session.trans hx) hlt clk
    rw [h.here.buffer] at hl
    exact h.receive_exec (z := { x with session := some s' }) hl hy (by simp) rfl ⟨hok.buffer, hok.traffic⟩
      (fun _ _ hk => hk) (fun _ ht => ht) (fun _ ht => .inl ht) (hlinks s' hs')
  | none =>
    obtain ⟨bx, hxb, hm, hseq, hlinks⟩ := h.xy.ack_buffered h.yx hok ha hx
    obtain ⟨hwx, -, -, -, msg, hmsg, hdata⟩ := hok.buffer bx hxb
    obtain ⟨s', a', t, hopen, hann, hseq', hcar, hpay, hl⟩ :=
      leaves_ack_buffered h.auth hsame (h.here.session.trans hx) (h.here.buffer.trans hxb) hmsg hseq clk
    refine h.receive_exec (z := ⟨some s', none, ⟨none, some a', some t⟩, x.wrote⟩) hl hy ?_ rfl ⟨nofun, ?_⟩ ?_
      (fun _ ht => ht) (fun _ ht => .inl ht) (hlinks s' a' t hopen hann (UInt64.le_of_eq hseq'.symm) hcar)
    · rw [hm, bag_opened]
      rfl
    · rintro _ ⟨⟩
      exact ⟨hwx, hpay.symm ▸ hdata⟩
    · exact fun _ _ hk => hk.opened hxb hmsg (by rw [hm]) hpay rfl

theorem Opening.Progress.receive_traffic (ht : y.mail.traffic = some t)
    (hsecs : s.secs p ≤ clk.unixSecs) (hord : s.InOrder ids (.receive p (.traffic t) clk)) :
    (s.exec ids (.receive p (.traffic t) clk)).Sound ids := by
  have hy := bag_traffic ids ht p.other
  rw [Side.other_other] at hy
  obtain ⟨hsome, hnoack⟩ := hord
  rw [h.here.session] at hsome
  obtain ⟨sx, hx⟩ := isSome_iff_exists.mp hsome
  -- an ack of the other side would be in flight
  have hack : y.mail.ack = none := by
    cases ha : y.mail.ack with
    | none => rfl
    | some a =>
      refine absurd ⟨rfl, rfl⟩ (hnoack (p, .ack (ids.sealInit p.other a)) ?_)
      rw [h.inflight, bag_ack ids ha p.other, Side.other_other]
      simp
  obtain ⟨hwy, hdata⟩ := h.there.ok.traffic t ht
  obtain ⟨hread, hlinks⟩ := h.xy.traffic h.yx ht hack hx hwy
  obtain ⟨s', hseq, hcnt, hl⟩ := leaves_traffic (h.here.session.trans hx) hread hdata clk
  rw [h.here.buffer] at hl
  have hok := h.here.ok.mono hsecs
  refine h.receive_exec (z := { x with session := some s' }) hl hy (by simp) rfl ⟨hok.buffer, hok.traffic⟩
    (fun _ _ hk => hk) nofun ?_ (hlinks s' hseq hcnt)
  intro t' ht'
  obtain rfl : t = t' := some.inj (ht.symm.trans ht')
  exact .inr (mem_singleton_self _)

theorem Opening.Progress.write (hw : ¬ s.Wrote p)
    (hclk : clk.unixSecs ≠ 0) (hdata : IsData msg) : (s.exec ids (.write p msg clk)).Sound ids := by
  have hwx : ¬ x.wrote := fun hx => hw (h.here.wrote.mp hx)
  have hreads : (s.exec ids (.write p msg clk)).secs p = clk.unixSecs := by
    simp [Opening.exec, Opening.reads]
  have hsess := h.here.session
  have hthere : (s.exec ids (.write p msg clk)).Holds ids p.other y :=
    h.there.exec_other (e := .write p msg clk) (fun _ ht => ht) fun _ ht => .inl ht
  have hinflight : ∀ {session buffer ps ds}, s.flight.net.Leaves ids (.write p msg clk) session buffer ps ds →
      (s.exec ids (.write p msg clk)).flight.inflight = s.flight.inflight + (ps.map (Prod.mk p.other) : List _) := by
    intro session buffer ps ds hl
    rw [← hl.packets]
    simp only [Opening.exec, Flight.exec, Event.takes, tsub_zero]
    rfl
  cases hx : x.session with
  | none =>
    obtain ⟨hxb, hm, hlinks⟩ := h.xy.write_first h.yx hx hwx h.here.ok
    obtain ⟨b, hmsg, hkey, hseq, hl⟩ :=
      leaves_write_first h.auth (hsess.trans hx) (h.here.buffer.trans hxb) msg clk
    refine Opening.Progress.sound (p := p) (x := ⟨none, some b, ⟨some b.init, none, none⟩, True⟩) (y := y)
      ⟨h.auth.exec _, ?_, hthere, ?_, (hlinks b).1, (hlinks b).2⟩
    · refine h.here.exec_self (e := .write p msg clk) hl (by simp [Event.writes]) (hreads.symm ▸ ⟨?_, by simp⟩) ?_ ?_
      · rintro _ ⟨⟩
        exact ⟨trivial, hkey, hseq ▸ hclk, UInt64.le_of_eq hseq, msg, hmsg, hdata⟩
      · rintro msg' P (⟨b', hb', -⟩ | ⟨t', ht', -⟩ | hP)
        · rw [hxb] at hb'; cases hb'
        · rw [hm] at ht'; cases ht'
        · exact .inr (.inr hP)
      intro msg' hmem
      simp only [Opening.buffers, hsess, hx, Event.side] at hmem
      obtain rfl : msg' = msg := by simpa using hmem
      exact .inl ⟨b, rfl, hmsg⟩
    rw [hinflight hl, h.inflight, hm]
    simp [Mail.bag, add_comm]
  | some sx =>
    obtain ⟨hxb, hzero, hlinks⟩ := h.xy.write_session h.yx hx hwx
    obtain ⟨s', t, hsent, hcar, hpay, hl⟩ := leaves_write_session (hsess.trans hx) hzero msg clk
    rw [h.here.buffer, hxb] at hl
    have hmt : x.mail.traffic = none := by
      cases ht : x.mail.traffic with
      | none => rfl
      | some t => exact absurd (h.here.ok.traffic t ht).1 hwx
    refine Opening.Progress.sound (p := p) (x := ⟨some s', none, ⟨x.mail.init, x.mail.ack, some t⟩, True⟩) (y := y)
      ⟨h.auth.exec _, ?_, hthere, ?_, (hlinks s' t hsent hcar).1, (hlinks s' t hsent hcar).2⟩
    · refine h.here.exec_self (e := .write p msg clk) hl (by simp [Event.writes]) (hreads.symm ▸ ⟨by simp, ?_⟩) ?_ ?_
      · rintro _ ⟨⟩
        exact ⟨trivial, hpay.symm ▸ hdata⟩
      · intro msg' P hk
        exact hk.imp hxb.symm (fun t ht => by rw [hmt] at ht; cases ht) id
      intro msg' hmem
      simp [Opening.buffers, hsess, hx] at hmem
    rw [hinflight hl, h.inflight]
    simp [Mail.bag, hmt, add_comm]

end

theorem Opening.Sound.step (hsame : ids.auth .a = ids.auth .b) {s' : Opening} (h : s.Sound ids)
    (hs : Lts.Guarded (Opening.Step ids) (Opening.InOrder ids) s e s') : s'.Sound ids := by
  obtain ⟨⟨hoff, rfl⟩, hord⟩ := hs
  cases e with
  | cleanup => exact hoff.elim
  | write p msg clk =>
    obtain ⟨x, y, hp⟩ := h.at p
    exact hp.write hoff.1 hord.1 hord.2
  | receive p data clk =>
    obtain ⟨x, y, hp⟩ := h.at p
    rcases hp.received hoff.1 with ⟨i, hi, rfl⟩ | ⟨a, ha, rfl⟩ | ⟨t, ht, rfl⟩
    · exact hp.receive_init hsame hi hoff.2 hord
    · exact hp.receive_ack hsame ha hoff.2
    · exact hp.receive_traffic ht hoff.2 hord

theorem Mail.bag_eq_zero {q : Side} (h : m.bag ids q = 0) : m = ⟨none, none, none⟩ := by
  obtain ⟨i, a, t⟩ := m
  simp only [Mail.bag, add_eq_zero] at h
  obtain ⟨⟨hi, ha⟩, ht⟩ := h
  cases i with
  | some i => exact absurd hi (Multiset.singleton_ne_zero _)
  | none =>
    cases a with
    | some a => exact absurd ha (Multiset.singleton_ne_zero _)
    | none =>
      cases t with
      | some t => exact absurd ht (Multiset.singleton_ne_zero _)
      | none => rfl

theorem Link.buffer_eq_none (xy : Link x y) (yx : Link y x) (hx : x.mail = ⟨none, none, none⟩)
    (hy : y.mail = ⟨none, none, none⟩) : x.buffer = none := by
  cases xy with
  | idle _ hb _ _ | opening _ _ _ _ hb | acking _ _ _ _ hb | settled _ _ _ hb => exact hb
  | asked _ _ _ h => rw [hx] at h; cases h
  | answered _ _ hs _ _ hsy =>
    -- the ack of the side that answered would be in flight
    cases yx with
    | _ => simp_all

theorem Opening.Progress.delivered (h : s.Progress ids p x y) (hzero : s.flight.inflight = 0)
    (hmsg : (p, msg) ∈ s.buffered) : (p.other, ids.key p, msg) ∈ s.flight.net.delivered := by
  have hbags := h.inflight
  rw [hzero, eq_comm, add_eq_zero] at hbags
  have hxm := bag_eq_zero hbags.1
  have hb := h.xy.buffer_eq_none h.yx hxm (bag_eq_zero hbags.2)
  rcases h.here.keeps msg hmsg with ⟨b, h1, -⟩ | ⟨t, h1, -⟩ | hd
  · rw [hb] at h1; cases h1
  · rw [hxm] at h1; cases h1
  · exact hd

end Exec

/-- Two managers with one group secret: when nothing is in flight, every buffered payload has been delivered, if no
traffic overtakes an ack. -/
theorem first_messages_delivered (ids : Ids) (hsame : ids.auth .a = ids.auth .b) (timeout : Duration) (es : List Event)
    (s : Opening)
    (hrun : Lts.Run (Lts.Guarded (Opening.Step ids) (Opening.InOrder ids)) (Opening.start ids timeout) es s)
    (hzero : s.flight.inflight = 0) : s.AllDelivered ids := by
  have hsound : s.Sound ids := hrun.invariant (Opening.start_sound ids timeout) fun _ _ _ h hs => h.step hsame hs
  rintro ⟨p, msg⟩ hmsg
  obtain ⟨x, y, hp⟩ := hsound.at p
  exact hp.delivered hzero hmsg

/-! ## Two runs -/

instance (s : Opening) : ∀ e, Decidable (s.Offered e)
  | .write p _ clk => inferInstanceAs (Decidable (¬ s.Wrote p ∧ s.secs p ≤ clk.unixSecs))
  | .receive p data clk => inferInstanceAs (Decidable ((p, data) ∈ s.flight.inflight ∧ s.secs p ≤ clk.unixSecs))
  | .cleanup _ _ => inferInstanceAs (Decidable False)

instance (msg : Bytes) : Decidable (IsData msg) := inferInstanceAs (Decidable (_ ∧ _ ∧ _))

instance (ids : Ids) (s : Opening) : ∀ e, Decidable (s.InOrder ids e)
  | .write _ msg clk => inferInstanceAs (Decidable (clk.unixSecs ≠ 0 ∧ IsData msg))
  | .receive p (.traffic _) _ => inferInstanceAs (Decidable ((s.flight.net.session ids p).isSome ∧
      ∀ e ∈ s.flight.inflight, ¬ (e.1 = p ∧ e.2.isAck)))
  | .receive _ (.init _) clk => inferInstanceAs (Decidable (clk.unixSecs ≠ 0))
  | .receive _ (.ack _) _ => inferInstanceAs (Decidable True)
  | .receive _ .junk _ => inferInstanceAs (Decidable True)
  | .cleanup _ _ => inferInstanceAs (Decidable True)

def crossedTraffic (p : Side) (msg : Bytes) : TrafficMsg :=
  ⟨some ⟨0, 0, 1⟩, s(⟨⟨exampleIds.key p.other, 0⟩⟩, ⟨⟨exampleIds.key p, 0⟩⟩), 1, some ⟨⟨exampleIds.key p, 1⟩⟩, msg⟩

def crossedOpen : List Event :=
  [.write .a [1] ⟨0, 1⟩, .write .b [2] ⟨0, 1⟩, .receive .b (.init (firstInit exampleIds .a ⟨0, 1⟩)) ⟨0, 1⟩,
    .receive .a (.init (firstInit exampleIds .b ⟨0, 1⟩)) ⟨0, 1⟩]

def crossedAcks : List Event :=
  [.receive .a (.ack (firstInit exampleIds .b ⟨0, 1⟩)) ⟨0, 1⟩,
    .receive .b (.ack (firstInit exampleIds .a ⟨0, 1⟩)) ⟨0, 1⟩]

def crossedDelivery : List Event :=
  [.receive .a (.traffic (crossedTraffic .b [2])) ⟨0, 1⟩, .receive .b (.traffic (crossedTraffic .a [1])) ⟨0, 1⟩]

def inOrderRun : List Event := crossedOpen ++ crossedAcks ++ crossedDelivery

theorem first_messages_delivered_inOrder :
    (inOrderRun.foldl (Opening.exec exampleIds) (Opening.start exampleIds 0)).buffered = [(.a, [1]), (.b, [2])] ∧
      (inOrderRun.foldl (Opening.exec exampleIds) (Opening.start exampleIds 0)).AllDelivered exampleIds := by
  have hadm : Lts.Admitted (Opening.exec exampleIds) (fun s e => s.Offered e ∧ s.InOrder exampleIds e)
      (Opening.start exampleIds 0) inOrderRun := by decide
  have hrun : Lts.Run (Lts.Guarded (Opening.Step exampleIds) (Opening.InOrder exampleIds)) (Opening.start exampleIds 0)
      inOrderRun _ := hadm.run fun _ _ h => ⟨⟨h.1, rfl⟩, h.2⟩
  exact ⟨by decide, first_messages_delivered exampleIds rfl 0 inOrderRun _ hrun (by decide +kernel)⟩

def overtakingRun : List Event :=
  crossedOpen ++ crossedDelivery ++ crossedAcks ++ [.receive .b (.init (firstInit exampleIds .a ⟨0, 1⟩)) ⟨0, 1⟩,
      .receive .a (.init (firstInit exampleIds .b ⟨0, 1⟩)) ⟨0, 1⟩]

theorem overtaking_traffic_is_lost : ¬ ∀ (ids : Ids) (timeout : Duration) (es : List Event) (s : Opening),
    ids.auth .a = ids.auth .b → Lts.Run (Opening.Step ids) (Opening.start ids timeout) es s →
      s.flight.inflight = 0 → s.AllDelivered ids := by
  intro h
  have hadm : Lts.Admitted (Opening.exec exampleIds) Opening.Offered (Opening.start exampleIds 0) overtakingRun := by
    decide
  have hrun : Lts.Run (Opening.Step exampleIds) (Opening.start exampleIds 0) overtakingRun _ :=
    hadm.run fun _ _ h => ⟨h, rfl⟩
  have hall := h exampleIds 0 overtakingRun _ rfl hrun (by decide)
  exact absurd (hall (.a, [1]) (by decide)) (by decide +kernel)

end Yggdrasil.Session
