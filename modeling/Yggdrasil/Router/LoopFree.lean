import Yggdrasil.Base.Run
import Yggdrasil.Router.Effects

/-!
# Loop freedom

Whatever the routers know of each other, a message is sent on with a strictly smaller watermark than it arrived with:
the sender's own distance, which the lookup found to be below it. Nothing is assumed of the routers' states.
-/

namespace Yggdrasil.Router
open List

inductive Kind where
  | traffic
  | notify
  | broken
deriving DecidableEq

namespace Message

def kind : Message → Kind
  | traffic _ => .traffic
  | notify _ => .notify
  | broken _ => .broken

@[simp] theorem watermark_withWatermark (w : UInt64) (m : Message) : (m.withWatermark w).watermark = w := by
  cases m <;> rfl

@[simp] theorem kind_withWatermark (w : UInt64) (m : Message) : (m.withWatermark w).kind = m.kind := by
  cases m <;> rfl

end Message

def sentMessage : RouterAction → Option Message
  | .sendTraffic _ t => some (.traffic t)
  | .sendPathNotify _ n => some (.notify n)
  | .sendPathBroken _ b => some (.broken b)
  | _ => none

theorem sentMessage_send (id : PeerId) (m : Message) : sentMessage (m.send id) = some m := by
  cases m <;> rfl

theorem Local.sentMessage {self : Router} {a : RouterAction} (h : Local self a) : sentMessage a = none := by
  cases h <;> rfl

def Outcome.messages (o : Outcome) : List Message := o.actions.filterMap sentMessage

/-- `route_traffic`, `handle_notify` or `handle_broken`, by the kind of the message. -/
def handle (env : Env) (clk : Clock) (self : Router) : Message → Outcome
  | .traffic t => handleTraffic env clk self t
  | .notify n => handleNotify env clk self n
  | .broken b => handleBroken env clk self b

/-- The same message with a smaller watermark. -/
def Lowers (m m' : Message) : Prop := m' = m.withWatermark m'.watermark ∧ m'.watermark < m.watermark

theorem Sends.lowers {self : Router} {m m' : Message} {a : RouterAction} (h : Sends self m a)
    (hm : sentMessage a = some m') : Lowers m m' := by
  obtain ⟨id, hid, rfl⟩ := h
  obtain ⟨hw, hlt⟩ := lookup_watermark hid
  rw [sentMessage_send, Option.some.injEq] at hm
  subst hm
  rw [Lowers, Message.watermark_withWatermark, hw]
  exact ⟨rfl, hlt⟩

/-- A message of the node's own: with the largest watermark, or a packet that waited, with new coordinates. -/
def Originates (self : Router) (o : Message) : Prop :=
  o.watermark = u64Max ∨
    ∃ c ∈ self.pathfinder.waiting, ∃ path fromPath, o = .traffic { c with path := path, fromPath := fromPath }

variable (env : Env) (clk : Clock) (self : Router)

theorem routeTraffic_messages (tr : TrafficPacket) {m' : Message} (h : m' ∈ (routeTraffic env clk self tr).messages) :
    Lowers (.traffic tr) m' ∨ m'.kind = .broken ∧ ∃ o, o.watermark = u64Max ∧ Lowers o m' := by
  obtain ⟨a, ha, hm⟩ := mem_filterMap.mp h
  rw [routeTraffic_eq] at ha
  rcases (routeTrafficBody_does env clk (routeTraffic_homing env clk _) tr).actions a ha with
    hsends | ⟨-, ⟨-, rfl⟩ | ⟨r, -, hsends⟩ | hlocal⟩
  · exact .inl (hsends.lowers hm)
  · exact absurd hm (by simp [sentMessage])
  · have hlow := hsends.lowers hm
    refine .inr ⟨?_, _, rfl, hlow⟩
    rw [hlow.1, Message.kind_withWatermark]
    rfl
  · exact absurd (hlocal.sentMessage.symm.trans hm) (by simp)

theorem handleBroken_messages (b : PathBroken) {m' : Message} (h : m' ∈ (handleBroken env clk self b).messages) :
    Lowers (.broken b) m' := by
  obtain ⟨a, ha, hm⟩ := mem_filterMap.mp h
  rcases (handleBrokenInternal_does env clk (routeTraffic_homing env clk _) b).actions a ha with hsends | hlocal
  · exact hsends.lowers hm
  · exact absurd (hlocal.sentMessage.symm.trans hm) (by simp)

theorem handleNotify_messages (n : PathNotify) {m' : Message} (h : m' ∈ (handleNotify env clk self n).messages) :
    Lowers (.notify n) m' ∨ m'.kind ≠ .notify ∧ ∃ o, Originates self o ∧ Lowers o m' := by
  obtain ⟨a, ha, hm⟩ := mem_filterMap.mp h
  have hdoes : Does self _ (handleNotify env clk self n) := handleNotifyInternal_does env clk n
    (fun a => ∀ m, sentMessage a = some m → m.kind ≠ .notify ∧ ∃ o, Originates self o ∧ Lowers o m) <| by
      intro r c _ hmem _ _
      refine ⟨(routeTraffic_keeps env clk r _), fun a ha m hm => ?_⟩
      rcases routeTraffic_messages env clk r _ (mem_filterMap.mpr ⟨a, ha, hm⟩) with hlow | ⟨hkind, o, ho, hlow⟩
      · refine ⟨?_, _, .inr ⟨c, hmem, _, _, rfl⟩, hlow⟩
        rw [hlow.1, Message.kind_withWatermark]
        exact Kind.noConfusion
      · exact ⟨hkind ▸ Kind.noConfusion, o, .inl ho, hlow⟩
  rcases hdoes.actions a ha with hsends | hreleased | ⟨rfl, -⟩
  · exact .inl (hsends.lowers hm)
  · exact .inr (hreleased m' hm)
  · exact absurd hm (by simp [sentMessage])

/-- What one call sends has a smaller watermark. -/
theorem handle_messages (m : Message) {m' : Message} (h : m' ∈ (handle env clk self m).messages) :
    Lowers m m' ∨ m'.kind ≠ m.kind ∧ ∃ o, Originates self o ∧ Lowers o m' := by
  cases m with
  | traffic t =>
    rcases routeTraffic_messages env clk self t h with hlow | ⟨hkind, o, ho, hlow⟩
    · exact .inl hlow
    · exact .inr ⟨hkind ▸ Kind.noConfusion, o, .inl ho, hlow⟩
  | notify n => exact handleNotify_messages env clk self n h
  | broken b => exact .inl (handleBroken_messages env clk self b h)

def Forwards (m : Message) (node : Env × Clock × Router) (m' : Message) : Prop :=
  m' ∈ (handle node.1 node.2.1 node.2.2 m).messages ∧ m'.kind = m.kind

theorem Forwards.lowers {m m' : Message} {node : Env × Clock × Router} (h : Forwards m node m') : Lowers m m' := by
  rcases handle_messages _ _ _ m h.1 with hlow | ⟨hkind, -⟩
  · exact hlow
  · exact absurd h.2 hkind

theorem sendTraffic_direct {tr : TrafficPacket} {id : PeerId} (hpayload : tr.payload ≠ [])
    (hpeer : self.bestPeerForKey tr.dest = some id) :
    ∃ t, (sendTraffic env clk self tr).actions = [.sendTraffic id t] ∧ t.watermark = 0 := by
  have hempty : tr.payload.isEmpty = false := by simpa using hpayload
  simp only [sendTraffic, hempty, hpeer]
  exact ⟨_, rfl, rfl⟩

/-- In all states: a message that is sent on has a strictly smaller watermark, and so has one of another kind that the
node brings up instead. So it is sent on at most `w + 1` times, by whatever routers; and the receiver of the
direct-peer shortcut does not send on. -/
theorem forwarding_loop_free : (∀ env clk self m, ∀ m' ∈ (handle env clk self m).messages,
      Lowers m m' ∨ m'.kind ≠ m.kind ∧ ∃ o, Originates self o ∧ Lowers o m') ∧
    (∀ m routers m', Lts.Run Forwards m routers m' → routers.length ≤ m.watermark.toNat + 1) ∧
    ∀ env clk self (tr : TrafficPacket) id, tr.payload ≠ [] → self.bestPeerForKey tr.dest = some id →
      ∃ t, (sendTraffic env clk self tr).actions = [.sendTraffic id t] ∧ t.watermark = 0 ∧
        ∀ receiver m', ¬ Forwards (.traffic t) receiver m' := by
  refine ⟨fun env clk self m m' => handle_messages env clk self m, ?_, ?_⟩
  · intro m routers m' hrun
    have hlen := hrun.length_le (μ := fun m => m.watermark.toNat) fun m r m' h => UInt64.lt_iff_toNat_lt.mp h.lowers.2
    omega
  intro env clk self tr id hpayload hpeer
  obtain ⟨t, hactions, hzero⟩ := sendTraffic_direct env clk self hpayload hpeer
  refine ⟨t, hactions, hzero, fun receiver m' h => ?_⟩
  have hlt : m'.watermark < t.watermark := h.lowers.2
  rw [hzero] at hlt
  exact UInt64.not_lt_zero hlt

-- the root 1 sends a packet on to its child 2, with its own distance as the watermark
example :
    (handle ⟨fun _ _ _ => true, fun _ => 0⟩ ⟨0, 0⟩
      { new ⟨1, fun _ => 0⟩ ⟨0, 0, none⟩ with
        infos := ((∅ : HashMap PublicKey RouterInfo).insert 1 ⟨1, 1, 1, 0, 0, 0⟩).insert 2 ⟨1, 1, 1, 5, 0, 0⟩
        peers := (∅ : HashMap PublicKey (HashMap PeerId PeerEntry)).insert 2
          ((∅ : HashMap PeerId PeerEntry).insert 7 ⟨7, 2, 5, 0, 0⟩) }
      (.traffic { TrafficPacket.new 3 2 [0] with path := [5] })).messages =
      [.traffic { TrafficPacket.new 3 2 [0] with path := [5], watermark := 1 }] := by decide +kernel

end Yggdrasil.Router
