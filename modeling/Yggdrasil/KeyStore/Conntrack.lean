import Yggdrasil.Base.Run
import Yggdrasil.KeyStore.Firewall

/-!
# The firewall over whole histories

`Firewall::check_inbound` takes the lock of the table twice, in `matchFlow` and in `checkPorts`, and other calls may run
between them.
-/

namespace Yggdrasil

structure FirewallConfig where
  enable : Bool
  openTcp : List UInt16
  openUdp : List UInt16
  openAllFor : List String
  allowIcmpEcho : Bool

/-- Protocol, source and destination; the identifier of an echo takes the place of both ports. -/
structure FlowTuple where
  proto : UInt8
  srcIp : Address
  srcPort : UInt16
  dstIp : Address
  dstPort : UInt16
deriving DecidableEq

def FlowTuple.reverse (t : FlowTuple) : FlowTuple :=
  { proto := t.proto, srcIp := t.dstIp, srcPort := t.dstPort, dstIp := t.srcIp, dstPort := t.srcPort }

def Parsed.tuple (p : Parsed) : FlowTuple :=
  { proto := p.proto, srcIp := p.srcIp, srcPort := p.srcPort, dstIp := p.dstIp, dstPort := p.dstPort }

def FlowKey.tuple (key : FlowKey) : FlowTuple :=
  { proto := key.proto, srcIp := key.ourIp, srcPort := key.ourPort, dstIp := key.peerIp, dstPort := key.peerPort }

namespace Firewall

/-- One entry of `open_all_for`; `fromStr` is `IpNet::from_str`. -/
def openAllForEntry (fromStr : String → Except String IpNet) (s : String) : Except String Ipv6Net :=
  match fromStr s with
  | .error e => .error ("firewall: invalid open_all_for entry '" ++ s ++ "': " ++ e)
  | .ok (.v6 net) => .ok net
  | .ok (.v4 _) => .error ("firewall: open_all_for entry '" ++ s ++ "' is IPv4, only IPv6 is supported")

def new (fromStr : String → Except String IpNet) (cfg : FirewallConfig) : Except String Firewall := do
  let subnets ← cfg.openAllFor.mapM (openAllForEntry fromStr)
  return { enable := cfg.enable, openTcp := cfg.openTcp, openUdp := cfg.openUdp, openAllFor := subnets
           allowIcmpEcho := cfg.allowIcmpEcho, table := ∅ }

/-- The outbound key of a flow, from one of its inbound packets. -/
def inboundKey (p : Parsed) : FlowKey :=
  { proto := p.proto, ourIp := p.dstIp, ourPort := p.dstPort, peerIp := p.srcIp, peerPort := p.srcPort }

variable (self : Firewall)

/-- The bypass, the ICMPv6 rules and the connection table. No answer: the whitelist of ports decides. -/
def matchFlow (pkt : Bytes) (now : Instant) : Option (Option Bool × Firewall) := do
  match ← parse pkt with
  | none => return (some false, self)
  | some p =>
    if self.openAllFor.any fun net => net.contains p.srcIp then return (some true, self)
    else if p.proto = PROTO_ICMPV6 ∧ (1 ≤ p.icmpType ∧ p.icmpType ≤ 4) then return (some true, self)
    else if p.proto = PROTO_ICMPV6 ∧ p.icmpType = ICMP_ECHO_REQUEST ∧ self.allowIcmpEcho then return (some true, self)
    else
      match self.table.lookup (inboundKey p) with
      | some entry => return (some true, { self with table := self.table.insert (inboundKey p) (entry.touch p now) })
      | none => return (none, self)

/-- The whitelist of ports. -/
def checkPorts (pkt : Bytes) (now : Instant) : Option (Bool × Firewall) := do
  match ← parse pkt with
  | none => return (false, self)
  | some p =>
    if self.opensFlow p then
      let tcpState := if p.proto = PROTO_TCP then some TcpState.synSent else none
      return (true, { self with table := self.table.insert (inboundKey p) { lastSeen := now, tcpState } })
    else return (false, self)

theorem checkInbound_eq (pkt : Bytes) (now : Instant) : self.checkInbound pkt now =
      (self.matchFlow pkt now).bind fun r => r.1.elim (r.2.checkPorts pkt now) fun accepted =>
        some (accepted, r.2) := by
  obtain ⟨parsed, hparsed⟩ := exists_parse pkt
  unfold checkInbound matchFlow checkPorts
  rw [hparsed]
  cases parsed with
  | none => rfl
  | some p =>
    dsimp only [Option.bind_eq_bind, Option.bind_some]
    split
    · rfl
    split
    · rfl
    split
    · rfl
    unfold inboundKey
    cases self.table.lookup
        { proto := p.proto, ourIp := p.dstIp, ourPort := p.dstPort, peerIp := p.srcIp, peerPort := p.srcPort } with
    | some entry => rfl
    | none => rfl

/-- Packets that are accepted whatever the table holds. -/
def Exempt (p : Parsed) : Prop :=
  (∃ net ∈ self.openAllFor, net.contains p.srcIp = true) ∨ p.proto = PROTO_ICMPV6 ∧
      (1 ≤ p.icmpType ∧ p.icmpType ≤ 4 ∨ p.icmpType = ICMP_ECHO_REQUEST ∧ self.allowIcmpEcho = true)

variable {self fw : Firewall} {pkt : Bytes} {now : Instant}

theorem matchFlow_cases {result : Option Bool} (h : self.matchFlow pkt now = some (result, fw)) :
    (result ≠ some true ∧ fw = self) ∨ ∃ p, parse pkt = some (some p) ∧
      (fw = self ∧ self.Exempt p ∨ ∃ entry, result = some true ∧ self.table.lookup (inboundKey p) = some entry ∧
        fw = { self with table := self.table.insert (inboundKey p) (entry.touch p now) }) := by
  obtain ⟨parsed, hparsed⟩ := exists_parse pkt
  unfold matchFlow at h
  rw [hparsed] at h
  cases parsed with
  | none =>
    cases h
    exact .inl ⟨by simp, rfl⟩
  | some p =>
    dsimp only [Option.bind_eq_bind, Option.bind_some] at h
    split at h
    next hnet =>
      cases h
      exact .inr ⟨p, hparsed, .inl ⟨rfl, .inl (List.any_eq_true.mp hnet)⟩⟩
    split at h
    next herror =>
      cases h
      exact .inr ⟨p, hparsed, .inl ⟨rfl, .inr ⟨herror.1, .inl herror.2⟩⟩⟩
    split at h
    next hecho =>
      cases h
      exact .inr ⟨p, hparsed, .inl ⟨rfl, .inr ⟨hecho.1, .inr hecho.2⟩⟩⟩
    split at h
    next entry hentry =>
      cases h
      exact .inr ⟨p, hparsed, .inr ⟨entry, rfl, hentry, rfl⟩⟩
    cases h
    exact .inl ⟨by simp, rfl⟩

theorem checkPorts_cases {result : Bool} (h : self.checkPorts pkt now = some (result, fw)) :
    (result = false ∧ fw = self) ∨ result = true ∧ ∃ p, parse pkt = some (some p) ∧ self.opensFlow p = true ∧
      ∃ entry, entry.lastSeen = now ∧ fw = { self with table := self.table.insert (inboundKey p) entry } := by
  obtain ⟨parsed, hparsed⟩ := exists_parse pkt
  unfold checkPorts at h
  rw [hparsed] at h
  cases parsed with
  | none =>
    cases h
    exact .inl ⟨rfl, rfl⟩
  | some p =>
    dsimp only [Option.bind_eq_bind, Option.bind_some] at h
    split at h
    next hopens =>
      cases h
      exact .inr ⟨rfl, p, hparsed, hopens, _, rfl, rfl⟩
    cases h
    exact .inl ⟨rfl, rfl⟩

theorem observeOutbound_cases (h : self.observeOutbound pkt now = some fw) :
    fw = self ∨ ∃ p key entry, parse pkt = some (some p) ∧ FlowKey.tuple key = p.tuple ∧ entry.lastSeen = now ∧
      fw = { self with table := self.table.insert key entry } := by
  obtain ⟨parsed, hparsed⟩ := exists_parse pkt
  unfold observeOutbound at h
  rw [hparsed] at h
  cases parsed with
  | none =>
    cases h
    exact .inl rfl
  | some p =>
    dsimp only [Option.bind_eq_bind, Option.bind_some] at h
    split at h
    · cases h
      exact .inl rfl
    cases h
    exact .inr ⟨p, _, _, hparsed, rfl, rfl, rfl⟩

end Firewall

/-! ## Histories -/

/-- A firewall, and the packets of the calls of `check_inbound` that have found no flow for them. -/
structure Conntrack where
  firewall : Firewall
  waiting : List Bytes

namespace Conntrack

/-- A section of a call, with what the call returns if it is its last one. -/
inductive Event
  | observeOutbound (pkt : Bytes) (now : Instant)
  | matchFlow (pkt : Bytes) (now : Instant) (result : Option Bool)
  | checkPorts (pkt : Bytes) (now : Instant) (result : Bool)
  | gc (now : Instant)

def Event.Accepts (pkt : Bytes) (e : Event) : Prop :=
  ∃ now, e = .matchFlow pkt now (some true) ∨ e = .checkPorts pkt now true

/-- One section of one call. -/
inductive Step : Conntrack → Event → Conntrack → Prop
  | observeOutbound {s : Conntrack} {pkt : Bytes} {now : Instant} {fw : Firewall} :
      s.firewall.observeOutbound pkt now = some fw → Step s (.observeOutbound pkt now) { s with firewall := fw }
  | matchFlow {s : Conntrack} {pkt : Bytes} {now : Instant} {result : Option Bool} {fw : Firewall} :
      s.firewall.matchFlow pkt now = some (result, fw) → Step s (.matchFlow pkt now result)
          { firewall := fw, waiting := if result.isNone then pkt :: s.waiting else s.waiting }
  | checkPorts {s : Conntrack} {pkt : Bytes} {now : Instant} {result : Bool} {fw : Firewall} :
      pkt ∈ s.waiting → s.firewall.checkPorts pkt now = some (result, fw) →
        Step s (.checkPorts pkt now result) { firewall := fw, waiting := s.waiting.erase pkt }
  | gc {s : Conntrack} {now : Instant} : Step s (.gc now) { s with firewall := s.firewall.gc now }

/-- What may have put the flow into the table. -/
def Origin (history : List Event) (key : FlowKey) : Prop :=
  (∃ pkt now p, .observeOutbound pkt now ∈ history ∧ parse pkt = some (some p) ∧ p.tuple = key.tuple) ∨
    ∃ pkt now p, .checkPorts pkt now true ∈ history ∧ parse pkt = some (some p) ∧ p.tuple.reverse = key.tuple

variable {history : List Event}

theorem Origin.mono {later : List Event} {key : FlowKey} (h : Origin history key) :
    Origin (history ++ later) key := by
  rcases h with ⟨pkt, now, p, hmem, hp⟩ | ⟨pkt, now, p, hmem, hp⟩
  · exact .inl ⟨pkt, now, p, List.mem_append_left _ hmem, hp⟩
  · exact .inr ⟨pkt, now, p, List.mem_append_left _ hmem, hp⟩

/-- Every flow of the table has an origin. -/
structure Tracked (fw : Firewall) (history : List Event) (s : Conntrack) : Prop where
  config : s.firewall = { fw with table := s.firewall.table }
  flows : ∀ key entry, s.firewall.table.lookup key = some entry → Origin history key

theorem Tracked.step {fw : Firewall} {s s' : Conntrack} {e : Event} (h : Tracked fw history s)
    (hstep : Step s e s') : Tracked fw (history ++ [e]) s' := by
  have hflows : ∀ key entry, s.firewall.table.lookup key = some entry → Origin (history ++ [e]) key :=
    fun key entry hkey => (h.flows key entry hkey).mono
  have hlast : e ∈ history ++ [e] := List.mem_append_right _ (List.mem_singleton_self e)
  cases hstep with
  | @observeOutbound pkt now _ hexec =>
    rcases Firewall.observeOutbound_cases hexec with rfl | ⟨p, key, entry, hparse, htuple, -, rfl⟩
    · exact ⟨h.config, hflows⟩
    refine ⟨by rw [h.config], HashMap.forall_insert hflows ?_⟩
    exact .inl ⟨pkt, now, p, hlast, hparse, htuple.symm⟩
  | matchFlow hexec =>
    rcases Firewall.matchFlow_cases hexec with ⟨-, rfl⟩ | ⟨p, hparse, ⟨rfl, -⟩ | ⟨entry, -, hentry, rfl⟩⟩
    · exact ⟨h.config, hflows⟩
    · exact ⟨h.config, hflows⟩
    · exact ⟨by rw [h.config], HashMap.forall_insert hflows (hflows _ entry hentry)⟩
  | @checkPorts pkt now _ _ _ hexec =>
    rcases Firewall.checkPorts_cases hexec with ⟨-, rfl⟩ | ⟨rfl, p, hparse, -, entry, -, rfl⟩
    · exact ⟨h.config, hflows⟩
    refine ⟨by rw [h.config], HashMap.forall_insert hflows ?_⟩
    exact .inr ⟨pkt, now, p, hlast, hparse, rfl⟩
  | gc => exact ⟨by rw [h.config]; rfl, HashMap.forall_retain hflows _⟩

theorem Tracked.run {fw : Firewall} (hfw : fw.table = ∅) {s : Conntrack}
    (hrun : Lts.Run Step ⟨fw, []⟩ history s) : Tracked fw history s := by
  induction hrun with
  | nil =>
    refine ⟨rfl, fun key entry hkey => ?_⟩
    rw [hfw] at hkey
    cases hkey
  | snoc _ hstep ih => exact ih.step hstep

end Conntrack

theorem Firewall.opensFlow_iff {self : Firewall} {p : Parsed} : self.opensFlow p = true ↔
    (p.proto = PROTO_TCP ∧ p.tcpFlags &&& TCP_FLAG_SYN ≠ 0 ∧ p.tcpFlags &&& TCP_FLAG_ACK = 0 ∧
        p.dstPort ∈ self.openTcp) ∨
      (p.proto = PROTO_UDP ∧ p.dstPort ∈ self.openUdp) := by
  have hne : PROTO_TCP ≠ PROTO_UDP := by decide
  unfold opensFlow
  split
  next htcp => simp [htcp, hne, and_assoc]
  next htcp =>
    split
    next hudp => simp [hudp, hne.symm]
    next hudp => simp [htcp, hudp]

theorem Firewall.new_eq_ok {fromStr : String → Except String IpNet} {cfg : FirewallConfig} {fw : Firewall}
    (h : new fromStr cfg = .ok fw) :
    fw = { enable := cfg.enable, openTcp := cfg.openTcp, openUdp := cfg.openUdp, openAllFor := fw.openAllFor
           allowIcmpEcho := cfg.allowIcmpEcho, table := ∅ } ∧
      ∀ net ∈ fw.openAllFor, ∃ entry ∈ cfg.openAllFor, fromStr entry = .ok (.v6 net) := by
  unfold new at h
  cases hsubnets : cfg.openAllFor.mapM (openAllForEntry fromStr) with
  | error e =>
    rw [hsubnets] at h
    cases h
  | ok subnets =>
    rw [hsubnets] at h
    cases h
    refine ⟨rfl, fun net hnet => ?_⟩
    obtain ⟨entry, hentry, hok⟩ := (List.mem_of_mapM_eq_ok hsubnets).2 net hnet
    refine ⟨entry, hentry, ?_⟩
    unfold openAllForEntry at hok
    split at hok
    · cases hok
    next heq =>
      rw [heq]
      cases hok
      rfl
    · cases hok

/-- The configuration admits the packet, or it belongs to a flow that one of our own packets or an open port began. -/
def Justified (fromStr : String → Except String IpNet) (cfg : FirewallConfig) (history : List Conntrack.Event)
    (p : Parsed) : Prop :=
  (∃ entry ∈ cfg.openAllFor, ∃ net, fromStr entry = .ok (.v6 net) ∧ net.contains p.srcIp = true) ∨
    (p.proto = PROTO_ICMPV6 ∧
      (1 ≤ p.icmpType ∧ p.icmpType ≤ 4 ∨ p.icmpType = ICMP_ECHO_REQUEST ∧ cfg.allowIcmpEcho = true)) ∨
    (p.proto = PROTO_TCP ∧ p.tcpFlags &&& TCP_FLAG_SYN ≠ 0 ∧ p.tcpFlags &&& TCP_FLAG_ACK = 0 ∧
      p.dstPort ∈ cfg.openTcp) ∨
    (p.proto = PROTO_UDP ∧ p.dstPort ∈ cfg.openUdp) ∨
    (∃ pkt' now' p', .observeOutbound pkt' now' ∈ history ∧ parse pkt' = some (some p') ∧ p'.tuple = p.tuple.reverse) ∨
    (∃ pkt' now' p', .checkPorts pkt' now' true ∈ history ∧ parse pkt' = some (some p') ∧ p'.tuple = p.tuple)

/-- Firewall soundness: a packet that `check_inbound` accepts, after any history of calls, is of one of the three
protocols and justified. -/
theorem firewall_soundness (fromStr : String → Except String IpNet) (cfg : FirewallConfig) (fw : Firewall)
    (hnew : Firewall.new fromStr cfg = .ok fw) (history : List Conntrack.Event) (s s' : Conntrack)
    (hrun : Lts.Run Conntrack.Step ⟨fw, []⟩ history s) (e : Conntrack.Event) (hstep : Conntrack.Step s e s')
    (pkt : Bytes) (haccepts : e.Accepts pkt) :
    ∃ p, parse pkt = some (some p) ∧ (p.proto = PROTO_TCP ∨ p.proto = PROTO_UDP ∨ p.proto = PROTO_ICMPV6) ∧
      Justified fromStr cfg history p := by
  obtain ⟨hcfg, hsubnets⟩ := Firewall.new_eq_ok hnew
  have htracked := Conntrack.Tracked.run (by rw [hcfg]) hrun
  have hprotos : ∀ {p : Parsed}, parse pkt = some (some p) →
      p.proto = PROTO_TCP ∨ p.proto = PROTO_UDP ∨ p.proto = PROTO_ICMPV6 := by
    intro p hparse
    have := isTracked_of_parse hparse
    unfold isTracked at this
    simpa [or_assoc] using this
  obtain ⟨now, rfl | rfl⟩ := haccepts
  · cases hstep with
    | matchFlow hexec =>
      rcases Firewall.matchFlow_cases hexec with ⟨habsurd, -⟩ | ⟨p, hparse, ⟨-, hexempt⟩ | ⟨entry, -, hentry, -⟩⟩
      · exact absurd rfl habsurd
      · refine ⟨p, hparse, hprotos hparse, ?_⟩
        rw [htracked.config, hcfg] at hexempt
        rcases hexempt with ⟨net, hnet, hcontains⟩ | hicmp
        · obtain ⟨entry, hentry, hok⟩ := hsubnets net hnet
          exact .inl ⟨entry, hentry, net, hok, hcontains⟩
        · exact .inr (.inl hicmp)
      refine ⟨p, hparse, hprotos hparse, .inr (.inr (.inr (.inr ?_)))⟩
      rcases htracked.flows _ entry hentry with hsent | ⟨pkt', now', p', hmem, hparse', htuple⟩
      · exact .inl hsent
      · exact .inr ⟨pkt', now', p', hmem, hparse', congrArg FlowTuple.reverse htuple⟩
  cases hstep with
  | checkPorts _ hexec =>
    rcases Firewall.checkPorts_cases hexec with ⟨habsurd, -⟩ | ⟨-, p, hparse, hopens, -⟩
    · cases habsurd
    refine ⟨p, hparse, hprotos hparse, ?_⟩
    rw [htracked.config, hcfg, Firewall.opensFlow_iff] at hopens
    rcases hopens with htcp | hudp
    · exact .inr (.inr (.inl htcp))
    · exact .inr (.inr (.inr (.inl hudp)))

def tcpSegment (src srcPort dst dstPort flags : UInt8) : Bytes :=
  [0x60, 0, 0, 0, 0, 14, 6, 64] ++ List.replicate 15 0 ++ [src] ++ List.replicate 15 0 ++ [dst] ++
    [0, srcPort, 0, dstPort] ++ List.replicate 9 0 ++ [flags]

def closedConfig : FirewallConfig :=
  { enable := true, openTcp := [], openUdp := [], openAllFor := [], allowIcmpEcho := false }

theorem firewall_soundness_answer : ∃ fw s s', Firewall.new (fun _ => .error "") closedConfig = .ok fw ∧
    Lts.Run Conntrack.Step ⟨fw, []⟩ [.observeOutbound (tcpSegment 1 100 2 80 TCP_FLAG_SYN) 0] s ∧
    Conntrack.Step s (.matchFlow (tcpSegment 2 80 1 100 (TCP_FLAG_SYN ||| TCP_FLAG_ACK)) 1 (some true)) s' ∧
    ∃ p, parse (tcpSegment 2 80 1 100 (TCP_FLAG_SYN ||| TCP_FLAG_ACK)) = some (some p) ∧
      (p.proto = PROTO_TCP ∨ p.proto = PROTO_UDP ∨ p.proto = PROTO_ICMPV6) ∧
      Justified (fun _ => .error "") closedConfig [.observeOutbound (tcpSegment 1 100 2 80 TCP_FLAG_SYN) 0] p := by
  obtain ⟨fw, hfw, sent, hsent, answered, hanswered⟩ : ∃ fw, Firewall.new (fun _ => .error "") closedConfig = .ok fw ∧
      ∃ sent, fw.observeOutbound (tcpSegment 1 100 2 80 TCP_FLAG_SYN) 0 = some sent ∧
      ∃ answered, sent.matchFlow (tcpSegment 2 80 1 100 (TCP_FLAG_SYN ||| TCP_FLAG_ACK)) 1 =
        some (some true, answered) := ⟨_, rfl, _, rfl, _, rfl⟩
  have hrun : Lts.Run Conntrack.Step ⟨fw, []⟩ [.observeOutbound (tcpSegment 1 100 2 80 TCP_FLAG_SYN) 0] ⟨sent, []⟩ :=
    Lts.Run.single (Conntrack.Step.observeOutbound hsent)
  have hstep := @Conntrack.Step.matchFlow ⟨sent, []⟩ _ _ _ _ hanswered
  exact ⟨fw, _, _, hfw, hrun, hstep, firewall_soundness _ closedConfig fw hfw _ _ _ hrun _ hstep _ ⟨1, .inl rfl⟩⟩

end Yggdrasil
