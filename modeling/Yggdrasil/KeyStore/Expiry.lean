import Yggdrasil.KeyStore.Conntrack

/-!
# How long an idle flow stays open

`check_inbound` does not look at the age of an entry; the collector does, every `GC_INTERVAL`. An entry can be as much
older than the timeout of its state.
-/

namespace Yggdrasil
open Duration (fromSecs)
open Firewall (inboundKey)
open HashMap (forall_insert forall_retain lookup_retain)

def GC_INTERVAL : Duration := fromSecs 30

theorem FlowEntry.timeout_pos (entry : FlowEntry) (proto : UInt8) : 0 < entry.timeout proto := by
  unfold timeout
  repeat' split
  all_goals decide

namespace Conntrack

def Event.now : Event → Instant
  | .observeOutbound _ now | .matchFlow _ now _ | .checkPorts _ now _ | .gc now => now

/-- A packet of the flow is sent, or received and accepted. -/
def Event.Carries (key : FlowKey) (e : Event) : Prop :=
  ∃ pkt p, parse pkt = some (some p) ∧
    ((∃ now, e = .observeOutbound pkt now) ∧ key.tuple = p.tuple ∨ e.Accepts pkt ∧ key = inboundKey p)

/-- The table, the time when the collector last ran, and the time of the last section. -/
structure Timed where
  conntrack : Conntrack
  lastGc : Instant
  clock : Instant

/-- A section runs while the collector is not overdue, under a clock that does not go back. -/
inductive Timed.Step : Timed → Event → Timed → Prop
  | exec {s : Timed} {e : Event} {c : Conntrack} : s.clock ≤ e.now → e.now ≤ s.lastGc + GC_INTERVAL →
      Conntrack.Step s.conntrack e c → Step s e ⟨c, match e with | .gc now => now | _ => s.lastGc, e.now⟩

/-- Every entry is from a packet of its flow, and was young enough when the collector last ran. -/
structure Fresh (history : List Event) (s : Timed) : Prop where
  clock : s.lastGc ≤ s.clock
  flows : ∀ key entry, s.conntrack.firewall.table.lookup key = some entry →
    elapsed s.lastGc entry.lastSeen < entry.timeout key.proto ∧ ∃ e ∈ history, e.Carries key ∧ e.now = entry.lastSeen

variable {history : List Event} {s s' : Timed} {e : Event}

theorem Fresh.step (h : Fresh history s) (hstep : Timed.Step s e s') : Fresh (history ++ [e]) s' := by
  obtain ⟨hclock, hdue, hexec⟩ := hstep
  have hgc : s.lastGc ≤ e.now := Nat.le_trans h.clock hclock
  have hold : ∀ key entry, s.conntrack.firewall.table.lookup key = some entry →
      elapsed s.lastGc entry.lastSeen < entry.timeout key.proto ∧
        ∃ e' ∈ history ++ [e], e'.Carries key ∧ e'.now = entry.lastSeen := by
    intro key entry hkey
    obtain ⟨hyoung, e', he', hcarries⟩ := h.flows key entry hkey
    exact ⟨hyoung, e', List.mem_append_left _ he', hcarries⟩
  have hnew : ∀ (key : FlowKey) (entry : FlowEntry), entry.lastSeen = e.now → e.Carries key →
      elapsed s.lastGc entry.lastSeen < entry.timeout key.proto ∧
        ∃ e' ∈ history ++ [e], e'.Carries key ∧ e'.now = entry.lastSeen := by
    intro key entry hseen hcarries
    refine ⟨?_, e, by simp, hcarries, hseen.symm⟩
    have hzero : elapsed s.lastGc e.now = 0 := Nat.sub_eq_zero_of_le hgc
    rw [hseen, hzero]
    exact entry.timeout_pos _
  cases hexec with
  | @observeOutbound pkt now _ hexec =>
    refine ⟨hgc, ?_⟩
    rcases Firewall.observeOutbound_cases hexec with rfl | ⟨p, key, entry, hparse, htuple, hseen, rfl⟩
    · exact hold
    · exact forall_insert hold (hnew key entry hseen ⟨pkt, p, hparse, .inl ⟨⟨now, rfl⟩, htuple⟩⟩)
  | @matchFlow pkt now result _ hexec =>
    refine ⟨hgc, ?_⟩
    rcases Firewall.matchFlow_cases hexec with ⟨-, rfl⟩ | ⟨p, hparse, ⟨rfl, -⟩ | ⟨entry, rfl, hentry, rfl⟩⟩
    · exact hold
    · exact hold
    · exact forall_insert hold (hnew _ _ rfl ⟨pkt, p, hparse, .inr ⟨⟨now, .inl rfl⟩, rfl⟩⟩)
  | @checkPorts pkt now _ _ _ hexec =>
    refine ⟨hgc, ?_⟩
    rcases Firewall.checkPorts_cases hexec with ⟨-, rfl⟩ | ⟨rfl, p, hparse, -, entry, hseen, rfl⟩
    · exact hold
    · exact forall_insert hold (hnew _ entry hseen ⟨pkt, p, hparse, .inr ⟨⟨now, .inr rfl⟩, rfl⟩⟩)
  | @gc now =>
    refine ⟨Nat.le_refl _, fun key entry hkey => ?_⟩
    have hkept := (Option.filter_eq_some_iff.mp ((lookup_retain ..).symm.trans hkey))
    exact ⟨by simpa using hkept.2, (hold key entry hkept.1).2⟩

theorem Fresh.run {fw : Firewall} (hfw : fw.table = ∅) {start : Instant}
    (hrun : Lts.Run Timed.Step ⟨⟨fw, []⟩, start, start⟩ history s) : Fresh history s := by
  induction hrun with
  | nil =>
    refine ⟨Nat.le_refl _, fun key entry hkey => ?_⟩
    rw [hfw] at hkey
    cases hkey
  | snoc _ hstep ih => exact ih.step hstep

/-- A packet is accepted for a flow of the table less than the timeout of its state and `GC_INTERVAL` after an earlier
one of the flow. -/
theorem idle_flow_closes {fw : Firewall} (hfw : fw.table = ∅) {start now : Instant}
    (hrun : Lts.Run Timed.Step ⟨⟨fw, []⟩, start, start⟩ history s) {pkt : Bytes} {p : Parsed}
    (hstep : Timed.Step s (.matchFlow pkt now (some true)) s') (hparse : parse pkt = some (some p))
    (hexempt : ¬ s.conntrack.firewall.Exempt p) :
    ∃ entry, s.conntrack.firewall.table.lookup (inboundKey p) = some entry ∧
      ∃ e ∈ history, e.Carries (inboundKey p) ∧ elapsed now e.now < entry.timeout p.proto + GC_INTERVAL := by
  obtain ⟨-, hdue, hexec⟩ := hstep
  cases hexec with
  | matchFlow hexec =>
    rcases Firewall.matchFlow_cases hexec with ⟨habsurd, -⟩ | ⟨q, hparse', hq⟩
    · exact absurd rfl habsurd
    obtain rfl : q = p := Option.some.inj (Option.some.inj (hparse'.symm.trans hparse))
    rcases hq with ⟨-, h⟩ | ⟨entry, -, hentry, -⟩
    · exact absurd h hexempt
    obtain ⟨hyoung, e, he, hcarries, hseen⟩ := (Fresh.run hfw hrun).flows _ entry hentry
    refine ⟨entry, hentry, e, he, hcarries, ?_⟩
    have hsum : ∀ {now gc seen timeout interval : Nat}, now ≤ gc + interval → gc - seen < timeout →
        now - seen < timeout + interval := by omega
    rw [hseen]
    exact hsum hdue hyoung

def lateHistory : List Event :=
  [.observeOutbound (tcpSegment 1 100 2 80 TCP_FLAG_SYN) (fromSecs 1), .gc (fromSecs 30)]

def lateAnswer : Bytes := tcpSegment 2 80 1 100 (TCP_FLAG_SYN ||| TCP_FLAG_ACK)

theorem late_answer : ∃ fw s s', fw.table = ∅ ∧ Lts.Run Timed.Step ⟨⟨fw, []⟩, 0, 0⟩ lateHistory s ∧
    Timed.Step s (.matchFlow lateAnswer (fromSecs 50) (some true)) s' ∧ ∃ p, parse lateAnswer = some (some p) ∧
      ¬ s.conntrack.firewall.Exempt p ∧
      s.conntrack.firewall.table.lookup (inboundKey p) =
        some { lastSeen := fromSecs 1, tcpState := some .synSent } := by
  refine ⟨{ enable := true, openTcp := [], openUdp := [], openAllFor := [], allowIcmpEcho := false, table := ∅ },
    _, _, rfl,
    .cons (.exec (by decide) (by decide) (.observeOutbound rfl)) <| .cons (.exec (by decide) (by decide) .gc) <| .nil _,
    .exec (by decide) (by decide) (.matchFlow rfl), _, rfl, ?_, rfl⟩
  rintro (⟨net, hnet, -⟩ | ⟨hproto, -⟩)
  · cases hnet
  · cases hproto

theorem idle_flow_closes_late : ∃ fw s s' p, fw.table = ∅ ∧ Lts.Run Timed.Step ⟨⟨fw, []⟩, 0, 0⟩ lateHistory s ∧
    Timed.Step s (.matchFlow lateAnswer (fromSecs 50) (some true)) s' ∧ parse lateAnswer = some (some p) ∧
    ¬ s.conntrack.firewall.Exempt p ∧ ∃ e ∈ lateHistory, e.Carries (inboundKey p) ∧
      elapsed (fromSecs 50) e.now < TCP_SYN_TIMEOUT + GC_INTERVAL := by
  obtain ⟨fw, s, s', hfw, hrun, hstep, p, hparse, hexempt, hentry⟩ := late_answer
  obtain ⟨entry, hentry', e, he, hcarries, hlt⟩ := idle_flow_closes hfw hrun hstep hparse hexempt
  rw [hentry] at hentry'
  cases hentry'
  cases hparse
  exact ⟨fw, s, s', _, hfw, hrun, hstep, rfl, hexempt, e, he, hcarries, hlt⟩

/-- The answer is accepted, though the flow's timeout has passed since its last packet. -/
theorem idle_flow_open : ∃ fw history s s' pkt p entry, fw.table = ∅ ∧ Lts.Run Timed.Step ⟨⟨fw, []⟩, 0, 0⟩ history s ∧
    Timed.Step s (.matchFlow pkt (fromSecs 50) (some true)) s' ∧ parse pkt = some (some p) ∧
    ¬ s.conntrack.firewall.Exempt p ∧ s.conntrack.firewall.table.lookup (inboundKey p) = some entry ∧
    ∀ e ∈ history, e.Carries (inboundKey p) → entry.timeout p.proto ≤ elapsed (fromSecs 50) e.now := by
  obtain ⟨fw, s, s', hfw, hrun, hstep, p, hparse, hexempt, hentry⟩ := late_answer
  refine ⟨fw, _, s, s', _, p, _, hfw, hrun, hstep, hparse, hexempt, hentry, fun e he hcarries => ?_⟩
  cases hparse
  simp only [lateHistory, List.mem_cons, List.not_mem_nil, or_false] at he
  rcases he with rfl | rfl
  · decide
  · obtain ⟨pkt, q, -, ⟨⟨now, h⟩, -⟩ | ⟨⟨now, h | h⟩, -⟩⟩ := hcarries <;> cases h

end Conntrack

end Yggdrasil
