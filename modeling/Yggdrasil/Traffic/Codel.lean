import Yggdrasil.Traffic.Fates

/-!
# CoDel drops from a standing queue only

`pop_codel` may dequeue several packets and returns the last of them. That a packet is dropped is decided when it is
dequeued, from the packets left behind it, and carried out at the next dequeue; `Dequeues` keeps both together.
-/

namespace Yggdrasil
open List

namespace PacketQueue

/-- The last two packets of the queue are not dropped. -/
structure Drained (q : PacketQueue) (ms : List Moved) (q' : PacketQueue) : Prop where
  total : (Fifo.taken ms).length + q'.count = q.count
  last : ∀ i e, (Fifo.taken ms)[i]? = some e → q.count ≤ i + 2 → e.1 = .returned

section
variable {quantum : Nat} {q q' q'' : PacketQueue} {ms ms' : List Moved}

theorem Drained.refl (q : PacketQueue) : Drained q [] q := ⟨Nat.zero_add _, by simp [Fifo.taken]⟩

theorem Drained.trans (h : Drained q ms q') (h' : Drained q' ms' q'') : Drained q (ms ++ ms') q'' := by
  have htotal := h.total
  have htotal' := h'.total
  refine ⟨?_, ?_⟩
  · rw [Fifo.taken_append, length_append]
    omega
  intro i e he hlast
  rw [Fifo.taken_append] at he
  by_cases hi : i < (Fifo.taken ms).length
  · rw [getElem?_append_left hi] at he
    exact h.last i e he hlast
  rw [getElem?_append_right (by omega)] at he
  exact h'.last _ e he (by omega)

theorem taken_leave (fate : Fate) (infos : List PqPacketInfo) :
    Fifo.taken (leave fate infos) = infos.map fun info => (fate, info) := by
  unfold leave Fifo.taken
  rw [filterMap_map, ← filterMap_eq_map]
  rfl

theorem map_snd_taken_leave (fate : Fate) (infos : List PqPacketInfo) :
    (Fifo.taken (leave fate infos)).map Prod.snd = infos := by
  rw [taken_leave, map_map]
  exact map_id' _

theorem Dequeues.drained {now : Instant} {left : Nat} {ds : List Discard} {r : Option PqPacketInfo}
    (h : Dequeues now left ds r q'.count) (hleft : left + 1 = q.count) :
    Drained q (leave .discarded (ds.map Discard.info) ++ leave .returned r.toList) q' := by
  have htotal := h.total
  obtain ⟨info, rfl⟩ := Option.isSome_iff_exists.mp h.returns
  refine ⟨?_, ?_⟩
  · rw [Fifo.taken_append, taken_leave, taken_leave, length_append, length_map, length_map]
    show ds.length + 1 + q'.count = q.count
    omega
  intro i e he hlast
  rw [Fifo.taken_append, taken_leave, taken_leave] at he
  by_cases hi : i < ds.length
  · have hplace := h.places i _ (getElem?_eq_getElem hi)
    have hdrop := (h.droppable _ (getElem_mem hi)).2
    omega
  rw [getElem?_append_right (by simpa using hi)] at he
  obtain ⟨_, -, rfl⟩ := mem_map.mp (mem_of_getElem? he)
  rfl

variable (codelControlLaw : Instant → UInt32 → Instant)

theorem Kept.drain (times : List Instant) : ∀ {q : PacketQueue}, q.Kept quantum none →
    ∃ ms q', q.execLogAll codelControlLaw (times.map .popCodel) = some (ms, q') ∧ Drained q ms q' ∧
      (q.count ≤ times.length → q'.count = 0) := by
  induction times with
  | nil => exact fun {q} _ => ⟨[], q, rfl, Drained.refl q, Nat.le_zero.mp⟩
  | cons now times ih =>
    intro q h
    obtain ⟨ds, r, mid, hpop, hkept, -, hcases⟩ := h.popCodelLog codelControlLaw now
    have hexec : q.execLog codelControlLaw (.popCodel now) =
        some (leave .discarded (ds.map Discard.info) ++ leave .returned r.toList, mid) :=
      Option.map_eq_some_iff.mpr ⟨_, hpop, rfl⟩
    obtain ⟨ms, q', hrun, hdrained, hall⟩ := ih hkept
    have hfirst : Drained q (leave .discarded (ds.map Discard.info) ++ leave .returned r.toList) mid ∧
        mid.count ≤ q.count - 1 := by
      rcases hcases with ⟨hzero, rfl, rfl, hmid⟩ | ⟨left, hleft, hdeq⟩
      · refine ⟨⟨?_, by simp [leave, Fifo.taken]⟩, by omega⟩
        rw [hzero, hmid]
        rfl
      have := hdeq.total
      exact ⟨hdeq.drained hleft, by omega⟩
    refine ⟨_, q', by rw [map_cons, execLogAll_cons codelControlLaw hexec, hrun]; rfl, hfirst.1.trans hdrained, ?_⟩
    intro hlong
    rw [length_cons] at hlong
    exact hall (by omega)

end

structure CodelCall (codelControlLaw : Instant → UInt32 → Instant) (q : PacketQueue) (now : Instant)
    (ds : List Discard) (r : Option PqPacketInfo) (q' : PacketQueue) : Prop where
  log : q.popCodelLog codelControlLaw now = some (ds, r, q')
  call : q.popCodel codelControlLaw now = some (r.map PqPacketInfo.packet, q')
  returns : r = none ↔ q.isEmpty = true
  /-- A dropped packet waited for the target, and left two packets behind it. -/
  droppable : ∀ d ∈ ds, CODEL_TARGET ≤ elapsed now d.info.time ∧ 2 ≤ d.left
  /-- The number of packets that a dropped packet left behind it is the one that is tested. -/
  left : ∀ i d, ds[i]? = some d → d.left + i + 1 = q.count

theorem Kept.codelCall (codelControlLaw : Instant → UInt32 → Instant) {quantum : Nat} {q : PacketQueue}
    (h : q.Kept quantum none) (now : Instant) : ∃ ds r q', CodelCall codelControlLaw q now ds r q' := by
  obtain ⟨ds, r, q', hlog, -, -, hcases⟩ := h.popCodelLog codelControlLaw now
  have hcall : q.popCodel codelControlLaw now = some (r.map PqPacketInfo.packet, q') := by
    rw [← popCodelLog_erase, hlog]
    rfl
  have hempty := h.valid.isEmpty_iff
  rcases hcases with ⟨hzero, rfl, rfl, -⟩ | ⟨left, hleft, hdeq⟩
  · exact ⟨[], none, q', hlog, hcall, iff_of_true rfl (hempty.mpr hzero), by simp, by simp⟩
  refine ⟨ds, r, q', hlog, hcall, iff_of_false ?_ (by rw [hempty]; omega), hdeq.droppable, ?_⟩
  · intro hnone
    have := hdeq.returns
    rw [hnone] at this
    cases this
  intro i d hd
  have := hdeq.places i d hd
  omega

end PacketQueue

/-- In every state of the queue, with any CoDel state, and at any time. -/
theorem codel_standing_queue (codelControlLaw : Instant → UInt32 → Instant) (quantum : Nat)
    (hfits : (PacketQueue.new quantum).maxBytesTotal < 2 ^ 64) (ops : List PacketQueue.Op) :
    ∃ q, ops.foldlM (PacketQueue.exec codelControlLaw) (PacketQueue.new quantum) = some q ∧ ∀ codel : Codel,
        (∀ now, ∃ ds r q', PacketQueue.CodelCall codelControlLaw { q with codel } now ds r q') ∧
        ∀ times : List Instant, ∃ ms q',
          PacketQueue.execLogAll codelControlLaw { q with codel } (times.map .popCodel) = some (ms, q') ∧
          (Fifo.taken ms).length + q'.count = q.count ∧
          (∀ i e, (Fifo.taken ms)[i]? = some e → q.count ≤ i + 2 → e.1 = .returned) ∧
          (q.count ≤ times.length → q'.count = 0) := by
  obtain ⟨ms, q, -, hexec, hkept, -, -⟩ :=
    PacketQueue.Kept.execLogAll codelControlLaw ops (PacketQueue.Kept.new hfits)
  refine ⟨q, hexec, fun codel => ⟨fun now => (hkept.withCodel codel).codelCall codelControlLaw now, fun times => ?_⟩⟩
  obtain ⟨ms, q', hrun, hdrained, hall⟩ := (hkept.withCodel codel).drain codelControlLaw times
  exact ⟨ms, q', hrun, hdrained.total, hdrained.last, hall⟩

/-- The call that drops the second of five packets, and returns the third. -/
theorem codel_standing_queue_dropping : let packet := TrafficPacket.new 0 0 []
    let ops := replicate 5 (PacketQueue.Op.push packet 0) ++ [.popCodel (Duration.fromMillis 20)]
    ∃ q ds r q', ops.foldlM (PacketQueue.exec fun t _ => t) (PacketQueue.new 0) = some q ∧
      PacketQueue.CodelCall (fun t _ => t) q (Duration.fromMillis 230) ds r q' ∧
      ds.map PacketQueue.Discard.left = [3] ∧ r.isSome = true := by
  intro packet ops
  let now := Duration.fromMillis 230
  obtain ⟨q, hexec, hall⟩ := codel_standing_queue (fun t _ => t) 0 (by decide) ops
  obtain ⟨ds, r, q', hcall⟩ := (hall q.codel).1 now
  have hrun : (ops.foldlM (PacketQueue.exec fun t _ => t) (PacketQueue.new 0)).bind
      (PacketQueue.popCodelLog (fun t _ => t) · now) = some (ds, r, q') := by
    rw [hexec]
    exact hcall.log
  exact ⟨q, ds, r, q', hexec, hcall,
    Lts.read_eq (fun out => out.1.map PacketQueue.Discard.left) hrun (by decide +kernel),
    Lts.read_eq (fun out => out.2.1.isSome) hrun (by decide +kernel)⟩

end Yggdrasil
