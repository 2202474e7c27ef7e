import Yggdrasil.Traffic.Fates

/-!
# The deficit when a packet is served

When it covers every packet that is popped.
-/

namespace Yggdrasil
open PacketQueue List Option

namespace PacketQueue

/-! ## All pops that empty a queue -/

def Pop (q : PacketQueue) (charge : Charge) (q' : PacketQueue) : Prop := q.popInfoCharge = some (some charge, q')

def ModestHeads (quantum : Nat) (q : PacketQueue) : Prop :=
  ∀ key info infos, q.queued key = info :: infos → infos ≠ [] → info.size ≤ quantum * 4

def Modest (quantum : Nat) (q : PacketQueue) : Prop :=
  ∀ key ahead info behind, q.queued key = ahead ++ info :: behind → behind ≠ [] → info.size ≤ quantum * 4

section
variable {quantum : Nat} {q q' : PacketQueue} {key : FlowKey} {infos : List PqPacketInfo} {charge : Charge}

theorem Modest.heads (h : q.Modest quantum) : q.ModestHeads quantum := fun key info infos => h key [] info infos

section
variable (h : Charges quantum q key infos charge q')
include h

theorem Charges.covered_of_heads (hheads : q.ModestHeads quantum) : charge.Covered := by
  apply h.covered.mpr
  by_cases hmore : infos = []
  · exact Or.inl hmore
  · exact Or.inr (hheads key charge.info infos h.queued hmore)

theorem Charges.modest (hmodest : q.Modest quantum) : q'.Modest quantum := by
  intro k ahead info behind hqueued hne
  by_cases hk : k = key
  · subst hk
    rw [h.own] at hqueued
    refine hmodest k (charge.info :: ahead) info behind ?_ hne
    rw [h.queued, hqueued]
    rfl
  rw [h.others k hk] at hqueued
  exact hmodest k ahead info behind hqueued hne

theorem Charges.not_modest (hcovered : charge.Covered) (hmodest : q'.Modest quantum) : q.Modest quantum := by
  intro k ahead info behind hqueued hne
  by_cases hk : k = key
  · subst hk
    rw [h.queued] at hqueued
    cases ahead with
    | nil =>
      cases hqueued
      exact (h.covered.mp hcovered).resolve_left hne
    | cons first ahead =>
      obtain ⟨-, hrest⟩ := List.cons.inj hqueued
      exact hmodest k ahead info behind (h.own.trans hrest) hne
  rw [← h.others k hk] at hqueued
  exact hmodest k ahead info behind hqueued hne

end

theorem Kept.exists_pop (h : q.Kept quantum none) (hcount : q.count ≠ 0) :
    ∃ charge q' key infos, Pop q charge q' ∧ Charges quantum q key infos charge q' ∧ q'.count + 1 = q.count := by
  rcases h.popInfo with ⟨hzero, -⟩ | ⟨info, q', hpop, -, hless, -⟩
  · exact absurd hzero hcount
  rw [← popInfoCharge_erase] at hpop
  obtain ⟨⟨r, q''⟩, hcharge, heq⟩ := map_eq_some_iff.mp hpop
  obtain ⟨hinfo, rfl⟩ := Prod.mk.inj heq
  obtain ⟨charge, rfl, -⟩ := map_eq_some_iff.mp hinfo
  obtain ⟨key, infos, hcharges⟩ := h.popInfoCharge hcharge
  exact ⟨charge, q'', key, infos, hcharge, hcharges, hless⟩

theorem Kept.covered_of_modest {charges : List Charge} (h : q.Kept quantum none) (hmodest : q.Modest quantum)
    (hrun : Lts.Run Pop q charges q') : ∀ charge ∈ charges, charge.Covered := by
  suffices hall : (q'.Kept quantum none ∧ q'.Modest quantum) ∧ ∀ charge ∈ charges, charge.Covered from hall.2
  induction hrun with
  | nil => exact ⟨⟨h, hmodest⟩, by simp⟩
  | snoc _ hpop ih =>
    obtain ⟨⟨hkept, hmodest'⟩, hall⟩ := ih
    obtain ⟨key, infos, hcharges⟩ := hkept.popInfoCharge hpop
    refine ⟨⟨hcharges.kept, hcharges.modest hmodest'⟩, fun charge hmem => ?_⟩
    rcases mem_append.mp hmem with hold | hnew
    · exact hall charge hold
    obtain rfl := mem_singleton.mp hnew
    exact hcharges.covered_of_heads hmodest'.heads

theorem Kept.modest_of_covered : ∀ {n : Nat} {q : PacketQueue}, q.Kept quantum none → q.count = n →
    (∀ charges q', Lts.Run Pop q charges q' → ∀ charge ∈ charges, charge.Covered) → q.Modest quantum
  | 0, q, h, hcount, _ => by
    intro key ahead info behind hqueued _
    rw [h.valid.queued_eq_nil (h.valid.isEmpty_iff.mpr hcount)] at hqueued
    exact absurd hqueued (by simp)
  | n + 1, q, h, hcount, hall => by
    obtain ⟨charge, q', key, infos, hpop, hcharges, hless⟩ := h.exists_pop (by omega)
    have hcovered := hall [charge] q' (Lts.Run.single hpop) charge mem_cons_self
    refine hcharges.not_modest hcovered
      (hcharges.kept.modest_of_covered (n := n) (by omega) fun charges q'' hrun c hc => ?_)
    exact hall (charge :: charges) q'' (hrun.cons hpop) c (mem_cons_of_mem _ hc)

end

end PacketQueue

/-- In every reachable state of the queue. -/
theorem deficit_covers_served (codelControlLaw : Instant → UInt32 → Instant) (quantum : Nat)
    (hfits : (PacketQueue.new quantum).maxBytesTotal < 2 ^ 64) (ops : List PacketQueue.Op) :
    ∃ q, ops.foldlM (PacketQueue.exec codelControlLaw) (PacketQueue.new quantum) = some q ∧
      q.popInfoCharge.map (fun r => (r.1.map PacketQueue.Charge.info, r.2)) = q.popInfo ∧
      (q.ModestHeads (PacketQueue.new quantum).quantum → ∀ charge q', PacketQueue.Pop q charge q' → charge.Covered) ∧
      ((∀ charges q', Lts.Run PacketQueue.Pop q charges q' → ∀ charge ∈ charges, charge.Covered) ↔
        q.Modest (PacketQueue.new quantum).quantum) := by
  obtain ⟨ms, q, -, hexec, hkept, -, -⟩ :=
    PacketQueue.Kept.execLogAll codelControlLaw ops (PacketQueue.Kept.new hfits)
  refine ⟨q, hexec, q.popInfoCharge_erase, fun hheads charge q' hpop => ?_, ?_, ?_⟩
  · obtain ⟨key, infos, hcharges⟩ := hkept.popInfoCharge hpop
    exact hcharges.covered_of_heads hheads
  · exact hkept.modest_of_covered rfl
  · exact fun hmodest charges q' hrun => hkept.covered_of_modest hmodest hrun

def twoPackets : List PacketQueue.Op :=
  [.push (TrafficPacket.new 0 0 []) 0, .push (TrafficPacket.new 0 0 []) 0]

theorem deficit_covers_two_packets :
    ∃ q, twoPackets.foldlM (PacketQueue.exec fun t _ => t) (PacketQueue.new 19) = some q ∧
    q.count = 2 ∧ q.ModestHeads 19 ∧ ∀ charge q', PacketQueue.Pop q charge q' → charge.Covered := by
  obtain ⟨q, hexec, -, hheads, -⟩ := deficit_covers_served (fun t _ => t) 19 (by decide) twoPackets
  have hall : (twoPackets.foldlM (exec fun t _ => t) (new 19)).any (fun q =>
      q.count = 2 ∧ ∀ key ∈ q.active, ∀ info ∈ q.queued key, info.size ≤ 76) = true := by
    decide +kernel
  rw [hexec] at hall
  obtain ⟨hcount, hactive⟩ := of_decide_eq_true hall
  have hmodest : q.ModestHeads 19 := by
    intro key info infos hqueued _
    obtain ⟨ms, q', -, hexec', hkept, -, -⟩ := PacketQueue.Kept.execLogAll (fun t _ => t) twoPackets
      (PacketQueue.Kept.new (show (new 19).maxBytesTotal < 2 ^ 64 by decide))
    rw [hexec] at hexec'
    cases hexec'
    obtain ⟨f, hf, hinfos⟩ := exists_lookup_of_queued hqueued
    have hkey := (hkept.valid.active key).mpr ⟨f, hf, by rw [hinfos]; simp⟩
    exact hactive key hkey info (by rw [hqueued]; exact mem_cons_self)
  exact ⟨q, hexec, hcount, hmodest, hheads hmodest⟩

/-- With a quantum of 18 bytes they have more: 76 is subtracted from the clamped deficit of 72. -/
theorem deficit_underflow : ∃ q charge q',
    twoPackets.foldlM (PacketQueue.exec fun t _ => t) (PacketQueue.new 18) = some q ∧ PacketQueue.Pop q charge q' ∧
      charge.info.size = 76 ∧ charge.deficit = some 72 ∧ ¬ charge.Covered := by
  have hall : (twoPackets.foldlM (exec fun t _ => t) (new 18)).any (fun q =>
      q.popInfoCharge.any fun r => r.1.any fun charge => charge.info.size = 76 ∧ charge.deficit = some 72) = true := by
    decide +kernel
  obtain ⟨q, hexec, hq⟩ := (any_eq_true _ _).mp hall
  obtain ⟨⟨r, q'⟩, hpop, hr⟩ := (any_eq_true _ _).mp hq
  obtain ⟨charge, rfl, hcharge⟩ := (any_eq_true _ _).mp hr
  obtain ⟨hsize, hdeficit⟩ := of_decide_eq_true hcharge
  refine ⟨q, charge, q', hexec, hpop, hsize, hdeficit, fun hcovered => ?_⟩
  have := hcovered 72 hdeficit
  omega

end Yggdrasil
