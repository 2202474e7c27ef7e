import Yggdrasil.Base.Fifo
import Yggdrasil.Traffic.Fairness

/-!
# One packet leaves

`pop_info` tests the deficit of a flow against its head, calls `drop_from`, and then subtracts the size of the packet.
But `drop_from` clamps the deficit to four quanta, and `push` takes packets of up to sixteen.
-/

namespace Yggdrasil
open Nat List Option HashMap

namespace PacketQueue

inductive Fate where
  | evicted
  | returned
  | discarded
deriving DecidableEq

abbrev Moved := Fifo.Move Fate PqPacketInfo

def PqPacketInfo.flowKey (info : PqPacketInfo) : FlowKey := info.packet.flowKey

/-- The packets of a flow, the oldest first. -/
def queued (q : PacketQueue) (key : FlowKey) : List PqPacketInfo := (q.flows.lookup key).elim [] Flow.infos

/-- A valid queue with each packet in its own flow. -/
structure Kept (quantum : Nat) (hole : Option FlowKey) (q : PacketQueue) : Prop where
  valid : q.Valid quantum hole
  keyed : ∀ k, ∀ info ∈ q.queued k, info.flowKey = k

def Moves (q : PacketQueue) (ms : List Moved) (q' : PacketQueue) : Prop :=
  Lts.Run (Fifo.Step PqPacketInfo.flowKey) q.queued ms q'.queued

section Take
variable {quantum : Nat} {hole : Option FlowKey} {q q' : PacketQueue} {key : FlowKey} {f : Flow} {info : PqPacketInfo}
  {infos : List PqPacketInfo}

theorem queued_of_lookup (hf : q.flows.lookup key = some f) : q.queued key = f.infos := by
  unfold queued
  rw [hf]
  rfl

theorem exists_lookup_of_queued (h : q.queued key = info :: infos) :
    ∃ f, q.flows.lookup key = some f ∧ f.infos = info :: infos := by
  cases hf : q.flows.lookup key with
  | none =>
    unfold queued at h
    rw [hf] at h
    cases h
  | some f => exact ⟨f, rfl, (queued_of_lookup hf).symm.trans h⟩

theorem queued_modify (q : PacketQueue) (key : FlowKey) {g : Flow → Flow} (hg : ∀ f, (g f).infos = f.infos)
    (k : FlowKey) : ((q.flows.modify key g).lookup k).elim [] Flow.infos = q.queued k := by
  unfold queued
  rw [lookup_modify]
  cases q.flows.lookup k with
  | none => rfl
  | some f =>
    split
    · exact hg f
    · rfl

@[simp] theorem queued_credit (q : PacketQueue) (key : FlowKey) : (q.credit key).queued = q.queued :=
  funext (q.queued_modify key fun _ => rfl)

@[simp] theorem queued_spend (q : PacketQueue) (key : FlowKey) (size : Nat) : (q.spend key size).queued = q.queued :=
  funext (q.queued_modify key fun _ => rfl)

@[simp] theorem queued_advance (q : PacketQueue) (idx : Nat) (key : FlowKey) : (q.advance idx key).queued = q.queued :=
  queued_credit { q with next := some idx } key

theorem Valid.queued_dropFrom (h : q.Valid quantum hole) (hqueued : q.queued key = info :: infos) :
    ∃ q', q.dropFrom key = some (some info, q') ∧ q'.Valid quantum hole ∧ Shrunk q q' info.size ∧
      (∀ k, k ≠ key → q'.queued k = q.queued k) ∧ q'.queued key = infos := by
  obtain ⟨f, hf, hinfos⟩ := exists_lookup_of_queued hqueued
  obtain ⟨q', hdrop, hvalid, hshrunk⟩ := h.dropFrom hf hinfos
  refine ⟨q', hdrop, hvalid, hshrunk, ?_⟩
  by_cases hmore : infos = []
  · subst hmore
    obtain ⟨i, q'', -, -, hdrop', hr⟩ := dropFrom_last h hf hinfos
    rw [hdrop] at hdrop'
    obtain ⟨-, rfl⟩ := Prod.mk.inj (some.inj hdrop')
    unfold queued
    refine ⟨fun k hk => ?_, by rw [hr.lookup, if_pos rfl]; rfl⟩
    rw [hr.lookup, if_neg hk]
    cases q.flows.lookup k with
    | none => rfl
    | some g => rw [map_some]; split <;> rfl
  rw [dropFrom_more h hf hinfos hmore] at hdrop
  obtain ⟨-, rfl⟩ := Prod.mk.inj (Option.some.inj hdrop)
  unfold queued
  exact ⟨fun k hk => by rw [lookup_taken hf, if_neg hk], by rw [lookup_taken hf, if_pos rfl]; rfl⟩

theorem Kept.of_taken (h : q.Kept quantum hole) (hvalid : q'.Valid quantum hole)
    (hqueued : q.queued key = info :: infos) (hothers : ∀ k, k ≠ key → q'.queued k = q.queued k)
    (hown : q'.queued key = infos) :
    q'.Kept quantum hole ∧ ∀ fate, Moves q [.take fate info] q' := by
  have hkey : info.flowKey = key := h.keyed key info (by rw [hqueued]; exact mem_cons_self)
  refine ⟨⟨hvalid, fun k i hi => h.keyed k i ?_⟩, ?_⟩
  · by_cases hk : k = key
    · rw [hk, hown] at hi
      rw [hk, hqueued]
      exact mem_cons_of_mem _ hi
    · rwa [hothers k hk] at hi
  intro fate
  refine Lts.Run.single ?_
  show (∀ k, k ≠ info.flowKey → q'.queued k = q.queued k) ∧ q.queued info.flowKey = info :: q'.queued info.flowKey
  rw [hkey, hown]
  exact ⟨hothers, hqueued⟩

theorem Kept.of_queued {hole' : Option FlowKey} (h : q.Kept quantum hole) (hvalid : q'.Valid quantum hole')
    (heq : q'.queued = q.queued) : q'.Kept quantum hole' :=
  ⟨hvalid, by rw [heq]; exact h.keyed⟩

theorem Kept.dropFrom (h : q.Kept quantum hole) (hqueued : q.queued key = info :: infos) :
    ∃ q', q.dropFrom key = some (some info, q') ∧ q'.Kept quantum hole ∧ Shrunk q q' info.size ∧
      ∀ fate, Moves q [.take fate info] q' := by
  obtain ⟨q', hdrop, hvalid, hshrunk, hothers, hown⟩ := h.valid.queued_dropFrom hqueued
  obtain ⟨hkept, hstep⟩ := h.of_taken hvalid hqueued hothers hown
  exact ⟨q', hdrop, hkept, hshrunk, hstep⟩

section
variable (h : q.Valid quantum hole)
include h

theorem Valid.count_eq_zero_iff : q.count = 0 ↔ q.size = 0 := by
  rw [h.count, h.size]
  constructor
  · intro hzero
    by_contra hpos
    obtain ⟨k, f, hf, hbytes⟩ := exists_pos_of_total_pos _ (pos_of_ne_zero hpos)
    have hlen := le_total (fun f : Flow => f.infos.length) hf
    have hnil : f.infos = [] := length_eq_zero_iff.mp (by omega)
    unfold Flow.bytes at hbytes
    rw [hnil] at hbytes
    exact absurd hbytes (lt_irrefl 0)
  intro hzero
  by_contra hpos
  obtain ⟨k, f, hf, hlen⟩ := exists_pos_of_total_pos _ (pos_of_ne_zero hpos)
  obtain ⟨info, infos, hinfos⟩ := exists_cons_of_length_pos hlen
  have hbytes := le_total Flow.bytes hf
  have hsize := h.positive k f hf info (by rw [hinfos]; exact mem_cons_self)
  have := Flow.bytes_cons hinfos
  omega

theorem Valid.isEmpty_iff : q.isEmpty = true ↔ q.count = 0 := by
  rw [h.count_eq_zero_iff]
  exact beq_iff_eq

theorem Valid.queued_eq_nil (hempty : q.isEmpty = true) (key : FlowKey) : q.queued key = [] := by
  have hcount := h.isEmpty_iff.mp hempty
  cases hqueued : q.queued key with
  | nil => rfl
  | cons info infos =>
    obtain ⟨f, hf, hinfos⟩ := exists_lookup_of_queued hqueued
    obtain ⟨-, -, hpos⟩ := h.head_le hf hinfos
    omega

theorem Valid.active_eq_nil_iff : q.active = [] ↔ q.count = 0 := by
  constructor
  · intro hnil
    rw [h.count]
    by_contra hpos
    obtain ⟨k, f, hf, hlen⟩ := exists_pos_of_total_pos _ (pos_of_ne_zero hpos)
    have hmem := (h.active k).mpr ⟨f, hf, length_pos_iff.mp hlen⟩
    rw [hnil] at hmem
    exact absurd hmem not_mem_nil
  intro hzero
  refine eq_nil_iff_forall_not_mem.mpr fun k hk => ?_
  obtain ⟨f, info, infos, hf, hinfos⟩ := h.exists_head hk
  obtain ⟨-, -, hcount⟩ := h.head_le hf hinfos
  omega

end

theorem queued_of_serveable (h : q.serveable key = true) :
    ∃ f info infos, q.flows.lookup key = some f ∧ f.infos = info :: infos ∧ info.size ≤ f.deficit := by
  unfold serveable at h
  cases hf : q.flows.lookup key with
  | none => rw [hf] at h; cases h
  | some f =>
    rw [hf, any_some] at h
    cases hinfos : f.infos with
    | nil => rw [hinfos] at h; cases h
    | cons info infos =>
      rw [hinfos, head?_cons, any_some, decide_eq_true_eq] at h
      exact ⟨f, info, infos, rfl, hinfos, h⟩

end Take

/-! ## A pop with its charge -/

/-- A packet with the deficit it is subtracted from. -/
structure Charge where
  info : PqPacketInfo
  deficit : Option Nat

def Charge.Covered (charge : Charge) : Prop := ∀ deficit, charge.deficit = some deficit → charge.info.size ≤ deficit

def popLoopCharge : Nat → PacketQueue → Nat → FlowKey → Option (Charge × PacketQueue)
  | 0, _, _, _ => none
  | fuel + 1, self, idx, key => do
    let r ← if self.serveable key then self.dropFrom key else some (none, self)
    match r.1 with
    | some info =>
      return ({ info, deficit := (r.2.flows.lookup key).map Flow.deficit }, r.2.spend key info.size)
    | none =>
      let idx := if idx + 1 ≥ r.2.active.length then 0 else idx + 1
      let key ← r.2.active[idx]?
      popLoopCharge fuel ({ r.2 with next := some idx }.credit key) idx key

/-- `pop_info` with the deficit at the subtraction. -/
def popInfoCharge (self : PacketQueue) : Option (Option Charge × PacketQueue) :=
  if self.isEmpty || self.active.isEmpty then some (none, { self with next := none })
  else do
    let idx := self.next.elim 0 fun n => if n ≥ self.active.length then 0 else n
    let key ← self.active[idx]?
    let start := { self with next := some idx }
    let start := if self.next.isNone then start.credit key else start
    let r ← popLoopCharge (17 * self.active.length + 1) start idx key
    return (some r.1, r.2)

theorem popLoopCharge_erase (fuel : Nat) : ∀ (q : PacketQueue) (idx : Nat) (key : FlowKey),
    (q.popLoopCharge fuel idx key).map (fun r => (r.1.info, r.2)) = q.popLoop fuel idx key := by
  induction fuel with
  | zero => exact fun _ _ _ => rfl
  | succ fuel ih =>
    intro q idx key
    -- a turn that moves the cursor on
    have hnext : ∀ (q' : PacketQueue) (i : Nat), (q'.active[i]?.bind fun next =>
          popLoopCharge fuel ({ q' with next := some i }.credit next) i next).map (fun r => (r.1.info, r.2)) =
        q'.active[i]?.bind fun next => popLoop fuel ({ q' with next := some i }.credit next) i next := by
      intro q' i
      cases q'.active[i]? with
      | none => rfl
      | some next => exact ih _ _ _
    unfold popLoopCharge popLoop
    split
    · cases q.dropFrom key with
      | none => rfl
      | some r =>
        obtain ⟨info, q'⟩ := r
        cases info with
        | some info => rfl
        | none => exact hnext q' _
    · exact hnext q _

/-- Without the deficit it is `pop_info`. -/
theorem popInfoCharge_erase (q : PacketQueue) :
    q.popInfoCharge.map (fun r => (r.1.map Charge.info, r.2)) = q.popInfo := by
  unfold popInfoCharge popInfo
  split
  · rfl
  dsimp only [bind_eq_bind]
  cases q.active[q.next.elim 0 fun n => if n ≥ q.active.length then 0 else n]? with
  | none => rfl
  | some key =>
    rw [bind_some, bind_some, ← popLoopCharge_erase]
    cases popLoopCharge _ _ _ key with
    | none | some r => rfl

structure Charges (quantum : Nat) (q : PacketQueue) (key : FlowKey) (infos : List PqPacketInfo) (charge : Charge)
    (q' : PacketQueue) : Prop where
  kept : q'.Kept quantum none
  queued : q.queued key = charge.info :: infos
  others : ∀ k, k ≠ key → q'.queued k = q.queued k
  own : q'.queued key = infos
  /-- The clamp leaves enough for a packet of four quanta, and for no larger one. -/
  covered : charge.Covered ↔ infos = [] ∨ charge.info.size ≤ quantum * 4

section
variable {quantum : Nat} {q q' : PacketQueue} {key : FlowKey} {f : Flow} {info : PqPacketInfo}
  {infos : List PqPacketInfo} {charge : Charge}

theorem Charges.of_queued {p : PacketQueue} (h : Charges quantum p key infos charge q') (heq : p.queued = q.queued) :
    Charges quantum q key infos charge q' where
  kept := h.kept
  queued := by rw [← heq]; exact h.queued
  others := by rw [← heq]; exact h.others
  own := h.own
  covered := h.covered

theorem Valid.deficit_dropFrom (h : q.Valid quantum none) (hf : q.flows.lookup key = some f)
    (hinfos : f.infos = info :: infos) (hdrop : q.dropFrom key = some (some info, q')) :
    (q'.flows.lookup key).map Flow.deficit = if infos = [] then none else some (min f.deficit (quantum * 4)) := by
  by_cases hmore : infos = []
  · subst hmore
    obtain ⟨i, q'', -, -, hdrop', hr⟩ := dropFrom_last h hf hinfos
    rw [hdrop] at hdrop'
    obtain ⟨-, rfl⟩ := Prod.mk.inj (some.inj hdrop')
    rw [hr.lookup, if_pos rfl, if_pos rfl]
    rfl
  rw [dropFrom_more h hf hinfos hmore] at hdrop
  obtain ⟨-, rfl⟩ := Prod.mk.inj (some.inj hdrop)
  rw [lookup_taken hf, if_pos rfl, if_neg hmore, ← h.share]
  rfl

theorem Kept.popLoopCharge : ∀ {fuel : Nat} {q : PacketQueue} {idx : Nat} {key : FlowKey}, q.Kept quantum none →
    q.popLoopCharge fuel idx key = some (charge, q') → ∃ key infos, Charges quantum q key infos charge q'
  | 0, _, _, _, _, hpop => nomatch hpop
  | fuel + 1, q, idx, key, h, hpop => by
    unfold PacketQueue.popLoopCharge at hpop
    cases hserve : q.serveable key with
    | true =>
      obtain ⟨f, info, infos, hf, hinfos, henough⟩ := queued_of_serveable hserve
      have hqueued := (queued_of_lookup hf).trans hinfos
      obtain ⟨mid, hdrop, hvalid, -, hothers, hown⟩ := h.valid.queued_dropFrom hqueued
      have hdeficit := h.valid.deficit_dropFrom hf hinfos hdrop
      obtain ⟨hkept, -⟩ := h.of_taken hvalid hqueued hothers hown
      rw [if_pos hserve, hdrop] at hpop
      obtain ⟨rfl, rfl⟩ := Prod.mk.inj (some.inj hpop)
      refine ⟨key, infos, hkept.of_queued (hkept.valid.spend _ _) (queued_spend ..), hqueued, ?_, ?_, ?_⟩
      · rw [queued_spend]
        exact hothers
      · rw [queued_spend]
        exact hown
      unfold Charge.Covered
      dsimp only
      rw [hdeficit]
      by_cases hmore : infos = []
      · simp [hmore]
      simp [hmore]
      omega
    | false =>
      rw [if_neg (by rw [hserve]; exact Bool.false_ne_true), bind_eq_bind, bind_some] at hpop
      obtain ⟨next, hnext, hpop⟩ := bind_eq_some_iff.mp hpop
      have hlt := (List.getElem?_eq_some_iff.mp hnext).1
      have hkept : (q.advance (if idx + 1 ≥ q.active.length then 0 else idx + 1) next).Kept quantum none := by
        refine h.of_queued (Valid.credit (h.valid.cursor fun i hi => ?_) next) (queued_advance ..)
        rw [← some.inj hi]
        exact hlt
      obtain ⟨key', infos, hcharges⟩ := hkept.popLoopCharge hpop
      exact ⟨key', infos, hcharges.of_queued (queued_advance ..)⟩

theorem Kept.popInfoCharge (h : q.Kept quantum none) (hpop : q.popInfoCharge = some (some charge, q')) :
    ∃ key infos, Charges quantum q key infos charge q' := by
  unfold PacketQueue.popInfoCharge at hpop
  split at hpop
  · cases hpop
  obtain ⟨key, hkey, hrest⟩ := bind_eq_some_iff.mp hpop
  obtain ⟨⟨charge', q''⟩, hloop, hresult⟩ := bind_eq_some_iff.mp hrest
  cases hresult
  have hlt := (List.getElem?_eq_some_iff.mp hkey).1
  have hcursor : Kept quantum none { q with next := some (q.next.elim 0 fun n =>
      if n ≥ q.active.length then 0 else n) } :=
    h.of_queued (h.valid.cursor fun i hi => by rw [← some.inj hi]; exact hlt) rfl
  split at hloop
  · have hcredit := hcursor.of_queued (hcursor.valid.credit key) (queued_credit _ key)
    obtain ⟨key', infos, hcharges⟩ := hcredit.popLoopCharge hloop
    exact ⟨key', infos, hcharges.of_queued (queued_credit _ key)⟩
  obtain ⟨key', infos, hcharges⟩ := hcursor.popLoopCharge hloop
  exact ⟨key', infos, hcharges.of_queued rfl⟩

/-- A pop takes a packet unless the queue is empty. -/
theorem Kept.popInfo (h : q.Kept quantum none) : q.count = 0 ∧ q.popInfo = some (none, { q with next := none }) ∨
      ∃ info q', q.popInfo = some (some info, q') ∧ q'.Kept quantum none ∧ q'.count + 1 = q.count ∧
        ∀ fate, Moves q [.take fate info] q' := by
  by_cases hempty : (q.isEmpty || q.active.isEmpty) = true
  · refine .inl ⟨?_, by unfold PacketQueue.popInfo; rw [if_pos hempty]⟩
    rcases Bool.or_eq_true_iff.mp hempty with hsize | hactive
    · exact h.valid.count_eq_zero_iff.mpr (beq_iff_eq.mp hsize)
    · exact h.valid.active_eq_nil_iff.mp (isEmpty_iff.mp hactive)
  obtain ⟨r, q', hpop, -, hcount⟩ := h.valid.popInfo
  obtain ⟨⟨charge, q''⟩, hcharge, heq⟩ := map_eq_some_iff.mp (q.popInfoCharge_erase.trans hpop)
  obtain ⟨rfl, rfl⟩ := Prod.mk.inj heq
  cases charge with
  | none =>
    unfold PacketQueue.popInfoCharge at hcharge
    rw [if_neg hempty] at hcharge
    obtain ⟨key, -, hrest⟩ := bind_eq_some_iff.mp hcharge
    obtain ⟨r, -, hresult⟩ := bind_eq_some_iff.mp hrest
    cases hresult
  | some charge =>
    obtain ⟨key, infos, hc⟩ := h.popInfoCharge hcharge
    obtain ⟨-, hmoves⟩ := h.of_taken hc.kept.valid hc.queued hc.others hc.own
    exact .inr ⟨charge.info, q'', hpop, hc.kept, hcount.resolve_left (by simp), hmoves⟩

end

end PacketQueue

end Yggdrasil
