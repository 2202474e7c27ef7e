import Yggdrasil.Base.Run
import Yggdrasil.Traffic.Queue

/-!
# The packet queue keeps its books
-/

namespace Yggdrasil
open Nat List Option HashMap

theorem TrafficPacket.wireSize_pos (packet : TrafficPacket) : 0 < packet.wireSize := by
  unfold TrafficPacket.wireSize PUBLIC_KEY_SIZE
  omega

namespace PacketQueue

def Flow.bytes (f : Flow) : Nat := (f.infos.map PqPacketInfo.size).sum

/-- The counters are the sums over the flows, the ring holds exactly the flows, and the caps are
kept. Within a `push` there may be one flow without packets, the `hole`. -/
structure Valid (quantum : Nat) (hole : Option FlowKey) (q : PacketQueue) : Prop where
  pos : 0 < quantum
  fits : quantum * 64 < 2 ^ 64
  share : q.quantum = quantum
  capTotal : q.maxBytesTotal = quantum * 64
  capPerFlow : q.maxBytesPerFlow = quantum * 16
  size : q.size = q.flows.total Flow.bytes
  count : q.count = q.flows.total fun f => f.infos.length
  flowSize : ∀ k f, q.flows.lookup k = some f → f.size = f.bytes
  positive : ∀ k f, q.flows.lookup k = some f → ∀ info ∈ f.infos, 0 < info.size
  perFlow : ∀ k f, q.flows.lookup k = some f → f.bytes ≤ q.maxBytesPerFlow
  total : q.size ≤ q.maxBytesTotal
  nodup : q.active.Nodup
  active : ∀ k, k ∈ q.active ↔ ∃ f, q.flows.lookup k = some f ∧ f.infos ≠ []
  index : ∀ k f, q.flows.lookup k = some f → f.infos ≠ [] → ∃ i, f.index = some i ∧ q.active[i]? = some k
  empty : ∀ k f, q.flows.lookup k = some f → f.infos = [] → hole = some k ∧ f.index = none
  next : ∀ n, q.next = some n → n < q.active.length

/-! ## Taking the head of a flow -/

section DropFrom
variable {quantum : Nat} {hole : Option FlowKey} {q q' : PacketQueue} {key : FlowKey} {f : Flow} {info : PqPacketInfo}
  {infos : List PqPacketInfo}

def Flow.popped (q : PacketQueue) (f : Flow) (info : PqPacketInfo) (infos : List PqPacketInfo) : Flow :=
  { f with infos, size := f.size - info.size, deficit := min f.deficit (q.quantum * 4) }

theorem Flow.bytes_cons (h : f.infos = info :: infos) : f.bytes = info.size + (infos.map PqPacketInfo.size).sum := by
  unfold Flow.bytes
  rw [h, map_cons, sum_cons]

theorem Valid.head_le (h : q.Valid quantum hole) (hf : q.flows.lookup key = some f) (hinfos : f.infos = info :: infos) :
    info.size ≤ f.size ∧ info.size ≤ q.size ∧ 1 ≤ q.count := by
  have hbytes := Flow.bytes_cons hinfos
  have hsize := le_total Flow.bytes hf
  have hcount := le_total (fun f : Flow => f.infos.length) hf
  rw [hinfos, length_cons] at hcount
  rw [h.flowSize key f hf, h.size, h.count]
  omega

def taken (q : PacketQueue) (key : FlowKey) (f : Flow) (info : PqPacketInfo) (infos : List PqPacketInfo) :
    PacketQueue :=
  { q with
    flows := q.flows.modify key fun _ => f.popped q info infos, size := q.size - info.size, count := q.count - 1 }

theorem lookup_taken (hf : q.flows.lookup key = some f) (k : FlowKey) :
    (q.taken key f info infos).flows.lookup k = if k = key then some (f.popped q info infos) else q.flows.lookup k := by
  unfold taken
  rw [lookup_modify]
  split
  next hk => rw [hk, hf, map_some]
  · exact map_id'

theorem dropFrom_eq (h : q.Valid quantum hole) (hf : q.flows.lookup key = some f) (hinfos : f.infos = info :: infos) :
    q.dropFrom key = ((q.taken key f info infos).removeFlowIfEmpty key).map fun q' => (some info, q') := by
  obtain ⟨hflow, hsize, hcount⟩ := h.head_le hf hinfos
  unfold dropFrom
  simp only [hf, hinfos, checkedSub_of_le hflow, checkedSub_of_le hsize, checkedSub_of_le hcount,
    bind_eq_bind, bind_some, map_eq_bind]
  rfl

theorem dropFrom_more (h : q.Valid quantum hole) (hf : q.flows.lookup key = some f) (hinfos : f.infos = info :: infos)
    (hmore : infos ≠ []) : q.dropFrom key = some (some info, q.taken key f info infos) := by
  have hfull : ¬ (f.popped q info infos).infos.isEmpty = true := by simpa [Flow.popped] using hmore
  rw [dropFrom_eq h hf hinfos, removeFlowIfEmpty, lookup_taken hf, if_pos rfl]
  simp [hfull]

def reindexed (q : PacketQueue) (key : FlowKey) (i : Nat) : HashMap FlowKey Flow :=
  (if i ≠ q.active.length - 1 then
    q.flows.modify (q.active.getLast?.getD key) fun mf => { mf with index := some i }
  else q.flows).modify key fun flow => { flow with index := none }

def recursor (q : PacketQueue) (i : Nat) : Option Nat :=
  if (q.active.swapRemove i).isEmpty then none
  else (if q.next = some (q.active.length - 1) then some i else q.next).map fun n =>
    if n ≥ (q.active.swapRemove i).length then 0 else n

variable {i : Nat} {k : FlowKey}

theorem deactivate_eq (hf : q.flows.lookup key = some f) (hindex : f.index = some i)
    (hi : i < q.active.length) : q.deactivate key = some { q with
      flows := q.reindexed key i, active := q.active.swapRemove i, next := q.recursor i } := by
  have hlast : q.active[q.active.length - 1]? = q.active.getLast? := getLast?_eq_getElem?.symm
  have hbound : ¬ q.active.length - 1 < i := by omega
  obtain ⟨moved, hmoved⟩ : ∃ moved, q.active.getLast? = some moved := by
    rw [getLast?_eq_getElem?]
    exact ⟨_, getElem?_eq_getElem (by omega)⟩
  unfold deactivate reindexed recursor
  simp only [hf, bind_some, hindex, checkedSub_of_le (show 1 ≤ q.active.length by omega),
    bind_eq_bind, if_neg hbound, hlast, hmoved, getD_some]
  rfl

theorem lookup_reindexed (hkey : q.active[i]? = some key) (hk : k ≠ key) : (q.reindexed key i).lookup k =
      (q.flows.lookup k).map fun f => if q.active.getLast? = some k then { f with index := some i } else f := by
  have hi : i < q.active.length := (List.getElem?_eq_some_iff.mp hkey).1
  unfold reindexed
  rw [lookup_modify]
  simp only [if_neg hk, Option.map_id']
  split
  next hne =>
    obtain ⟨moved, hmoved⟩ : ∃ moved, q.active.getLast? = some moved := by
      rw [getLast?_eq_getElem?]
      exact ⟨_, getElem?_eq_getElem (by omega)⟩
    rw [lookup_modify, hmoved]
    simp only [getD_some, some.injEq, eq_comm]
  next heq =>
    -- the flow that is removed was the last one itself
    have hlast : q.active.getLast? = some key := by
      rw [getLast?_eq_getElem?, ← hkey]
      congr 1
      omega
    have hne : ¬ key = k := fun h => hk h.symm
    simp [hlast, hne]

theorem total_reindexed (i : Nat) {g : Flow → Nat} (hg : ∀ (f : Flow) (n : Option Nat), g { f with index := n } = g f) :
    (q.reindexed key i).total g = q.flows.total g := by
  unfold reindexed
  rw [total_modify_same g fun f => hg f none]
  split
  · exact total_modify_same g fun f => hg f _
  · rfl

theorem lookup_reindexed_self (i : Nat) (hf : q.flows.lookup key = some f) :
    (q.reindexed key i).lookup key = some { f with index := none } := by
  unfold reindexed
  rw [lookup_modify]
  simp only [if_true]
  by_cases hlast : i ≠ q.active.length - 1
  · rw [if_pos hlast, lookup_modify, hf, map_some, map_some]
    split <;> rfl
  · rw [if_neg hlast, hf, map_some]

/-- A flow has left the ring, and the last one took its place. -/
structure Removed (q q' : PacketQueue) (key : FlowKey) (f : Flow) (info : PqPacketInfo) (i : Nat) : Prop where
  frame : q' = { q with
    flows := q'.flows, active := q.active.swapRemove i, next := q.recursor i, size := q.size - info.size
    count := q.count - 1 }
  lookup : ∀ k, q'.flows.lookup k = if k = key then none else
    (q.flows.lookup k).map fun f => if q.active.getLast? = some k then { f with index := some i } else f
  total : ∀ g : Flow → Nat, (∀ (f : Flow) (n : Option Nat), g { f with index := n } = g f) →
    q.flows.total g = g f + q'.flows.total g

section
variable (h : q.Valid quantum hole) (hf : q.flows.lookup key = some f)
include h hf

theorem dropFrom_last (hinfos : f.infos = [info]) :
    ∃ i q', f.index = some i ∧ q.active[i]? = some key ∧ q.dropFrom key = some (some info, q') ∧
      Removed q q' key f info i := by
  obtain ⟨i, hindex, hkey⟩ := h.index key f hf (by rw [hinfos]; exact cons_ne_nil _ _)
  have hi : i < q.active.length := (List.getElem?_eq_some_iff.mp hkey).1
  generalize hmid : q.taken key f info [] = mid
  have hmidlookup : ∀ k, mid.flows.lookup k = if k = key then some (f.popped q info []) else q.flows.lookup k := by
    rw [← hmid]
    exact lookup_taken hf
  have hpopped : mid.flows.lookup key = some (f.popped q info []) := by rw [hmidlookup, if_pos rfl]
  have hactive : mid.active = q.active := by rw [← hmid]; rfl
  have hdrop : q.dropFrom key = some (some info, { mid with
      flows := (mid.reindexed key i).remove key, active := mid.active.swapRemove i, next := mid.recursor i }) := by
    have hsome : (f.popped q info []).index.isSome = true := isSome_iff_exists.mpr ⟨i, hindex⟩
    rw [dropFrom_eq h hf hinfos, hmid, removeFlowIfEmpty, hpopped]
    dsimp only
    rw [deactivate_eq hpopped hindex (by rw [hactive]; exact hi), if_pos hsome]
    rfl
  refine ⟨i, _, hindex, hkey, hdrop, ?_, fun k => ?_, fun g hg => ?_⟩
  · rw [← hmid]
    rfl
  · rw [lookup_remove]
    split
    · rfl
    next hk => rw [lookup_reindexed (by rw [hactive]; exact hkey) hk, hmidlookup, if_neg hk, hactive]
  have hremove := total_remove g (lookup_reindexed_self i hpopped)
  have hmodify : mid.flows.total g + g f = q.flows.total g + g (f.popped q info []) := by
    rw [← hmid]
    exact total_modify g hf _
  rw [total_reindexed i hg, hg] at hremove
  dsimp only
  omega

theorem Valid.modify {g : Flow} {size count : Nat}
    (hindex : g.index = f.index) (hempty : g.infos = [] ↔ f.infos = []) (hflow : g.size = g.bytes)
    (hpos : ∀ info ∈ g.infos, 0 < info.size) (hper : g.bytes ≤ q.maxBytesPerFlow)
    (hsize : size + f.bytes = q.size + g.bytes) (hcount : count + f.infos.length = q.count + g.infos.length)
    (htotal : size ≤ q.maxBytesTotal) :
    Valid quantum hole { q with flows := q.flows.modify key fun _ => g, size, count } := by
  have hbytes := total_modify Flow.bytes hf fun _ => g
  have hlengths := total_modify (fun f : Flow => f.infos.length) hf fun _ => g
  have hold := h.size
  have hcountold := h.count
  refine { h with size := ?_, count := ?_, total := htotal, active := ?_, index := ?_, empty := ?_
                  flowSize := forall_modify h.flowSize fun _ _ => hflow
                  positive := forall_modify h.positive fun _ _ => hpos
                  perFlow := forall_modify h.perFlow fun _ _ => hper }
  · dsimp only
    omega
  · dsimp only
    omega
  · intro k
    rw [h.active k, lookup_modify]
    by_cases hk : k = key
    · simp only [hk, hf, map_some, if_true, some.injEq, exists_eq_left', ne_eq, hempty]
    · simp only [hk, if_false, Option.map_id']
  · refine HashMap.forall_modify h.index fun _ _ hne => ?_
    rw [hindex]
    exact h.index key f hf fun hnil => hne (hempty.mpr hnil)
  refine HashMap.forall_modify h.empty fun _ _ hnil => ?_
  rw [hindex]
  exact h.empty key f hf (hempty.mp hnil)

theorem Valid.taken (hinfos : f.infos = info :: infos)
    (hmore : infos ≠ []) : (q.taken key f info infos).Valid quantum hole := by
  obtain ⟨hflow, hsize, hcount⟩ := h.head_le hf hinfos
  have hbytes := Flow.bytes_cons hinfos
  have hpopped : (f.popped q info infos).bytes = (infos.map PqPacketInfo.size).sum := rfl
  have hlengths : f.infos.length = (f.popped q info infos).infos.length + 1 := by rw [hinfos]; rfl
  have hold := h.flowSize key f hf
  have hper := h.perFlow key f hf
  have htotal := h.total
  refine h.modify hf rfl (iff_of_false hmore (by rw [hinfos]; exact cons_ne_nil _ _)) ?_ (fun i hi => ?_)
    (by omega) (by omega) (by omega) (by omega)
  · show f.size - info.size = _
    omega
  · exact h.positive key f hf i (by rw [hinfos]; exact mem_cons_of_mem _ hi)

end

theorem Removed.exists_lookup (hr : Removed q q' key f info i) {g : Flow} (hg : q'.flows.lookup k = some g) :
    k ≠ key ∧ ∃ g', q.flows.lookup k = some g' ∧
      g = if q.active.getLast? = some k then { g' with index := some i } else g' := by
  rw [hr.lookup, ite_none_left_eq_some, map_eq_some_iff] at hg
  obtain ⟨hk, g', hg', rfl⟩ := hg
  exact ⟨hk, g', hg', rfl⟩

theorem Removed.forall_lookup (hr : Removed q q' key f info i) {P : FlowKey → Flow → Prop}
    (hP : ∀ k (g : Flow) (n : Option Nat), P k g → P k { g with index := n })
    (h : ∀ k g, q.flows.lookup k = some g → P k g) : ∀ k g, q'.flows.lookup k = some g → P k g := by
  intro k g hg
  obtain ⟨-, g', hg', rfl⟩ := hr.exists_lookup hg
  split
  · exact hP k g' _ (h k g' hg')
  · exact h k g' hg'

theorem Removed.index (h : q.Valid quantum hole) (hkey : q.active[i]? = some key) (hr : Removed q q' key f info i)
    {g : Flow} (hg : q'.flows.lookup k = some g) (hne : g.infos ≠ []) :
    ∃ j, g.index = some j ∧ q'.active[j]? = some k := by
  have hi : i < q.active.length := (List.getElem?_eq_some_iff.mp hkey).1
  have hactive : q'.active = q.active.swapRemove i := by rw [hr.frame]
  obtain ⟨hk, g', hg', rfl⟩ := hr.exists_lookup hg
  by_cases hlast : q.active.getLast? = some k
  · -- the last flow has moved to the place of the flow that is gone, and is another flow
    have hlt : i + 1 < q.active.length := by
      by_contra hge
      rw [getLast?_eq_getElem?, show q.active.length - 1 = i by omega, hkey] at hlast
      exact hk (some.inj hlast).symm
    refine ⟨i, by rw [if_pos hlast], ?_⟩
    rw [hactive, getElem?_swapRemove _ _ _ hlt, if_pos rfl, hlast]
  rw [if_neg hlast] at hne ⊢
  obtain ⟨j, hj, hjk⟩ := h.index k g' hg' hne
  have hjlt : j < q.active.length := (List.getElem?_eq_some_iff.mp hjk).1
  have hlt : j + 1 < q.active.length := by
    by_contra hge
    apply hlast
    rw [getLast?_eq_getElem?, ← hjk]
    congr 1
    omega
  have hji : j ≠ i := by
    rintro rfl
    rw [hkey] at hjk
    exact hk (some.inj hjk).symm
  exact ⟨j, hj, by rw [hactive, getElem?_swapRemove _ _ _ hlt, if_neg hji, hjk]⟩

theorem recursor_lt {n : Nat} (hn : q.recursor i = some n) : n < (q.active.swapRemove i).length := by
  unfold recursor at hn
  rw [ite_none_left_eq_some, map_eq_some_iff] at hn
  obtain ⟨hne, m, -, rfl⟩ := hn
  have hpos := length_pos_iff.mpr (isEmpty_iff.not.mp hne)
  split
  · exact hpos
  · omega

theorem Valid.removed (h : q.Valid quantum hole) (hinfos : f.infos = [info]) (hkey : q.active[i]? = some key)
    (hr : Removed q q' key f info i) : q'.Valid quantum hole := by
  have hi : i < q.active.length := (List.getElem?_eq_some_iff.mp hkey).1
  have hbytes : f.bytes = info.size := Flow.bytes_cons hinfos
  have hbooks := hr.total Flow.bytes fun _ _ => rfl
  have hlength := hr.total (fun f => f.infos.length) fun _ _ => rfl
  have hone : f.infos.length = 1 := by rw [hinfos, length_singleton]
  have hsize := h.size
  have hcount := h.count
  have htotal := h.total
  have hindex := fun k g => hr.index h hkey (k := k) (g := g)
  obtain ⟨flows, rfl⟩ : ∃ flows, q' = { q with
    flows, active := q.active.swapRemove i, next := q.recursor i, size := q.size - info.size
    count := q.count - 1 } := ⟨_, hr.frame⟩
  dsimp only at hbooks hlength
  refine { h with size := ?_, count := ?_, total := ?_, active := ?_, index := hindex, empty := ?_
                  flowSize := hr.forall_lookup (fun _ _ _ hP => hP) h.flowSize
                  positive := hr.forall_lookup (fun _ _ _ hP => hP) h.positive
                  perFlow := hr.forall_lookup (fun _ _ _ hP => hP) h.perFlow
                  nodup := h.nodup.swapRemove hi, next := fun n hn => recursor_lt hn }
  · dsimp only
    omega
  · dsimp only
    omega
  · dsimp only
    omega
  · intro k
    rw [h.nodup.mem_swapRemove_iff hkey, h.active k]
    constructor
    · rintro ⟨⟨g, hg, hne⟩, hk⟩
      refine ⟨_, by rw [hr.lookup, if_neg hk, hg, map_some], ?_⟩
      split <;> exact hne
    rintro ⟨g, hg, hne⟩
    obtain ⟨hk, g', hg', rfl⟩ := hr.exists_lookup hg
    refine ⟨⟨g', hg', ?_⟩, hk⟩
    split at hne <;> exact hne
  intro k g hg hempty
  obtain ⟨-, g', hg', rfl⟩ := hr.exists_lookup hg
  by_cases hlast : q.active.getLast? = some k
  · -- a flow of the ring is not empty
    obtain ⟨g'', hg'', hne⟩ := (h.active k).mp (mem_of_getLast? hlast)
    rw [hg'] at hg''
    cases hg''
    rw [if_pos hlast] at hempty
    exact absurd hempty hne
  rw [if_neg hlast] at hempty ⊢
  exact h.empty k g' hg' hempty

def backlog (q : PacketQueue) (k : FlowKey) : Nat := (q.flows.lookup k).elim 0 Flow.size

structure Shrunk (q q' : PacketQueue) (size : Nat) : Prop where
  count : q'.count + 1 = q.count
  size : q'.size + size = q.size
  backlog : ∀ k, q'.backlog k ≤ q.backlog k

theorem Valid.dropFrom (h : q.Valid quantum hole) (hf : q.flows.lookup key = some f)
    (hinfos : f.infos = info :: infos) :
    ∃ q', q.dropFrom key = some (some info, q') ∧ q'.Valid quantum hole ∧ Shrunk q q' info.size := by
  obtain ⟨hflow, hsize, hcount⟩ := h.head_le hf hinfos
  by_cases hmore : infos = []
  · rw [hmore] at hinfos
    obtain ⟨i, q', -, hkey, hdrop, hr⟩ := dropFrom_last h hf hinfos
    have hsize' : q'.size = q.size - info.size := by rw [hr.frame]
    have hcount' : q'.count = q.count - 1 := by rw [hr.frame]
    refine ⟨q', hdrop, h.removed hinfos hkey hr, by omega, by omega, fun k => ?_⟩
    unfold backlog
    rw [hr.lookup]
    split
    · exact zero_le _
    cases q.flows.lookup k with
    | none => exact le_refl _
    | some g => rw [map_some]; split <;> exact le_refl _
  refine ⟨_, dropFrom_more h hf hinfos hmore, h.taken hf hinfos hmore, Nat.sub_add_cancel hcount,
    Nat.sub_add_cancel hsize, fun k => ?_⟩
  rw [backlog, backlog, lookup_taken hf]
  split
  next hk => rw [hk, hf]; exact Nat.sub_le _ _
  · exact le_refl _

end DropFrom

/-! ## Eviction -/

theorem maxBy_mem {α : Type} {cmp : α → α → Ordering} {xs : List α} {a : α} (h : maxBy cmp xs = some a) : a ∈ xs := by
  cases xs with
  | nil => exact absurd h nofun
  | cons x xs =>
    cases h
    induction xs generalizing x with
    | nil => exact mem_cons_self
    | cons y ys ih =>
      rw [foldl_cons]
      have hmem := ih (if cmp x y = .gt then x else y)
      rcases mem_cons.mp hmem with heq | hys
      · rw [heq]
        split <;> simp
      · exact mem_cons_of_mem _ (mem_cons_of_mem _ hys)

section Evict
variable {quantum : Nat} {hole : Option FlowKey} {q : PacketQueue} {key : FlowKey} {f : Flow}

theorem mem_of_largestFlow (h : q.largestFlow = some key) :
    ∃ f info infos, q.flows.lookup key = some f ∧ f.infos = info :: infos := by
  obtain ⟨a, ha, rfl⟩ := map_eq_some_iff.mp h
  obtain ⟨k, -, hk⟩ := mem_filterMap.mp (maxBy_mem ha)
  obtain ⟨f, hf, hhead⟩ := bind_eq_some_iff.mp hk
  obtain ⟨info, hinfo, rfl⟩ := map_eq_some_iff.mp hhead
  obtain ⟨infos, hinfos⟩ := head?_eq_some_iff.mp hinfo
  exact ⟨f, info, infos, hf, hinfos⟩

theorem Valid.exists_largestFlow (h : q.Valid quantum hole) (hsize : 0 < q.size) : ∃ key, q.largestFlow = some key := by
  rw [h.size] at hsize
  obtain ⟨k, f, hf, hpos⟩ := exists_pos_of_total_pos _ hsize
  have hne : f.infos ≠ [] := by
    intro hempty
    unfold Flow.bytes at hpos
    rw [hempty] at hpos
    exact absurd hpos (lt_irrefl 0)
  have hactive := (h.active k).mpr ⟨f, hf, hne⟩
  obtain ⟨info, infos, hinfos⟩ := exists_cons_of_ne_nil hne
  have hmem : (k, f.size, info.time) ∈ q.active.filterMap fun k =>
      (q.flows.lookup k).bind fun f => f.infos.head?.map fun head => (k, f.size, head.time) := by
    refine mem_filterMap.mpr ⟨k, hactive, ?_⟩
    rw [hf, bind_some, hinfos, head?_cons, map_some]
  unfold largestFlow
  generalize q.active.filterMap _ = heads at hmem
  cases heads with
  | nil => exact absurd hmem not_mem_nil
  | cons x xs => exact ⟨_, rfl⟩

end Evict

/-! ## Appending a packet -/

section Append
variable {quantum : Nat} {hole : Option FlowKey} {q : PacketQueue} {key : FlowKey} {f : Flow} {info : PqPacketInfo}

theorem Valid.weaken (h : q.Valid quantum none) (hole : Option FlowKey) : q.Valid quantum hole :=
  { h with empty := fun k f hf hempty => absurd (h.empty k f hf hempty).1 nofun }

theorem Valid.flowFor (h : q.Valid quantum (some key)) :
    (q.flowFor key).Valid quantum (some key) ∧ (∃ f, (q.flowFor key).flows.lookup key = some f) ∧
      (q.flowFor key).backlog key = q.backlog key ∧ (q.flowFor key).size = q.size ∧
      (q.flowFor key).count = q.count := by
  unfold PacketQueue.flowFor backlog
  cases hf : q.flows.lookup key with
  | some f => exact ⟨h, ⟨f, hf⟩, by dsimp only; rw [hf], rfl, rfl⟩
  | none =>
    have hself : ∀ v : Flow, (q.flows.insert key v).lookup key = some v := by
      intro v
      rw [lookup_insert, if_pos rfl]
    refine ⟨?_, ⟨_, hself _⟩, by dsimp only; rw [hself]; rfl, rfl, rfl⟩
    refine { h with size := ?_, count := ?_, flowSize := ?_, positive := ?_, perFlow := ?_, active := ?_
                    index := ?_, empty := ?_ }
    · rw [total_insert _ hf, h.size]
      exact (zero_add _).symm
    · rw [total_insert _ hf, h.count]
      exact (zero_add _).symm
    · exact forall_insert h.flowSize rfl
    · exact forall_insert h.positive nofun
    · exact forall_insert h.perFlow (zero_le _)
    · intro k
      rw [h.active k, lookup_insert]
      by_cases hk : k = key
      · rw [if_pos hk, hk, hf]
        exact iff_of_false (fun ⟨_, hnone, _⟩ => absurd hnone nofun)
          (fun ⟨g, hg, hne⟩ => by obtain rfl := some.inj hg; exact hne rfl)
      · rw [if_neg hk]
    · exact forall_insert h.index fun hne => absurd rfl hne
    · exact forall_insert h.empty fun _ => ⟨rfl, rfl⟩

def Flow.pushed (f : Flow) (info : PqPacketInfo) (i : Nat) : Flow :=
  { f with infos := f.infos ++ [info], size := f.size + info.size, index := some i }

theorem Flow.bytes_pushed (f : Flow) (info : PqPacketInfo) (i : Nat) :
    (f.pushed info i).bytes = f.bytes + info.size := by
  unfold Flow.bytes Flow.pushed
  rw [map_append, List.sum_append, map_singleton, sum_singleton]

theorem Valid.pushed {i : Nat} {active : List FlowKey} (h : q.Valid quantum (some key))
    (hf : q.flows.lookup key = some f) (hpos : 0 < info.size) (htotal : q.size + info.size ≤ q.maxBytesTotal)
    (hroom : f.size + info.size ≤ q.maxBytesPerFlow) (hi : active[i]? = some key) (hnodup : active.Nodup)
    (hmem : ∀ k, k ∈ active ↔ k = key ∨ k ∈ q.active)
    (hgrow : ∀ (j : Nat) k, q.active[j]? = some k → active[j]? = some k) (hlength : q.active.length ≤ active.length) :
    Valid quantum none { q with
      flows := q.flows.modify key fun _ => f.pushed info i
      active, size := q.size + info.size, count := q.count + 1 } := by
  have hbytes := Flow.bytes_pushed f info i
  have hsize := total_modify Flow.bytes hf fun _ => f.pushed info i
  have hcount := total_modify (fun f : Flow => f.infos.length) hf fun _ => f.pushed info i
  have hinfos : (f.pushed info i).infos.length = f.infos.length + 1 := length_append
  have hne : (f.pushed info i).infos ≠ [] := append_ne_nil_of_right_ne_nil _ (cons_ne_nil _ _)
  have hold := h.size
  have hcountold := h.count
  have hflow := h.flowSize key f hf
  refine { h with size := ?_, count := ?_, flowSize := ?_, positive := ?_, perFlow := ?_, total := htotal
                  nodup := hnodup, active := ?_, index := ?_, empty := ?_, next := ?_ }
  · dsimp only
    omega
  · dsimp only
    omega
  · refine forall_modify h.flowSize fun _ _ => ?_
    rw [hbytes, ← hflow]
    rfl
  · refine forall_modify h.positive fun _ _ j hj => ?_
    rcases mem_append.mp hj with hj | hj
    · exact h.positive key f hf j hj
    rw [mem_singleton.mp hj]
    exact hpos
  · refine forall_modify h.perFlow fun _ _ => ?_
    rw [hbytes, ← hflow]
    exact hroom
  · intro k
    rw [hmem, h.active, lookup_modify]
    by_cases hk : k = key
    · rw [hk, hf, map_some]
      exact iff_of_true (.inl rfl) ⟨_, rfl, by rw [if_pos rfl]; exact hne⟩
    · simp only [hk, false_or, if_false, Option.map_id']
  · refine HashMap.forall_modify (fun k g hg hgne => ?_) fun _ _ _ => ⟨i, rfl, hi⟩
    obtain ⟨j, hj, hjk⟩ := h.index k g hg hgne
    exact ⟨j, hj, hgrow j k hjk⟩
  · intro k g hg hempty
    rw [lookup_modify, map_eq_some_iff] at hg
    obtain ⟨g', hg', rfl⟩ := hg
    by_cases hk : k = key
    · rw [if_pos hk] at hempty
      exact absurd hempty hne
    rw [if_neg hk] at hempty
    exact absurd (some.inj (h.empty k g' hg' hempty).1).symm hk
  intro n hn
  exact (h.next n hn).trans_le hlength

theorem Valid.append (h : q.Valid quantum (some key)) (hpos : 0 < info.size)
    (htotal : q.size + info.size ≤ q.maxBytesTotal) (hroom : q.backlog key + info.size ≤ q.maxBytesPerFlow) :
    (q.append key info).Valid quantum none := by
  obtain ⟨hvalid, ⟨f, hf⟩, hbacklog, hsize, -⟩ := h.flowFor
  unfold PacketQueue.append
  have hcapTotal := hvalid.capTotal
  have hcapPerFlow := hvalid.capPerFlow
  rw [← h.capTotal] at hcapTotal
  rw [← h.capPerFlow] at hcapPerFlow
  generalize q.flowFor key = q' at *
  have hflow : f.size + info.size ≤ q'.maxBytesPerFlow := by
    unfold backlog at hbacklog
    rw [hf] at hbacklog
    rw [hcapPerFlow]
    rw [← show f.size = q.backlog key from hbacklog] at hroom
    exact hroom
  have htotal' : q'.size + info.size ≤ q'.maxBytesTotal := by rw [hcapTotal, hsize]; exact htotal
  by_cases hempty : f.infos = []
  · -- a new flow, or one that the eviction has emptied: it enters the ring
    obtain ⟨-, hindex⟩ := hvalid.empty key f hf hempty
    have hnotmem : key ∉ q'.active := by
      intro hmem
      obtain ⟨g, hg, hne⟩ := (hvalid.active key).mp hmem
      rw [hf] at hg
      cases hg
      exact hne hempty
    have hneeds : ((q'.flows.lookup key).bind Flow.index).isNone = true := by rw [hf, bind_some, hindex]; rfl
    rw [if_pos hneeds]
    unfold activate
    dsimp only
    rw [modify_modify]
    have hflows : (q'.flows.modify key fun flow => { flow with
        infos := flow.infos ++ [info], size := flow.size + info.size, index := some q'.active.length }) =
        q'.flows.modify key fun _ => f.pushed info q'.active.length := modify_congr hf rfl
    rw [hflows]
    refine hvalid.pushed hf hpos htotal' hflow getElem?_concat_length ?_ ?_ ?_ ?_
    · rw [← concat_eq_append]
      exact hvalid.nodup.concat hnotmem
    · intro k
      rw [mem_append, mem_singleton, or_comm]
    · intro j k hj
      rw [List.getElem?_append_left (List.getElem?_eq_some_iff.mp hj).1, hj]
    rw [length_append]
    exact le_add_right _ _
  obtain ⟨i, hindex, hi⟩ := hvalid.index key f hf hempty
  have hneeds : ¬ ((q'.flows.lookup key).bind Flow.index).isNone = true := by
    rw [hf, bind_some, hindex]
    exact Bool.false_ne_true
  have hflows : (q'.flows.modify key fun flow => { flow with
      infos := flow.infos ++ [info], size := flow.size + info.size }) =
      q'.flows.modify key fun _ => f.pushed info i := by
    apply modify_congr hf
    unfold Flow.pushed
    rw [← hindex]
  rw [if_neg hneeds, hflows]
  refine hvalid.pushed hf hpos htotal' hflow hi hvalid.nodup ?_ (fun _ _ hj => hj) (le_refl _)
  intro k
  constructor
  · exact .inr
  rintro (rfl | hk)
  · exact mem_of_getElem? hi
  · exact hk

end Append

variable {quantum : Nat}

/-! ## Deficit round robin -/

section Pop
variable {quantum : Nat} {hole : Option FlowKey} {q : PacketQueue} {key : FlowKey} {f : Flow}
  {info : PqPacketInfo} {idx : Nat}

theorem Valid.deficit (h : q.Valid quantum hole) (key : FlowKey) (d : Flow → Nat) :
    Valid quantum hole { q with flows := q.flows.modify key fun flow => { flow with deficit := d flow } } := by
  cases hf : q.flows.lookup key with
  | none =>
    rw [modify_of_lookup_eq_none hf]
    exact h
  | some f =>
    rw [modify_congr hf (g := fun _ => { f with deficit := d f }) rfl]
    exact h.modify hf rfl Iff.rfl (h.flowSize key f hf) (h.positive key f hf) (h.perFlow key f hf) rfl rfl h.total

section
variable (h : q.Valid quantum hole)
include h

theorem Valid.cursor {n : Option Nat} (hn : ∀ i, n = some i → i < q.active.length) :
    Valid quantum hole { q with next := n } :=
  { h with next := hn }

theorem Valid.credit (key : FlowKey) : (q.credit key).Valid quantum hole := h.deficit key _

theorem Valid.spend (key : FlowKey) (size : Nat) : (q.spend key size).Valid quantum hole := h.deficit key _

theorem Valid.exists_head (hkey : key ∈ q.active) :
    ∃ f info infos, q.flows.lookup key = some f ∧ f.infos = info :: infos := by
  obtain ⟨f, hf, hne⟩ := (h.active key).mp hkey
  obtain ⟨info, infos, hinfos⟩ := exists_cons_of_ne_nil hne
  exact ⟨f, info, infos, hf, hinfos⟩

end

def advance (q : PacketQueue) (idx : Nat) (key : FlowKey) : PacketQueue := { q with next := some idx }.credit key

theorem popLoop_serve (h : q.Valid quantum hole) (hkey : key ∈ q.active) (hserve : q.serveable key = true)
    (idx fuel : Nat) : ∃ info q', q.popLoop (fuel + 1) idx key = some (info, q'.spend key info.size) ∧
      q.dropFrom key = some (some info, q') ∧ q'.Valid quantum hole ∧ Shrunk q q' info.size := by
  obtain ⟨f, info, infos, hf, hinfos⟩ := h.exists_head hkey
  obtain ⟨q', hdrop, hvalid, hshrunk⟩ := h.dropFrom hf hinfos
  refine ⟨info, q', ?_, hdrop, hvalid, hshrunk⟩
  unfold popLoop
  rw [if_pos hserve, hdrop]
  rfl

theorem popLoop_advance (hserve : q.serveable key = false) {next : FlowKey}
    (hnext : q.active[if idx + 1 ≥ q.active.length then 0 else idx + 1]? = some next) (fuel : Nat) :
    q.popLoop (fuel + 1) idx key = (q.advance (if idx + 1 ≥ q.active.length then 0 else idx + 1) next).popLoop fuel
        (if idx + 1 ≥ q.active.length then 0 else idx + 1) next := by
  conv_lhs => unfold popLoop
  rw [if_neg (by rw [hserve]; exact Bool.false_ne_true), bind_eq_bind, bind_some]
  dsimp only
  rw [hnext, bind_eq_bind, bind_some]
  rfl

def visits (quantum deficit : Nat) : Nat := if 2 ^ 64 ≤ deficit + quantum then 17 else 16 - deficit / quantum

def turns (length idx j : Nat) : Nat := if idx < j then j - idx else j + length - idx

theorem visits_credit {quantum deficit : Nat} (hpos : 0 < quantum) (hfits : quantum * 64 < 2 ^ 64)
    (hlow : (deficit + quantum) % 2 ^ 64 < quantum * 16) :
    1 ≤ visits quantum ((deficit + quantum) % 2 ^ 64) ∧
      visits quantum ((deficit + quantum) % 2 ^ 64) < visits quantum deficit := by
  have hdiv : (deficit + quantum) % 2 ^ 64 / quantum < 16 := Nat.div_lt_of_lt_mul hlow
  have hafter : visits quantum ((deficit + quantum) % 2 ^ 64) = 16 - (deficit + quantum) % 2 ^ 64 / quantum := by
    exact if_neg (by omega)
  rw [hafter]
  unfold visits
  split
  · exact ⟨Nat.sub_pos_of_lt hdiv, Nat.lt_succ_of_le (Nat.sub_le _ _)⟩
  next hnowrap =>
    rw [mod_eq_of_lt (by omega), add_div_right _ hpos] at hdiv ⊢
    omega

theorem Valid.deficit_lt (h : q.Valid quantum hole) (hf : q.flows.lookup key = some f) (hne : f.infos ≠ [])
    (hserve : q.serveable key = false) : f.deficit < quantum * 16 := by
  obtain ⟨info, infos, hinfos⟩ := exists_cons_of_ne_nil hne
  have hhead : f.deficit < info.size := by
    unfold serveable at hserve
    simpa [hf, hinfos] using hserve
  have hbytes := Flow.bytes_cons hinfos
  have hcap := h.perFlow key f hf
  rw [h.capPerFlow] at hcap
  omega

theorem lookup_advance (q : PacketQueue) (idx : Nat) (key k : FlowKey) :
    (q.advance idx key).flows.lookup k = (q.flows.lookup k).map fun f =>
      if k = key then { f with deficit := (f.deficit + q.quantum) % 2 ^ 64 } else f := lookup_modify ..

theorem Valid.popLoop {j : Nat} {kj : FlowKey} :
    ∀ {fuel : Nat} {q : PacketQueue} {idx : Nat} {key : FlowKey} {f : Flow},
    q.Valid quantum hole → q.active[idx]? = some key → q.active[j]? = some kj → q.flows.lookup kj = some f →
    turns q.active.length idx j + q.active.length * (visits quantum f.deficit - 1) < fuel →
    ∃ info q', q.popLoop fuel idx key = some (info, q') ∧ q'.Valid quantum hole ∧ q'.count + 1 = q.count
  | 0, _, _, _, _, _, _, _, _, hfuel => absurd hfuel (Nat.not_lt_zero _)
  | fuel + 1, q, idx, key, f, h, hkey, hj, hf, hfuel => by
    have hidx : idx < q.active.length := (List.getElem?_eq_some_iff.mp hkey).1
    have hjlt : j < q.active.length := (List.getElem?_eq_some_iff.mp hj).1
    have hturns : 0 < turns q.active.length idx j := by unfold turns; split <;> omega
    cases hserve : q.serveable key with
    | true =>
      obtain ⟨info, q', hpop, -, hvalid, hshrunk⟩ := popLoop_serve h (mem_of_getElem? hkey) hserve idx fuel
      exact ⟨info, _, hpop, hvalid.spend _ _, hshrunk.count⟩
    | false =>
      generalize hidx' : (if idx + 1 ≥ q.active.length then 0 else idx + 1) = idx'
      have hlt : idx' < q.active.length := by rw [← hidx']; split <;> omega
      have hnext := getElem?_eq_getElem hlt
      generalize q.active[idx'] = next at hnext
      have hadvance : q.popLoop (fuel + 1) idx key = (q.advance idx' next).popLoop fuel idx' next := by
        rw [popLoop_advance hserve (by rw [hidx']; exact hnext), hidx']
      rw [hadvance]
      have hvalid : (q.advance idx' next).Valid quantum hole :=
        (h.cursor fun i hi => by obtain rfl := some.inj hi; exact hlt).credit next
      by_cases hdone : (q.advance idx' next).serveable next = true
      · obtain ⟨fuel, rfl⟩ : ∃ n, fuel = n + 1 := exists_eq_succ_of_ne_zero (by omega)
        obtain ⟨info, q', hpop, -, hvalid', hshrunk⟩ :=
          popLoop_serve hvalid (mem_of_getElem? hnext) hdone idx' fuel
        exact ⟨info, _, hpop, hvalid'.spend _ _, hshrunk.count⟩
      -- the measure has gone down: one turn nearer to `j`, or one visit less when the cursor has come to it
      have hfj := q.lookup_advance idx' next kj
      rw [hf, map_some, h.share] at hfj
      refine hvalid.popLoop hnext hj hfj ?_
      show turns q.active.length idx' j + q.active.length * (visits quantum _ - 1) < fuel
      by_cases hat : idx' = j
      · obtain rfl : kj = next := by
          rw [hat, hj] at hnext
          exact some.inj hnext
        rw [if_pos rfl] at hfj ⊢
        have hne : f.infos ≠ [] := by
          obtain ⟨g, hg, hne⟩ := (h.active kj).mp (mem_of_getElem? hj)
          rw [hf] at hg
          cases hg
          exact hne
        have hlow := hvalid.deficit_lt hfj hne (Bool.eq_false_iff.mpr hdone)
        obtain ⟨hone, hless⟩ := visits_credit h.pos h.fits hlow
        generalize visits quantum ((f.deficit + quantum) % 2 ^ 64) = after at *
        generalize visits quantum f.deficit = before at *
        have hturn : turns q.active.length idx' j = q.active.length := by
          unfold turns
          rw [if_neg (by omega)]
          omega
        have hround : q.active.length + q.active.length * (after - 1) ≤ q.active.length * (before - 1) := by
          rw [add_comm, ← mul_succ]
          exact mul_le_mul_left _ (by omega)
        omega
      have hkj : ¬ kj = next := by
        rintro rfl
        exact hat ((getElem?_inj hlt h.nodup).mp (hnext.trans hj.symm))
      rw [if_neg hkj]
      have hturn : turns q.active.length idx' j + 1 = turns q.active.length idx j := by
        unfold turns
        split_ifs at * <;> omega
      omega

theorem Valid.popInfo (h : q.Valid quantum hole) : ∃ r q', q.popInfo = some (r, q') ∧ q'.Valid quantum hole ∧
    (r = none ∨ q'.count + 1 = q.count) := by
  unfold PacketQueue.popInfo
  split
  · exact ⟨none, _, rfl, h.cursor nofun, .inl rfl⟩
  next hne =>
    have hpos : 0 < q.active.length := by
      rw [Bool.or_eq_true, not_or, List.isEmpty_iff] at hne
      exact length_pos_iff.mpr hne.2
    generalize hidx : (q.next.elim 0 fun n => if n ≥ q.active.length then 0 else n) = idx
    have hlt : idx < q.active.length := by
      rw [← hidx]
      cases q.next with
      | none => exact hpos
      | some n => show (if _ then _ else _) < _; split <;> omega
    have hkey := getElem?_eq_getElem hlt
    generalize q.active[idx] = key at hkey
    have hcursor : Valid quantum hole { q with next := some idx } :=
      h.cursor fun i hi => by obtain rfl := some.inj hi; exact hlt
    -- the flow under the cursor itself is served after seventeen rounds at most
    have hstart : ∀ start : PacketQueue, start.Valid quantum hole → start.active = q.active → start.count = q.count →
        ∃ info q', start.popLoop (17 * q.active.length + 1) idx key = some (info, q') ∧ q'.Valid quantum hole ∧
          q'.count + 1 = q.count := by
      intro start hvalid hactive hcount
      rw [← hactive] at hkey hlt
      obtain ⟨f, -, -, hf, -⟩ := hvalid.exists_head (mem_of_getElem? hkey)
      rw [← hactive, ← hcount]
      refine hvalid.popLoop hkey hkey hf ?_
      have hturn : turns start.active.length idx idx = start.active.length := by
        unfold turns
        rw [if_neg (by omega)]
        omega
      have hvisits : visits quantum f.deficit - 1 ≤ 16 := by
        unfold visits
        split
        · exact le_refl _
        · exact (Nat.sub_le _ _).trans (Nat.sub_le _ _)
      have := mul_le_mul_left start.active.length hvisits
      omega
    dsimp only
    rw [hkey, bind_eq_bind, bind_some]
    obtain ⟨info, q', hpop, hvalid, hcount⟩ :
        ∃ info q', (if q.next.isNone = true then PacketQueue.credit { q with next := some idx } key
          else { q with next := some idx }).popLoop (17 * q.active.length + 1) idx key = some (info, q') ∧
          q'.Valid quantum hole ∧ q'.count + 1 = q.count := by
      split
      · exact hstart _ (hcursor.credit key) rfl rfl
      · exact hstart _ hcursor rfl rfl
    exact ⟨some info, q', by rw [hpop]; rfl, hvalid, .inr hcount⟩

end Pop

/-! ## CoDel -/

section Codel
variable {quantum : Nat} {hole : Option FlowKey} {q : PacketQueue}

theorem Valid.withCodel (h : q.Valid quantum hole) (codel : Codel) : Valid quantum hole { q with codel } := { h with }

theorem codelShouldDrop_frame (q : PacketQueue) (info : Option PqPacketInfo) (now : Instant) :
    (q.codelShouldDrop info now).2 = { q with codel := (q.codelShouldDrop info now).2.codel } := by
  unfold codelShouldDrop
  cases info with
  | none => rfl
  | some pkt =>
    dsimp only
    split
    · rfl
    · split <;> rfl

end Codel

/-! ## The calls -/

inductive Op where
  | push (packet : TrafficPacket) (now : Instant)
  | dropLargest
  | popInfo
  | popCodel (now : Instant)

variable (codelControlLaw : Instant → UInt32 → Instant)

def exec (q : PacketQueue) : Op → Option PacketQueue
  | .push packet now => q.push packet now
  | .dropLargest => q.dropLargest.map Prod.snd
  | .popInfo => q.popInfo.map Prod.snd
  | .popCodel now => (q.popCodel codelControlLaw now).map Prod.snd

theorem Valid.new (hfits : (PacketQueue.new quantum).maxBytesTotal < 2 ^ 64) :
    (PacketQueue.new quantum).Valid (PacketQueue.new quantum).quantum none where
  pos := by
    show 0 < if quantum = 0 then DEFAULT_MAX_MESSAGE_SIZE else quantum
    split
    · decide
    · omega
  fits := hfits
  share := rfl
  capTotal := rfl
  capPerFlow := rfl
  size := rfl
  count := rfl
  flowSize := nofun
  positive := nofun
  perFlow := nofun
  total := zero_le _
  nodup := nodup_nil
  active := fun _ => iff_of_false not_mem_nil fun ⟨_, hf, _⟩ => absurd hf nofun
  index := nofun
  empty := nofun
  next := nofun

end PacketQueue

end Yggdrasil
