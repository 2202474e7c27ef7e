import Yggdrasil.Traffic.Invariant

/-!
# How long a flow waits

The queue under pushes and pops that evict nothing, with packets no larger than the quantum.
-/

namespace Yggdrasil
open Nat PacketQueue List Option HashMap

def TrafficPacket.flowKey (packet : TrafficPacket) : PacketQueue.FlowKey :=
  { source := packet.source, dest := packet.dest }

namespace PacketQueue

/-! ## Pushes and pops -/

variable (q : PacketQueue)

def Fits (packet : TrafficPacket) : Prop :=
  q.backlog packet.flowKey + packet.wireSize ≤ q.maxBytesPerFlow ∧ q.size + packet.wireSize ≤ q.maxBytesTotal

inductive Event where
  | push (packet : TrafficPacket) (now : Instant)
  | pop (info : Option PqPacketInfo)

namespace Event

def bytes : Event → Nat
  | .pop (some info) => info.size
  | _ => 0

def Serves (key : FlowKey) (e : Event) : Prop := ∃ info, e = .pop (some info) ∧ info.packet.flowKey = key

def IsPop (e : Event) : Prop := ∃ info, e = .pop info

end Event

def Step (e : Event) (q' : PacketQueue) : Prop :=
  match e with
  | .push packet now => packet.wireSize ≤ q.quantum ∧ q.Fits packet ∧ q.push packet now = some q'
  | .pop info => q.popInfo = some (info, q')

def Waits (k : Nat) (key : FlowKey) (q : PacketQueue) (e : Event) : Prop :=
  key ∈ q.active ∧ q.active.length ≤ k ∧ ¬ e.Serves key

def turn : Nat :=
  match q.next with
  | none => 0
  | some n => if q.active[n]?.any q.serveable then n else if n + 1 ≥ q.active.length then 0 else n + 1

/-- The flow under the cursor once the flow whose turn it is is removed and the last one takes its place. -/
def heir : Option FlowKey :=
  if q.turn + 1 = q.active.length then q.active.head? else q.active.getLast?

/-- A pop takes the last packet of a flow and brings `key` under the cursor with too little credit. -/
def Strands (key : FlowKey) : Prop :=
  (∃ k f info, q.active[q.turn]? = some k ∧ q.flows.lookup k = some f ∧ f.infos = [info]) ∧ q.heir = some key ∧
    q.serveable key = false

def WaitsInTurn (k : Nat) (key : FlowKey) (q : PacketQueue) (e : Event) : Prop :=
  Waits k key q e ∧ (e.IsPop → ¬ q.Strands key)

/-! ## The credit of the flows -/

structure Fair (quantum : Nat) (q : PacketQueue) : Prop where
  valid : q.Valid quantum none
  keyed : ∀ k f, q.flows.lookup k = some f → ∀ info ∈ f.infos, info.packet.flowKey = k
  small : ∀ k f, q.flows.lookup k = some f → ∀ info ∈ f.infos, info.size ≤ quantum
  credit : ∀ k f, q.flows.lookup k = some f →
    f.deficit < quantum ∨ f.deficit < 2 * quantum ∧ ∃ n, q.next = some n ∧ q.active[n]? = some k

section Push
variable {quantum : Nat} {q q' : PacketQueue} {key : FlowKey} {info : PqPacketInfo}

structure Pushed (q q' : PacketQueue) (key : FlowKey) (info : PqPacketInfo) : Prop where
  next : q'.next = q.next
  active : q'.active = q.active ∨ q'.active = q.active ++ [key]
  others : ∀ k, k ≠ key → q'.flows.lookup k = q.flows.lookup k
  own : ∃ f, q'.flows.lookup key = some f ∧ f.infos = (q.flows.lookup key).elim [] Flow.infos ++ [info] ∧
    f.deficit = (q.flows.lookup key).elim 0 Flow.deficit
  credit : q'.flows.total Flow.deficit = q.flows.total Flow.deficit

theorem flowFor_flowFor (q : PacketQueue) (key : FlowKey) : (q.flowFor key).flowFor key = q.flowFor key := by
  cases hf : q.flows.lookup key with
  | some f =>
    have heq : q.flowFor key = q := by unfold flowFor; rw [hf]
    rw [heq, heq]
  | none =>
    unfold flowFor
    rw [hf]
    rw [lookup_insert, if_pos rfl]

theorem push_eq_append {packet : TrafficPacket} (h : q.Valid quantum none) (hfits : q.Fits packet) (now : Instant) :
    q.push packet now = some (q.append packet.flowKey { packet, size := packet.wireSize, time := now }) := by
  obtain ⟨hroom, htotal⟩ := hfits
  obtain ⟨hvalid, -, hbacklog, hsize, -⟩ := (h.weaken (some packet.flowKey)).flowFor
  have hper : (q.flowFor packet.flowKey).maxBytesPerFlow = q.maxBytesPerFlow := by rw [hvalid.capPerFlow, h.capPerFlow]
  have hall : (q.flowFor packet.flowKey).maxBytesTotal = q.maxBytesTotal := by rw [hvalid.capTotal, h.capTotal]
  have hflow : evictFlow packet.wireSize packet.flowKey (q.count + 1) (q.flowFor packet.flowKey) =
      some (true, q.flowFor packet.flowKey) := by
    refine if_pos (.inl ?_)
    show (q.flowFor packet.flowKey).backlog packet.flowKey + packet.wireSize ≤ _
    rw [hbacklog, hper]
    exact hroom
  have hlargest : evictLargest packet.wireSize ((q.flowFor packet.flowKey).count + 1) (q.flowFor packet.flowKey) =
      some (true, q.flowFor packet.flowKey) := by
    refine if_neg ?_
    omega
  have happend : (q.flowFor packet.flowKey).append packet.flowKey { packet, size := packet.wireSize, time := now } =
      q.append packet.flowKey { packet, size := packet.wireSize, time := now } := by
    unfold append
    rw [flowFor_flowFor]
  have hcaps : ¬ (q.maxBytesTotal < packet.wireSize ∨ q.maxBytesPerFlow < packet.wireSize) := by omega
  unfold push
  rw [if_neg hcaps]
  show (evictFlow packet.wireSize packet.flowKey (q.count + 1) (q.flowFor packet.flowKey)).bind _ = _
  rw [hflow]
  show (evictLargest packet.wireSize ((q.flowFor packet.flowKey).count + 1) (q.flowFor packet.flowKey)).bind _ = _
  rw [hlargest, ← happend]
  rfl

theorem exists_flowFor (q : PacketQueue) (key : FlowKey) :
    (q.flowFor key).next = q.next ∧ (q.flowFor key).active = q.active ∧
      (q.flowFor key).flows.total Flow.deficit = q.flows.total Flow.deficit ∧
      (∀ k, k ≠ key → (q.flowFor key).flows.lookup k = q.flows.lookup k) ∧
      ∃ f, (q.flowFor key).flows.lookup key = some f ∧ f.infos = (q.flows.lookup key).elim [] Flow.infos ∧
        f.deficit = (q.flows.lookup key).elim 0 Flow.deficit := by
  unfold flowFor
  cases hf : q.flows.lookup key with
  | some f => exact ⟨rfl, rfl, rfl, fun _ _ => rfl, f, hf, rfl, rfl⟩
  | none =>
    refine ⟨rfl, rfl, (total_insert _ hf _).trans (zero_add _), fun k hk => ?_,
      { infos := [], size := 0, deficit := 0, index := none }, ?_, rfl, rfl⟩
    · exact (lookup_insert ..).trans (if_neg hk)
    · exact (lookup_insert ..).trans (if_pos rfl)

theorem pushed_append (q : PacketQueue) (key : FlowKey) (info : PqPacketInfo) :
    Pushed q (q.append key info) key info := by
  obtain ⟨hnext, hactive, hcredit, hothers, f, hf, hinfos, hdeficit⟩ := q.exists_flowFor key
  -- the flow is changed in place, once or twice
  have hmodify : ∀ g : Flow → Flow, (g f).infos = f.infos ++ [info] → (∀ f, (g f).deficit = f.deficit) →
      (∀ k, k ≠ key → ((q.flowFor key).flows.modify key g).lookup k = q.flows.lookup k) ∧
      (∃ f, ((q.flowFor key).flows.modify key g).lookup key = some f ∧
        f.infos = (q.flows.lookup key).elim [] Flow.infos ++ [info] ∧
        f.deficit = (q.flows.lookup key).elim 0 Flow.deficit) ∧
      ((q.flowFor key).flows.modify key g).total Flow.deficit = q.flows.total Flow.deficit := by
    intro g hgi hgd
    refine ⟨fun k hk => ?_, ⟨g f, ?_, ?_, ?_⟩, ?_⟩
    · rw [HashMap.lookup_modify, hothers k hk]
      simp only [if_neg hk, Option.map_id']
    · rw [lookup_modify, hf, map_some, if_pos rfl]
    · rw [hgi, hinfos]
    · rw [hgd, hdeficit]
    · rw [total_modify_same _ hgd, hcredit]
  unfold append
  dsimp only
  split
  · obtain ⟨ho, hown, htotal⟩ := hmodify (fun flow => { flow with
      infos := flow.infos ++ [info], size := flow.size + info.size, index := some (q.flowFor key).active.length })
      rfl fun _ => rfl
    unfold activate
    dsimp only
    rw [modify_modify]
    exact ⟨hnext, .inr (by rw [hactive]), ho, hown, htotal⟩
  obtain ⟨ho, hown, htotal⟩ := hmodify (fun flow => { flow with
    infos := flow.infos ++ [info], size := flow.size + info.size }) rfl fun _ => rfl
  exact ⟨hnext, .inl hactive, ho, hown, htotal⟩

theorem Pushed.getElem? (h : Pushed q q' key info) {i : Nat} {k : FlowKey} (hi : q.active[i]? = some k) :
    q'.active[i]? = some k := by
  rcases h.active with heq | heq
  · rw [heq, hi]
  · rw [heq, List.getElem?_append_left (List.getElem?_eq_some_iff.mp hi).1, hi]

theorem Pushed.exists_lookup (h : Pushed q q' key info) {k : FlowKey} {f : Flow} (hf : q.flows.lookup k = some f) :
    ∃ f', q'.flows.lookup k = some f' ∧ f'.deficit = f.deficit ∧ ∃ infos, f'.infos = f.infos ++ infos := by
  by_cases hk : k = key
  · obtain ⟨f', hf', hinfos, hdeficit⟩ := h.own
    rw [← hk, hf] at hinfos hdeficit
    exact ⟨f', by rw [hk, hf'], hdeficit, _, hinfos⟩
  · exact ⟨f, by rw [h.others k hk, hf], rfl, [], (append_nil _).symm⟩

theorem Fair.push {packet : TrafficPacket} (h : q.Fair quantum) (hsize : packet.wireSize ≤ quantum)
    (hfits : q.Fits packet) (now : Instant) :
    ∃ q', q.push packet now = some q' ∧ q'.Fair quantum ∧
      Pushed q q' packet.flowKey { packet, size := packet.wireSize, time := now } := by
  have happend := push_eq_append h.valid hfits now
  have hvalid : (q.append packet.flowKey { packet, size := packet.wireSize, time := now }).Valid quantum none :=
    (h.valid.weaken (some packet.flowKey)).append packet.wireSize_pos hfits.2 hfits.1
  have hp := q.pushed_append packet.flowKey { packet, size := packet.wireSize, time := now }
  -- a flow is one of the old ones, or that of the packet
  have hall : ∀ {P : FlowKey → Flow → Prop}, (∀ k f, q.flows.lookup k = some f → P k f) →
      (∀ f : Flow, f.infos = (q.flows.lookup packet.flowKey).elim [] Flow.infos ++
          [{ packet, size := packet.wireSize, time := now }] →
        f.deficit = (q.flows.lookup packet.flowKey).elim 0 Flow.deficit → P packet.flowKey f) →
      ∀ k f, (q.append packet.flowKey { packet, size := packet.wireSize, time := now }).flows.lookup k = some f →
        P k f := by
    intro P hold hown k f hf
    by_cases hk : k = packet.flowKey
    · obtain ⟨f', hf', hinfos, hdeficit⟩ := hp.own
      rw [hk, hf'] at hf
      cases hf
      rw [hk]
      exact hown f hinfos hdeficit
    rw [hp.others k hk] at hf
    exact hold k f hf
  have hold : ∀ {P : PqPacketInfo → Prop}, (∀ f, q.flows.lookup packet.flowKey = some f → ∀ i ∈ f.infos, P i) →
      ∀ i ∈ (q.flows.lookup packet.flowKey).elim [] Flow.infos, P i := by
    intro P hP
    cases hf : q.flows.lookup packet.flowKey with
    | none => exact nofun
    | some f => exact hP f hf
  refine ⟨_, happend, ⟨hvalid, hall h.keyed fun f hinfos _ i hi => ?_, hall h.small fun f hinfos _ i hi => ?_,
    hall (fun k f hf => ?_) fun f _ hdeficit => ?_⟩, hp⟩
  · rw [hinfos] at hi
    rcases mem_append.mp hi with hi | hi
    · exact hold (P := fun i => i.packet.flowKey = packet.flowKey) (fun f hf => h.keyed _ f hf) i hi
    · rw [mem_singleton.mp hi]
  · rw [hinfos] at hi
    rcases mem_append.mp hi with hi | hi
    · exact hold (P := fun i => i.size ≤ quantum) (fun f hf => h.small _ f hf) i hi
    rw [mem_singleton.mp hi]
    exact hsize
  · rcases h.credit k f hf with hlow | ⟨hlow, n, hn, hk⟩
    · exact .inl hlow
    · exact .inr ⟨hlow, n, by rw [hp.next, hn], hp.getElem? hk⟩
  rw [hdeficit]
  cases hf : q.flows.lookup packet.flowKey with
  | none => exact .inl h.valid.pos
  | some f =>
    rcases h.credit _ f hf with hlow | ⟨hlow, n, hn, hk⟩
    · exact .inl hlow
    · exact .inr ⟨hlow, n, by rw [hp.next, hn], hp.getElem? hk⟩

end Push

/-! ## Whose turn it is -/

inductive Turn (q : PacketQueue) : PacketQueue → Nat → FlowKey → Prop
  | first {key : FlowKey} : q.next = none → q.active[0]? = some key → Turn q (q.advance 0 key) 0 key
  | stay {n : Nat} {key : FlowKey} : q.next = some n → q.active[n]? = some key → q.serveable key = true → Turn q q n key
  | move {n : Nat} {key next : FlowKey} : q.next = some n → q.active[n]? = some key → q.serveable key = false →
      q.active[if n + 1 ≥ q.active.length then 0 else n + 1]? = some next →
      Turn q (q.advance (if n + 1 ≥ q.active.length then 0 else n + 1) next)
        (if n + 1 ≥ q.active.length then 0 else n + 1) next

section Pop
variable {quantum : Nat} {q mid : PacketQueue} {t : Nat} {key : FlowKey}

theorem Turn.turn (h : Turn q mid t key) : q.turn = t := by
  unfold PacketQueue.turn
  cases h with
  | first hnext hkey => rw [hnext]
  | stay hnext hkey hserve =>
    rw [hnext]
    dsimp only
    rw [hkey, any_some, hserve, if_pos rfl]
  | move hnext hkey hserve =>
    rw [hnext]
    dsimp only
    rw [hkey, any_some, hserve, if_neg Bool.false_ne_true]

theorem Turn.frame (h : Turn q mid t key) : mid.active = q.active ∧ mid.next = some t ∧ mid.active[t]? = some key ∧
      ∀ k, k ≠ key → mid.flows.lookup k = q.flows.lookup k := by
  have hadvance : ∀ n k, k ≠ key → (q.advance n key).flows.lookup k = q.flows.lookup k := by
    intro n k hk
    rw [lookup_advance]
    simp only [if_neg hk, Option.map_id']
  cases h with
  | first hnext hkey => exact ⟨rfl, rfl, hkey, hadvance 0⟩
  | stay hnext hkey hserve => exact ⟨rfl, hnext, hkey, fun _ _ => rfl⟩
  | move hnext hkey hserve hkey' => exact ⟨rfl, rfl, hkey', hadvance _⟩

theorem Turn.exists_lookup (h : Turn q mid t key) {k : FlowKey} {f : Flow} (hf : mid.flows.lookup k = some f) :
    ∃ f', q.flows.lookup k = some f' ∧ f'.infos = f.infos := by
  have hadvance : ∀ n next, (q.advance n next).flows.lookup k = some f →
      ∃ f', q.flows.lookup k = some f' ∧ f'.infos = f.infos := by
    intro n next hf
    rw [lookup_advance, map_eq_some_iff] at hf
    obtain ⟨f', hf', rfl⟩ := hf
    exact ⟨f', hf', by split <;> rfl⟩
  cases h with
  | first | move => exact hadvance _ _ hf
  | stay => exact ⟨f, hf, rfl⟩

theorem Fair.deficit_lt (h : q.Fair quantum) {f : Flow} (hkey : key ∈ q.active) (hf : q.flows.lookup key = some f)
    (hserve : q.serveable key = false) : f.deficit < quantum := by
  obtain ⟨g, info, infos, hg, hinfos⟩ := h.valid.exists_head hkey
  rw [hf] at hg
  cases hg
  have hhead : f.deficit < info.size := by
    unfold serveable at hserve
    simpa [hf, hinfos] using hserve
  exact hhead.trans_le (h.small key f hf info (by rw [hinfos]; exact mem_cons_self))

theorem Fair.advance (h : q.Fair quantum) (hlow : ∀ k f, q.flows.lookup k = some f → f.deficit < quantum) {n : Nat}
    (hkey : q.active[n]? = some key) : (q.advance n key).Fair quantum ∧ (q.advance n key).serveable key = true ∧
      (q.advance n key).flows.total Flow.deficit = q.flows.total Flow.deficit + quantum := by
  obtain ⟨f, info, infos, hf, hinfos⟩ := h.valid.exists_head (mem_of_getElem? hkey)
  have hfits := h.valid.fits
  have hdeficit := hlow key f hf
  have hsum : (f.deficit + q.quantum) % 2 ^ 64 = f.deficit + quantum := by
    rw [h.valid.share]
    exact mod_eq_of_lt (by omega)
  have hlookup : (q.advance n key).flows.lookup key = some { f with deficit := f.deficit + quantum } := by
    rw [lookup_advance, hf, map_some, if_pos rfl, hsum]
  have hvalid : (q.advance n key).Valid quantum none :=
    (h.valid.cursor fun i hi => by
      cases hi
      exact (List.getElem?_eq_some_iff.mp hkey).1).credit key
  refine ⟨⟨hvalid, ?_, ?_, ?_⟩, ?_, ?_⟩
  · exact forall_modify h.keyed fun g hg => h.keyed key g hg
  · exact forall_modify h.small fun g hg => h.small key g hg
  · intro k g hg
    by_cases hk : k = key
    · rw [hk, hlookup] at hg
      cases hg
      rw [hk]
      refine .inr ⟨?_, n, rfl, hkey⟩
      dsimp only
      omega
    rw [lookup_advance] at hg
    simp only [if_neg hk, Option.map_id'] at hg
    exact .inl (hlow k g hg)
  · have hhead : info.size ≤ f.deficit + quantum :=
      (h.small key f hf info (by rw [hinfos]; exact mem_cons_self)).trans (le_add_left _ _)
    unfold serveable
    rw [hlookup]
    simp [hinfos, hhead]
  have htotal := total_modify Flow.deficit hf
    fun flow => { flow with deficit := (flow.deficit + q.quantum) % 2 ^ 64 }
  have hadvance : (q.advance n key).flows = q.flows.modify key
    fun flow => { flow with deficit := (flow.deficit + q.quantum) % 2 ^ 64 } := rfl
  rw [hadvance]
  dsimp only at htotal
  omega

theorem Fair.exists_turn (h : q.Fair quantum) (hne : q.active ≠ []) :
    ∃ mid t key, Turn q mid t key ∧ mid.Fair quantum ∧ mid.serveable key = true ∧
      (mid = q ∨ mid.flows.total Flow.deficit = q.flows.total Flow.deficit + quantum) := by
  have hpos := length_pos_iff.mpr hne
  cases hnext : q.next with
  | none =>
    have hkey := getElem?_eq_getElem hpos
    have hlow : ∀ k f, q.flows.lookup k = some f → f.deficit < quantum := by
      intro k f hf
      rcases h.credit k f hf with hlow | ⟨-, n, hn, -⟩
      · exact hlow
      rw [hnext] at hn
      exact absurd hn nofun
    obtain ⟨hfair, hserve, htotal⟩ := h.advance hlow hkey
    exact ⟨_, _, _, Turn.first hnext hkey, hfair, hserve, .inr htotal⟩
  | some n =>
    have hn := h.valid.next n hnext
    have hkey := getElem?_eq_getElem hn
    generalize q.active[n] = key at hkey
    cases hserve : q.serveable key with
    | true => exact ⟨q, n, key, Turn.stay hnext hkey hserve, h, hserve, .inl rfl⟩
    | false =>
      have hlow : ∀ k f, q.flows.lookup k = some f → f.deficit < quantum := by
        intro k f hf
        rcases h.credit k f hf with hlow | ⟨-, m, hm, hk⟩
        · exact hlow
        rw [hnext] at hm
        cases hm
        rw [hkey] at hk
        cases hk
        exact h.deficit_lt (mem_of_getElem? hkey) hf hserve
      have hlt : (if n + 1 ≥ q.active.length then 0 else n + 1) < q.active.length := by split <;> omega
      have hkey' := getElem?_eq_getElem hlt
      obtain ⟨hfair, hserve', htotal⟩ := h.advance hlow hkey'
      exact ⟨_, _, _, Turn.move hnext hkey hserve hkey', hfair, hserve', .inr htotal⟩

theorem Turn.popInfo (h : Turn q mid t key) (hfair : q.Fair quantum) (hmid : mid.Fair quantum)
    (hserve : mid.serveable key = true) :
    ∃ info q', mid.dropFrom key = some (some info, q') ∧ q.popInfo = some (some info, q'.spend key info.size) := by
  obtain ⟨hactive, -, hkey, -⟩ := h.frame
  have hmem := mem_of_getElem? hkey
  have hlt := (List.getElem?_eq_some_iff.mp hkey).1
  rw [hactive] at hlt
  -- a flow of the ring has a head, and a packet is not empty
  have hbusy : (q.isEmpty || q.active.isEmpty) = false := by
    have hne : q.active ≠ [] := length_pos_iff.mp (by omega)
    obtain ⟨f, info, infos, hf, hinfos⟩ := hfair.valid.exists_head (hactive ▸ hmem)
    obtain ⟨-, hsize, -⟩ := hfair.valid.head_le hf hinfos
    have hpos := hfair.valid.positive key f hf info (by rw [hinfos]; exact mem_cons_self)
    have hsize' : q.size ≠ 0 := by omega
    simp [isEmpty, hne, hsize']
  obtain ⟨fuel, hfuel⟩ : ∃ fuel, 17 * q.active.length + 1 = fuel + 2 := ⟨17 * q.active.length - 1, by omega⟩
  unfold PacketQueue.popInfo
  rw [hbusy, if_neg Bool.false_ne_true, hfuel]
  cases h with
  | first hnext hkey0 =>
    obtain ⟨info, q', hpop, hdrop, -⟩ := popLoop_serve hmid.valid hmem hserve 0 (fuel + 1)
    refine ⟨info, q', hdrop, ?_⟩
    rw [hnext]
    dsimp only [Option.elim]
    rw [hkey0]
    show ((q.advance 0 key).popLoop (fuel + 2) 0 key).bind _ = _
    rw [hpop]
    rfl
  | stay hnext hkey0 hserve0 =>
    obtain ⟨info, q', hpop, hdrop, -⟩ := popLoop_serve hmid.valid hmem hserve t (fuel + 1)
    refine ⟨info, q', hdrop, ?_⟩
    have hself : ({ q with next := some t } : PacketQueue) = q := by rw [← hnext]
    rw [hnext]
    dsimp only [Option.elim]
    rw [if_neg (by omega), hkey0, hself]
    show (q.popLoop (fuel + 2) t key).bind _ = _
    rw [hpop]
    rfl
  | @move n key0 _ hnext hkey0 hserve0 hkey1 =>
    obtain ⟨info, q', hpop, hdrop, -⟩ :=
      popLoop_serve hmid.valid hmem hserve (if n + 1 ≥ q.active.length then 0 else n + 1) fuel
    refine ⟨info, q', hdrop, ?_⟩
    have hself : ({ q with next := some n } : PacketQueue) = q := by rw [← hnext]
    have hn := hfair.valid.next n hnext
    rw [hnext]
    dsimp only [Option.elim]
    rw [if_neg (by omega), hkey0, hself]
    show (q.popLoop (fuel + 2) n key0).bind _ = _
    rw [popLoop_advance hserve0 hkey1, hpop]
    rfl

structure Served (quantum : Nat) (mid q' : PacketQueue) (t : Nat) (key : FlowKey) (info : PqPacketInfo) : Prop where
  keyed : info.packet.flowKey = key
  fair : q'.Fair quantum
  paid : info.size + q'.flows.total Flow.deficit ≤ mid.flows.total Flow.deficit
  ring : (q'.active = mid.active ∧ q'.next = mid.next ∧ ∀ k, k ≠ key → q'.flows.lookup k = mid.flows.lookup k) ∨
    ∃ f, mid.flows.lookup key = some f ∧ f.infos = [info] ∧ Removed mid q' key f info t

section Serve
variable {f : Flow} {info : PqPacketInfo} {infos : List PqPacketInfo} {q' : PacketQueue}

theorem Fair.credit_lt (h : mid.Fair quantum) (hf : mid.flows.lookup key = some f) : f.deficit < 2 * quantum := by
  rcases h.credit key f hf with hlow | ⟨hlow, -⟩
  · omega
  · exact hlow

section
variable (h : mid.Fair quantum) (hnext : mid.next = some t) (hkey : mid.active[t]? = some key)
include h hnext hkey

theorem Fair.serve_more (hf : mid.flows.lookup key = some f) (hinfos : f.infos = info :: infos) (hmore : infos ≠ [])
    (hhead : info.size ≤ f.deficit) : ∃ q', mid.dropFrom key = some (some info, q') ∧
      Served quantum mid (q'.spend key info.size) t key info := by
  have hcredit := h.credit_lt hf
  have hfits := h.valid.fits
  have hspent : (min f.deficit (mid.quantum * 4) + 2 ^ 64 - info.size) % 2 ^ 64 = f.deficit - info.size := by
    rw [h.valid.share, min_eq_left (by omega), show f.deficit + 2 ^ 64 - info.size = f.deficit - info.size + 2 ^ 64 by
      omega, add_mod_right]
    exact mod_eq_of_lt (by omega)
  refine ⟨_, dropFrom_more h.valid hf hinfos hmore, ?_⟩
  generalize hafter : spend _ key info.size = q'
  have hflows : q'.flows = mid.flows.modify key fun _ =>
      { f with infos, size := f.size - info.size, deficit := f.deficit - info.size } := by
    rw [← hafter, ← hspent]
    unfold spend taken
    rw [modify_modify]
    rfl
  have hactive : q'.active = mid.active := by rw [← hafter]; rfl
  have hcursor : q'.next = mid.next := by rw [← hafter]; rfl
  have hvalid : q'.Valid quantum none := by
    rw [← hafter]
    exact (h.valid.taken hf hinfos hmore).spend key info.size
  have hmem : ∀ i ∈ infos, i ∈ f.infos := fun i hi => by rw [hinfos]; exact mem_cons_of_mem _ hi
  refine ⟨h.keyed key f hf info (by rw [hinfos]; exact mem_cons_self), ⟨hvalid, ?_, ?_, ?_⟩, ?_, .inl ⟨hactive,
    hcursor, fun k hk => ?_⟩⟩
  · rw [hflows]
    exact forall_modify h.keyed fun _ _ i hi => h.keyed key f hf i (hmem i hi)
  · rw [hflows]
    exact forall_modify h.small fun _ _ i hi => h.small key f hf i (hmem i hi)
  · rw [hflows, hactive, hcursor]
    refine forall_modify h.credit fun _ _ => .inr ⟨?_, t, hnext, hkey⟩
    exact (sub_le _ _).trans_lt hcredit
  · have htotal := total_modify Flow.deficit hf fun _ =>
      { f with infos, size := f.size - info.size, deficit := f.deficit - info.size }
    rw [← hflows] at htotal
    dsimp only at htotal
    omega
  rw [hflows, HashMap.lookup_modify]
  simp only [if_neg hk, Option.map_id']

theorem Fair.serve_last
    (hf : mid.flows.lookup key = some f) (hinfos : f.infos = [info]) (hhead : info.size ≤ f.deficit) :
    ∃ q', mid.dropFrom key = some (some info, q') ∧ Served quantum mid (q'.spend key info.size) t key info := by
  obtain ⟨i, q', -, hi, hdrop, hr⟩ := dropFrom_last h.valid hf hinfos
  obtain rfl : i = t := (List.getElem?_inj (List.getElem?_eq_some_iff.mp hi).1 h.valid.nodup).mp (hi.trans hkey.symm)
  have hspend : q'.spend key info.size = q' := by
    unfold spend
    rw [modify_of_lookup_eq_none (by rw [hr.lookup, if_pos rfl])]
  refine ⟨q', hdrop, ?_⟩
  rw [hspend]
  refine ⟨h.keyed key f hf info (by rw [hinfos]; exact mem_cons_self), ⟨h.valid.removed hinfos hkey hr, ?_, ?_, ?_⟩,
    ?_, .inr ⟨f, hf, hinfos, hr⟩⟩
  · exact hr.forall_lookup (fun _ _ _ hP => hP) h.keyed
  · exact hr.forall_lookup (fun _ _ _ hP => hP) h.small
  · intro k g hg
    obtain ⟨hk, g', hg', rfl⟩ := hr.exists_lookup hg
    have hlow : g'.deficit < quantum := by
      rcases h.credit k g' hg' with hlow | ⟨-, n, hn, hk'⟩
      · exact hlow
      rw [hnext] at hn
      cases hn
      rw [hkey] at hk'
      exact absurd (some.inj hk').symm hk
    refine .inl ?_
    split <;> exact hlow
  have htotal := hr.total Flow.deficit fun _ _ => rfl
  omega

theorem Fair.serve (hserve : mid.serveable key = true) : ∃ info q', mid.dropFrom key = some (some info, q') ∧
      Served quantum mid (q'.spend key info.size) t key info := by
  obtain ⟨f, info, infos, hf, hinfos⟩ := h.valid.exists_head (mem_of_getElem? hkey)
  have hhead : info.size ≤ f.deficit := by
    unfold serveable at hserve
    simpa [hf, hinfos] using hserve
  by_cases hmore : infos = []
  · rw [hmore] at hinfos
    obtain ⟨q', hdrop, hserved⟩ := h.serve_last hnext hkey hf hinfos hhead
    exact ⟨info, q', hdrop, hserved⟩
  obtain ⟨q', hdrop, hserved⟩ := h.serve_more hnext hkey hf hinfos hmore hhead
  exact ⟨info, q', hdrop, hserved⟩

end

theorem Fair.exists_pop (h : q.Fair quantum) (hne : q.active ≠ []) :
    ∃ mid t key info q', q.popInfo = some (some info, q') ∧ Turn q mid t key ∧ mid.Fair quantum ∧
      (mid = q ∨ mid.flows.total Flow.deficit = q.flows.total Flow.deficit + quantum) ∧
      Served quantum mid q' t key info := by
  obtain ⟨mid, t, key, hturn, hmid, hserve, hcredit⟩ := h.exists_turn hne
  obtain ⟨info, q', hdrop, hpop⟩ := hturn.popInfo h hmid hserve
  obtain ⟨-, hnext, hkey, -⟩ := hturn.frame
  obtain ⟨info', q'', hdrop', hserved⟩ := hmid.serve hnext hkey hserve
  rw [hdrop] at hdrop'
  obtain ⟨hinfo, rfl⟩ := Prod.mk.inj (some.inj hdrop')
  cases hinfo
  exact ⟨mid, t, key, info, _, hpop, hturn, hmid, hcredit, hserved⟩

end Serve

end Pop

/-! ## The potential -/

def place (key : FlowKey) : Nat := ((q.flows.lookup key).bind Flow.index).getD 0

def wait (k : Nat) (q : PacketQueue) (key : FlowKey) : Nat :=
  match q.next with
  | none => q.place key + 1
  | some n =>
    if n = q.place key ∧ q.serveable key then 0
    else if n < q.place key then q.place key - n else k - n + q.place key

/-- What the others may still be served before the flow is. -/
def potential (quantum k : Nat) (key : FlowKey) (q : PacketQueue) : Nat :=
  q.flows.total Flow.deficit + quantum * q.wait k key

section Potential
variable {quantum k : Nat} {q q' mid : PacketQueue} {t p : Nat} {key kt : FlowKey} {info : PqPacketInfo} {f : Flow}

theorem Valid.place_eq (h : q.Valid quantum none) (hp : q.active[p]? = some key) : q.place key = p := by
  obtain ⟨f, hf, hne⟩ := (h.active key).mp (mem_of_getElem? hp)
  obtain ⟨i, hindex, hi⟩ := h.index key f hf hne
  unfold place
  rw [hf, bind_some, hindex]
  exact (List.getElem?_inj (List.getElem?_eq_some_iff.mp hi).1 h.nodup).mp (hi.trans hp.symm)

theorem serveable_congr {g : Flow} (hf : q.flows.lookup key = some f) (hg : q'.flows.lookup key = some g)
    (hhead : g.infos.head? = f.infos.head?) (hdeficit : g.deficit = f.deficit) :
    q'.serveable key = q.serveable key := by
  unfold serveable
  rw [hf, hg, any_some, any_some, hhead, hdeficit]

theorem Pushed.wait_eq (h : Pushed q q' kt info) (hq : q.Fair quantum) (hq' : q'.Fair quantum)
    (hp : q.active[p]? = some key) : q'.wait k key = q.wait k key := by
  obtain ⟨f, i, infos, hf, hinfos⟩ := hq.valid.exists_head (mem_of_getElem? hp)
  obtain ⟨f', hf', hdeficit, infos', hinfos'⟩ := h.exists_lookup hf
  have hhead : f'.infos.head? = f.infos.head? := by rw [hinfos', hinfos, cons_append, head?_cons, head?_cons]
  unfold wait
  rw [h.next, hq.valid.place_eq hp, hq'.valid.place_eq (h.getElem? hp), serveable_congr hf hf' hhead hdeficit]

theorem Turn.wait_lt (h : Turn q mid t kt) (hq : q.Fair quantum) (hmid : mid.Fair quantum) (hne : key ≠ kt)
    (hp : q.active[p]? = some key) (hk : q.active.length ≤ k) : mid = q ∨ mid.wait k key < q.wait k key := by
  have hplt := (List.getElem?_eq_some_iff.mp hp).1
  have hplace := hq.valid.place_eq hp
  have hplace' : mid.place key = p := hmid.valid.place_eq (by rw [h.frame.1]; exact hp)
  obtain ⟨-, hnext', hkt, -⟩ := h.frame
  rw [h.frame.1] at hkt
  have hpt : t ≠ p := by
    rintro rfl
    rw [hp] at hkt
    exact hne (some.inj hkt)
  have hwait : mid.wait k key = if t < p then p - t else k - t + p := by
    unfold wait
    rw [hnext', hplace']
    exact if_neg fun hand => hpt hand.1
  cases h with
  | first hnext hkey =>
    right
    rw [hwait]
    unfold wait
    rw [hnext, hplace, if_pos (pos_of_ne_zero hpt.symm)]
    exact lt_succ_self _
  | stay => exact .inl rfl
  | @move n key0 _ hnext hkey hserve hkey' =>
    have hn := hq.valid.next n hnext
    have hnot : ¬ (n = p ∧ q.serveable key = true) := by
      rintro ⟨rfl, hserve'⟩
      rw [hp] at hkey
      rw [some.inj hkey, hserve] at hserve'
      exact Bool.false_ne_true hserve'
    have hbefore : q.wait k key = if n < p then p - n else k - n + p := by
      unfold wait
      rw [hnext, hplace]
      exact if_neg hnot
    rw [hwait, hbefore]
    generalize hi : (if n + 1 ≥ q.active.length then 0 else n + 1) = i at hpt
    split at hi
    next hend =>
      rw [← hi] at hpt ⊢
      rw [if_pos (pos_of_ne_zero hpt.symm), if_neg (by omega)]
      omega
    next hmore =>
      by_cases hlt : n < p
      · rw [if_pos hlt, if_pos (by omega)]
        omega
      rw [if_neg hlt, if_neg (by omega)]
      omega

theorem Removed.wait_le (hr : Removed mid q' kt f info t) (hmid : mid.Fair quantum) (hq' : q'.Fair quantum)
    (hnext : mid.next = some t) (hkt : mid.active[t]? = some kt) (hne : key ≠ kt) (hp : mid.active[p]? = some key)
    (hheir : (if t + 1 = mid.active.length then mid.active.head? else mid.active.getLast?) = some key →
      mid.serveable key = true) : q'.wait k key ≤ mid.wait k key := by
  have ht := (List.getElem?_eq_some_iff.mp hkt).1
  have hplt := (List.getElem?_eq_some_iff.mp hp).1
  have hpt : t ≠ p := by
    rintro rfl
    rw [hp] at hkt
    exact hne (some.inj hkt)
  have hactive : q'.active = mid.active.swapRemove t := by rw [hr.frame]
  have hserve : q'.serveable key = mid.serveable key := by
    obtain ⟨g, -, -, hg, -⟩ := hmid.valid.exists_head (mem_of_getElem? hp)
    have hg' := hr.lookup key
    rw [if_neg hne, hg, map_some] at hg'
    refine serveable_congr hg hg' ?_ ?_ <;> split <;> rfl
  have hcursor : q'.next = some (if t + 1 = mid.active.length then 0 else t) := by
    have hfull : ¬ (mid.active.swapRemove t).isEmpty = true := by
      rw [List.isEmpty_iff, ← List.length_eq_zero_iff, List.length_swapRemove]
      omega
    have hrecursor : q'.next = mid.recursor t := by rw [hr.frame]
    rw [hrecursor]
    unfold recursor
    rw [if_neg hfull, hnext]
    have hmoved : (if some t = some (mid.active.length - 1) then some t else some t) = some t := ite_self _
    rw [hmoved, map_some, length_swapRemove]
    congr 1
    split_ifs <;> omega
  have hbefore : mid.wait k key = if t < p then p - t else k - t + p := by
    unfold wait
    rw [hnext, hmid.valid.place_eq hp]
    exact if_neg fun hand => hpt hand.1
  by_cases hmoved : t + 1 < mid.active.length ∧ p + 1 = mid.active.length
  · -- the flow was the last one and is now under the cursor
    obtain ⟨hmore, hlast⟩ := hmoved
    have hgetLast : mid.active.getLast? = some key := by
      rw [getLast?_eq_getElem?, ← hp]
      congr 1
      omega
    have hserve' : q'.serveable key = true := by rw [hserve]; exact hheir (by rw [if_neg (by omega), hgetLast])
    have hplace : q'.place key = t := hq'.valid.place_eq (by
      rw [hactive, getElem?_swapRemove _ _ _ hmore, if_pos rfl, hgetLast])
    have hzero : q'.wait k key = 0 := by
      unfold wait
      rw [hcursor, if_neg (by omega), hplace]
      exact if_pos ⟨rfl, hserve'⟩
    rw [hzero]
    exact zero_le _
  -- the flow has kept its place
  have hplace : q'.place key = p := hq'.valid.place_eq (by
    rw [hactive, getElem?_swapRemove _ _ _ (by omega), if_neg hpt.symm, hp])
  rw [hbefore]
  unfold wait
  rw [hcursor, hplace]
  dsimp only
  by_cases hend : t + 1 = mid.active.length
  · rw [if_pos hend, if_neg (show ¬ t < p by omega)]
    by_cases hzero : p = 0
    · have hserve' : q'.serveable key = true := by
        rw [hserve]
        refine hheir ?_
        rw [if_pos hend, head?_eq_getElem?, ← hzero, hp]
      rw [if_pos ⟨hzero.symm, hserve'⟩]
      exact zero_le _
    rw [if_neg fun hand => hzero hand.1.symm, if_pos (pos_of_ne_zero hzero)]
    omega
  · rw [if_neg hend, if_neg fun hand => hpt hand.1]

theorem Fair.pop_paid (h : q.Fair quantum) (hkey : key ∈ q.active) (hk : q.active.length ≤ k)
    (hstrands : ¬ q.Strands key) {r : Option PqPacketInfo} (hpop : q.popInfo = some (r, q'))
    (hserves : ¬ (Event.pop r).Serves key) :
    q'.Fair quantum ∧ (Event.pop r).bytes + potential quantum k key q' ≤ potential quantum k key q := by
  obtain ⟨p, hp⟩ := mem_iff_getElem?.mp hkey
  obtain ⟨mid, t, kt, info, q₁, hpop', hturn, hmid, hcredit, hserved⟩ := h.exists_pop (ne_nil_of_mem hkey)
  obtain ⟨hactive, hnext, hkt, hothers⟩ := hturn.frame
  rw [hpop'] at hpop
  obtain ⟨rfl, rfl⟩ := Prod.mk.inj (some.inj hpop)
  have hne : key ≠ kt := fun heq => hserves ⟨info, rfl, hserved.keyed.trans heq.symm⟩
  have hmidp : mid.active[p]? = some key := by rw [hactive]; exact hp
  -- the move of the cursor pays for the credit
  have hmove : potential quantum k key mid ≤ potential quantum k key q := by
    unfold potential
    rcases hturn.wait_lt h hmid hne hp hk with rfl | hlt
    · exact le_refl _
    rcases hcredit with rfl | hcredit
    · exact le_refl _
    have hmul := Nat.mul_le_mul_left quantum (succ_le_of_lt hlt)
    rw [mul_succ] at hmul
    omega
  have hwait : q₁.wait k key ≤ mid.wait k key := by
    rcases hserved.ring with ⟨hring, hcursor, hlookup⟩ | ⟨f, hf, hinfos, hr⟩
    · obtain ⟨g, -, -, hg, -⟩ := hmid.valid.exists_head (mem_of_getElem? hmidp)
      have hplace : q₁.place key = p := hserved.fair.valid.place_eq (by rw [hring]; exact hmidp)
      unfold wait
      rw [hcursor, hplace, hmid.valid.place_eq hmidp, serveable_congr hg (by rw [hlookup key hne]; exact hg) rfl rfl]
    refine hr.wait_le hmid hserved.fair hnext hkt hne hmidp fun hheir => ?_
    by_contra hlow
    apply hstrands
    obtain ⟨g, -, -, hg, -⟩ := h.valid.exists_head hkey
    obtain ⟨f', hf', hinfos'⟩ := hturn.exists_lookup hf
    refine ⟨⟨kt, f', info, ?_, hf', hinfos'.trans hinfos⟩, ?_, ?_⟩
    · rw [hturn.turn, ← hactive]
      exact hkt
    · unfold heir
      rw [hturn.turn, ← hactive]
      exact hheir
    rw [serveable_congr (by rw [hothers key hne]; exact hg) hg rfl rfl]
    exact Bool.eq_false_iff.mpr hlow
  refine ⟨hserved.fair, ?_⟩
  have hpaid := hserved.paid
  have hmul := Nat.mul_le_mul_left quantum hwait
  show info.size + potential quantum k key q₁ ≤ _
  unfold potential at hmove ⊢
  omega

/-- One step is paid for by the potential. -/
theorem Fair.step_paid (h : q.Fair quantum) {e : Event} (hstep : Lts.Guarded Step (WaitsInTurn k key) q e q') :
    q'.Fair quantum ∧ e.bytes + potential quantum k key q' ≤ potential quantum k key q := by
  obtain ⟨hstep, ⟨hkey, hk, hserves⟩, hstrands⟩ := hstep
  cases e with
  | push packet now =>
    obtain ⟨hsize, hfits, hpush⟩ := hstep
    rw [h.valid.share] at hsize
    obtain ⟨q₁, hpush', hfair, hpushed⟩ := h.push hsize hfits now
    rw [hpush] at hpush'
    cases hpush'
    obtain ⟨p, hp⟩ := mem_iff_getElem?.mp hkey
    refine ⟨hfair, le_of_eq ?_⟩
    unfold potential
    rw [hpushed.credit, hpushed.wait_eq h hfair hp]
    exact zero_add _
  | pop r => exact h.pop_paid hkey hk (hstrands ⟨r, rfl⟩) hstep hserves

theorem Fair.potential_le (h : q.Fair quantum) (hkey : key ∈ q.active) (hk : q.active.length ≤ k) :
    potential quantum k key q ≤ 4 * k * quantum := by
  obtain ⟨p, hp⟩ := List.mem_iff_getElem?.mp hkey
  have hplt := (List.getElem?_eq_some_iff.mp hp).1
  have hcredit : q.flows.total Flow.deficit ≤ q.active.length * (2 * quantum) := by
    refine total_le Flow.deficit (fun k f hf => (h.credit_lt hf).le) fun k hk => ?_
    obtain ⟨f, hf⟩ := mem_keys_iff.mp hk
    exact (h.valid.active k).mpr ⟨f, hf, fun hempty => absurd (h.valid.empty k f hf hempty).1 nofun⟩
  have hwait : q.wait k key ≤ 2 * k := by
    unfold wait
    rw [h.valid.place_eq hp]
    cases q.next with
    | none => dsimp only; omega
    | some n => dsimp only; split_ifs <;> omega
  calc potential quantum k key q
      ≤ k * (2 * quantum) + quantum * (2 * k) :=
        Nat.add_le_add (hcredit.trans (Nat.mul_le_mul_right _ hk)) (Nat.mul_le_mul_left _ hwait)
    _ = 4 * k * quantum := by ring

theorem Fair.new {quantum : Nat} (hfits : (PacketQueue.new quantum).maxBytesTotal < 2 ^ 64) :
    (PacketQueue.new quantum).Fair (PacketQueue.new quantum).quantum :=
  ⟨Valid.new hfits, nofun, nofun, nofun⟩

theorem Fair.step (h : q.Fair quantum) {e : Event} (hstep : Step q e q') : q'.Fair quantum := by
  cases e with
  | push packet now =>
    obtain ⟨hsize, hfits, hpush⟩ := hstep
    rw [h.valid.share] at hsize
    obtain ⟨q₁, hpush', hfair, -⟩ := h.push hsize hfits now
    rw [hpush] at hpush'
    rw [some.inj hpush']
    exact hfair
  | pop r =>
    have hpop : q.popInfo = some (r, q') := hstep
    by_cases hne : q.active = []
    · have hidle : q.popInfo = some (none, { q with next := none }) := by
        unfold popInfo
        rw [hne, isEmpty_nil, Bool.or_true, if_pos rfl]
      rw [hidle] at hpop
      obtain ⟨-, rfl⟩ := Prod.mk.inj (some.inj hpop)
      refine ⟨h.valid.cursor nofun, h.keyed, h.small, fun k f hf => ?_⟩
      rcases h.credit k f hf with hlow | ⟨-, n, -, hn⟩
      · exact .inl hlow
      rw [hne] at hn
      exact absurd hn nofun
    obtain ⟨mid, t, kt, info, q₁, hpop', -, -, -, hserved⟩ := h.exists_pop hne
    rw [hpop'] at hpop
    obtain ⟨-, rfl⟩ := Prod.mk.inj (some.inj hpop)
    exact hserved.fair

end Potential

/-! ## A flow that waits forever -/

section Stalled

def smallPacket (source : PublicKey) : TrafficPacket := { TrafficPacket.new source 0 [] with watermark := 0 }

def smallInfo (source : PublicKey) : PqPacketInfo := { packet := smallPacket source, size := 67, time := 0 }

theorem wireSize_smallPacket (source : PublicKey) : (smallPacket source).wireSize = 67 := by
  have hzero : uvarintSize 0 = 1 := by rw [uvarintSize]; rfl
  unfold TrafficPacket.wireSize pathSize
  simp [smallPacket, TrafficPacket.new, hzero, PUBLIC_KEY_SIZE]

def stalled (n : Nat) : PacketQueue :=
  let waiting : Flow := { infos := [smallInfo 1], size := 67, deficit := 0, index := some 0 }
  let other : Flow := { infos := List.replicate n (smallInfo 2), size := n * 67, deficit := 0, index := some 1 }
  let flows : HashMap FlowKey Flow := (∅ : HashMap FlowKey Flow).insert (smallPacket 1).flowKey waiting
  { PacketQueue.new 67 with
    flows := if n = 0 then flows else flows.insert (smallPacket 2).flowKey other
    active := (smallPacket 1).flowKey :: if n = 0 then [] else [(smallPacket 2).flowKey]
    next := some 0
    size := 67 + n * 67
    count := n + 1 }

theorem step_push {q q' : PacketQueue} {source : PublicKey} (hquantum : q.quantum = 67)
    (hroom : q.backlog (smallPacket source).flowKey + 67 ≤ q.maxBytesPerFlow) (htotal : q.size + 67 ≤ q.maxBytesTotal)
    (hpush : q.push (smallPacket source) 0 = some q') : Step q (.push (smallPacket source) 0) q' := by
  refine ⟨?_, ?_, hpush⟩
  · rw [wireSize_smallPacket, hquantum]
  unfold Fits
  rw [wireSize_smallPacket]
  exact ⟨hroom, htotal⟩

theorem step_push_zero : Step (stalled 0) (.push (smallPacket 2) 0) (stalled 1) := by
  refine step_push rfl (by decide) (by decide) ?_
  unfold push
  rw [wireSize_smallPacket]
  rfl

theorem step_push_one : Step (stalled 1) (.push (smallPacket 2) 0) (stalled 2) := by
  refine step_push rfl (by decide) (by decide) ?_
  unfold push
  rw [wireSize_smallPacket]
  rfl

theorem step_pop_one : Step (stalled 1) (.pop (some (smallInfo 2))) (stalled 0) := rfl

theorem step_pop_two : Step (stalled 2) (.pop (some (smallInfo 2))) { stalled 1 with next := some 1 } := rfl

theorem stalled_reached : ∃ es,
    Lts.Run (Lts.Guarded Step fun q _ => q.active.length ≤ 2) (PacketQueue.new 67) es (stalled 0) := by
  have hfirst : Step (new 67) (.push (smallPacket 2) 0)
      ((new 67).append (smallPacket 2).flowKey (smallInfo 2)) := by
    refine step_push rfl (by decide) (by decide) ?_
    unfold push
    rw [wireSize_smallPacket]
    rfl
  have hsecond : Step ((new 67).append (smallPacket 2).flowKey (smallInfo 2)) (.push (smallPacket 1) 0)
      (((new 67).append (smallPacket 2).flowKey (smallInfo 2)).append (smallPacket 1).flowKey
        (smallInfo 1)) := by
    refine step_push rfl (by decide) (by decide) ?_
    unfold push
    rw [wireSize_smallPacket]
    rfl
  have hpop : Step (((new 67).append (smallPacket 2).flowKey (smallInfo 2)).append (smallPacket 1).flowKey
      (smallInfo 1)) (.pop (some (smallInfo 2))) (stalled 0) := rfl
  exact ⟨_, Lts.Run.cons ⟨hfirst, by decide⟩ (Lts.Run.cons ⟨hsecond, by decide⟩ (Lts.Run.single ⟨hpop, by decide⟩))⟩

theorem not_serves_push (key : FlowKey) (packet : TrafficPacket) (now : Instant) :
    ¬ (Event.push packet now).Serves key := fun ⟨_, heq, _⟩ => absurd heq nofun

theorem not_serves_pop : ¬ (Event.pop (some (smallInfo 2))).Serves (smallPacket 1).flowKey := by
  rintro ⟨info, heq, hkey⟩
  obtain rfl := some.inj (Event.pop.inj heq)
  exact absurd hkey (by decide)

theorem stalled_cycle (n : Nat) : ∃ es,
    Lts.Run (Lts.Guarded Step (Waits 2 (smallPacket 1).flowKey)) (stalled 0) es (stalled 0) ∧
      (es.map Event.bytes).sum = n * 67 := by
  induction n with
  | zero => exact ⟨[], Lts.Run.nil _, rfl⟩
  | succ n ih =>
    obtain ⟨es, hrun, hbytes⟩ := ih
    have hpush := hrun.snoc ⟨step_push_zero, by decide, by decide, not_serves_push _ _ _⟩
    refine ⟨_, hpush.snoc ⟨step_pop_one, by decide, by decide, not_serves_pop⟩, ?_⟩
    rw [map_append, map_append, List.sum_append, List.sum_append, hbytes, succ_mul]
    rfl

theorem not_strands_stalled : ¬ (stalled 2).Strands (smallPacket 1).flowKey := by
  rintro ⟨⟨k, f, info, hk, hf, hinfos⟩, -⟩
  have hkey : (stalled 2).active[(stalled 2).turn]? = some (smallPacket 2).flowKey := rfl
  obtain rfl := some.inj (hkey.symm.trans hk)
  have hlength : ((stalled 2).flows.lookup (smallPacket 2).flowKey).map (fun f => f.infos.length) = some 2 := rfl
  rw [hf, map_some, hinfos] at hlength
  exact absurd (some.inj hlength) (succ_ne_succ_iff.mpr zero_ne_one)

theorem stalled_twice : ∃ es q',
    Lts.Run (Lts.Guarded Step (WaitsInTurn 2 (smallPacket 1).flowKey)) (stalled 0) es q' ∧
      (es.map Event.bytes).sum = 67 := by
  have hpush : ∀ {q : PacketQueue}, (Event.push (smallPacket 2) 0).IsPop → ¬ q.Strands (smallPacket 1).flowKey :=
    fun ⟨_, heq⟩ => absurd heq nofun
  have hone : Lts.Guarded Step (WaitsInTurn 2 (smallPacket 1).flowKey) (stalled 0) _ (stalled 1) :=
    ⟨step_push_zero, ⟨by decide, by decide, not_serves_push _ _ _⟩, hpush⟩
  have htwo : Lts.Guarded Step (WaitsInTurn 2 (smallPacket 1).flowKey) (stalled 1) _ (stalled 2) :=
    ⟨step_push_one, ⟨by decide, by decide, not_serves_push _ _ _⟩, hpush⟩
  have hpop : Lts.Guarded Step (WaitsInTurn 2 (smallPacket 1).flowKey) (stalled 2) _ _ :=
    ⟨step_pop_two, ⟨by decide, by decide, not_serves_pop⟩, fun _ => not_strands_stalled⟩
  exact ⟨_, _, ((Lts.Run.single hone).snoc htwo).snoc hpop, rfl⟩

end Stalled

end PacketQueue

/-- No bound on the bytes that others are served before a backlogged flow is: two flows are enough. -/
theorem drr_starves : ¬ ∃ bound : Nat → Nat → Nat, ∀ (quantum k : Nat) (key : PacketQueue.FlowKey)
    (q q' : PacketQueue) (before es : List PacketQueue.Event), (PacketQueue.new quantum).maxBytesTotal < 2 ^ 64 →
    Lts.Run (Lts.Guarded PacketQueue.Step fun q _ => q.active.length ≤ k) (PacketQueue.new quantum) before q →
    Lts.Run (Lts.Guarded PacketQueue.Step (PacketQueue.Waits k key)) q es q' →
    (es.map PacketQueue.Event.bytes).sum ≤ bound quantum k := by
  rintro ⟨bound, hbound⟩
  obtain ⟨before, hbefore⟩ := stalled_reached
  obtain ⟨es, hes, hbytes⟩ := stalled_cycle (bound 67 2 + 1)
  have hle := hbound 67 2 _ _ _ before es (by decide) hbefore hes
  omega

/-- While a flow is backlogged and not served, at most `4 * k * quantum` bytes of the others are, if no pop strands it
and `k` flows are in the ring at most. -/
theorem drr_no_starvation (quantum k : Nat) (key : PacketQueue.FlowKey) {q q' : PacketQueue}
    {before es : List PacketQueue.Event} (hfits : (PacketQueue.new quantum).maxBytesTotal < 2 ^ 64)
    (hbefore : Lts.Run PacketQueue.Step (PacketQueue.new quantum) before q)
    (hes : Lts.Run (Lts.Guarded PacketQueue.Step (PacketQueue.WaitsInTurn k key)) q es q') :
    (es.map PacketQueue.Event.bytes).sum ≤ 4 * k * (PacketQueue.new quantum).quantum := by
  have hfair : q.Fair (new quantum).quantum :=
    hbefore.invariant (PacketQueue.Fair.new hfits) fun _ _ _ h hstep => h.step hstep
  have hpaid := hes.cost_le PacketQueue.Event.bytes hfair fun _ _ _ h hstep => h.step_paid hstep
  rcases hes.exists_first with ⟨rfl, -⟩ | ⟨e, u, -, ⟨hkey, hk, -⟩, -⟩
  · exact zero_le _
  have := hfair.potential_le hkey hk
  omega

/-- Source 2 has a second packet when it is served, and stays in the ring. -/
theorem drr_no_starvation_two : ∃ before q es q', Lts.Run PacketQueue.Step (PacketQueue.new 67) before q ∧
      Lts.Run (Lts.Guarded PacketQueue.Step (PacketQueue.WaitsInTurn 2 (PacketQueue.smallPacket 1).flowKey)) q es q' ∧
      (es.map PacketQueue.Event.bytes).sum = 67 ∧ (es.map PacketQueue.Event.bytes).sum ≤ 4 * 2 * 67 := by
  obtain ⟨before, hbefore⟩ := stalled_reached
  obtain ⟨es, q', hes, hbytes⟩ := stalled_twice
  have hreached := hbefore.mono fun _ _ _ h => h.1
  exact ⟨before, _, es, q', hreached, hes, hbytes, drr_no_starvation 67 2 _ (by decide) hreached hes⟩

end Yggdrasil
