import Yggdrasil.Traffic.Served

/-!
# What becomes of a packet

The calls of the queue once more, with the list of the packets that enter a flow and leave it: `pushLog`,
`dropLargestLog` and `popCodelLog` do what `push`, `drop_largest` and `pop_codel` do (`execLog_erase`). Each flow is a
queue of the family `Fifo`, and a call is a run of that family (`Kept.execLog`).
-/

namespace Yggdrasil
open Nat List Option HashMap

namespace PacketQueue

/-! ## The calls with their log -/

def dropLargestInfo (self : PacketQueue) : Option (Option PqPacketInfo × PacketQueue) :=
  match self.largestFlow with
  | some key => self.dropFrom key
  | none => some (none, self)

def evictFlowLog (pktSize : Nat) (key : FlowKey) : Nat → PacketQueue → Option (Bool × List PqPacketInfo × PacketQueue)
  | 0, _ => none
  | fuel + 1, self =>
    let flowSize := (self.flows.lookup key).elim 0 Flow.size
    let flowCount := (self.flows.lookup key).elim 0 fun f => f.infos.length
    if flowSize + pktSize ≤ self.maxBytesPerFlow ∨ flowCount = 0 then some (true, [], self)
    else do
      let r ← self.dropFrom key
      match r.1 with
      | none => return (false, [], r.2)
      | some info => (evictFlowLog pktSize key fuel r.2).map fun e => (e.1, info :: e.2.1, e.2.2)

def evictLargestLog (pktSize : Nat) : Nat → PacketQueue → Option (Bool × List PqPacketInfo × PacketQueue)
  | 0, _ => none
  | fuel + 1, self =>
    if self.size + pktSize > self.maxBytesTotal ∧ self.size > 0 then do
      let r ← self.dropLargestInfo
      match r.1 with
      | none => return (false, [], r.2)
      | some info => (evictLargestLog pktSize fuel r.2).map fun e => (e.1, info :: e.2.1, e.2.2)
    else some (true, [], self)

def leave (fate : Fate) (infos : List PqPacketInfo) : List Moved := infos.map (.take fate)

def pushLog (self : PacketQueue) (packet : TrafficPacket) (now : Instant) : Option (List Moved × PacketQueue) :=
  let pktSize := packet.wireSize
  if self.maxBytesTotal < pktSize ∨ self.maxBytesPerFlow < pktSize then some ([], self)
  else do
    let key : FlowKey := { source := packet.source, dest := packet.dest }
    let info : PqPacketInfo := { packet, size := pktSize, time := now }
    let r ← evictFlowLog pktSize key (self.count + 1) (self.flowFor key)
    if !r.1 then return (leave .evicted r.2.1, r.2.2)
    else
      let r' ← evictLargestLog pktSize (r.2.2.count + 1) r.2.2
      if !r'.1 then return (leave .evicted (r.2.1 ++ r'.2.1), r'.2.2)
      else return (leave .evicted (r.2.1 ++ r'.2.1) ++ [.put info], r'.2.2.append key info)

structure Discard where
  info : PqPacketInfo
  left : Nat

section
variable (codelControlLaw : Instant → UInt32 → Instant)

def codelDropLoopLog (now : Instant) : Nat → PacketQueue → Option PqPacketInfo →
    Option (List Discard × Option PqPacketInfo × PacketQueue)
  | 0, _, _ => none
  | fuel + 1, self, info =>
    if self.codel.dropping ∧ self.codel.dropNext.any fun dn => now ≥ dn then do
      let r ← { self with codel.count := self.codel.count + 1 }.popInfo
      let d := r.2.codelShouldDrop r.1 now
      let next :=
        if !d.1 then { d.2 with codel.dropping := false }
        else { d.2 with codel.dropNext := d.2.codel.dropNext.map fun dn => codelControlLaw dn d.2.codel.count }
      (codelDropLoopLog now fuel next r.1).map fun e => (info.toList.map (Discard.mk · self.count) ++ e.1, e.2)
    else some ([], info, self)

def popCodelLog (self : PacketQueue) (now : Instant) : Option (List Discard × Option PqPacketInfo × PacketQueue) := do
  let r ← self.popInfo
  if r.1.isNone then return ([], none, { r.2 with codel.dropping := false })
  else
    let d := r.2.codelShouldDrop r.1 now
    let intervalNs : Int := CODEL_INTERVAL
    let self := d.2
    if self.codel.dropping then
      if !d.1 then return ([], r.1, { self with codel.dropping := false })
      else codelDropLoopLog codelControlLaw now (self.count + 2) self r.1
    else if d.1 ∧ ((self.codel.dropNext.any fun dn => signedNanos now dn < intervalNs) ∨
        self.codel.firstAboveTime.any fun fat => signedNanos now fat ≥ intervalNs) then
      let r' ← self.popInfo
      let after := (r'.2.codelShouldDrop r'.1 now).2
      let delta := after.codel.count - after.codel.lastcount
      let count :=
        if delta > 1 ∧ after.codel.dropNext.any fun dn => signedNanos now dn < 16 * intervalNs then delta else 1
      return (r.1.toList.map (Discard.mk · self.count), r'.1, { after with codel := { after.codel with
            dropping := true, count, lastcount := count, dropNext := some (codelControlLaw now count) } })
    else return ([], r.1, self)

def execLog (q : PacketQueue) : Op → Option (List Moved × PacketQueue)
  | .push packet now => q.pushLog packet now
  | .dropLargest => q.dropLargestInfo.map fun r => (leave .evicted r.1.toList, r.2)
  | .popInfo => q.popInfo.map fun r => (leave .returned r.1.toList, r.2)
  | .popCodel now => (q.popCodelLog codelControlLaw now).map fun r =>
    (leave .discarded (r.1.map Discard.info) ++ leave .returned r.2.1.toList, r.2.2)

def execLogAll (q : PacketQueue) (ops : List Op) : Option (List Moved × PacketQueue) :=
  ops.foldlM (fun s op => (s.2.execLog codelControlLaw op).map fun r => (s.1 ++ r.1, r.2)) ([], q)

end

/-! ## The log is only added -/

variable (q : PacketQueue)

theorem dropLargestInfo_erase : q.dropLargestInfo.map (fun r => (r.1.isSome, r.2)) = q.dropLargest := by
  unfold dropLargestInfo dropLargest
  cases q.largestFlow with
  | none | some key => rfl

theorem evictFlowLog_erase (pktSize : Nat) (key : FlowKey) (fuel : Nat) : ∀ q : PacketQueue,
    (evictFlowLog pktSize key fuel q).map (fun e => (e.1, e.2.2)) = evictFlow pktSize key fuel q := by
  induction fuel with
  | zero => exact fun _ => rfl
  | succ fuel ih =>
    intro q
    unfold evictFlowLog evictFlow
    dsimp only
    split
    · rfl
    cases q.dropFrom key with
    | none => rfl
    | some r =>
      obtain ⟨info, q'⟩ := r
      cases info with
      | none => rfl
      | some info =>
        show Option.map _ (Option.map _ (evictFlowLog pktSize key fuel q')) = evictFlow pktSize key fuel q'
        rw [Option.map_map, ← ih q']
        rfl

theorem evictLargestLog_erase (pktSize fuel : Nat) : ∀ q : PacketQueue,
    (evictLargestLog pktSize fuel q).map (fun e => (e.1, e.2.2)) = evictLargest pktSize fuel q := by
  induction fuel with
  | zero => exact fun _ => rfl
  | succ fuel ih =>
    intro q
    unfold evictLargestLog evictLargest
    split
    · rw [← dropLargestInfo_erase]
      cases q.dropLargestInfo with
      | none => rfl
      | some r =>
        obtain ⟨info, q'⟩ := r
        cases info with
        | none => rfl
        | some info =>
          show Option.map _ (Option.map _ (evictLargestLog pktSize fuel q')) = evictLargest pktSize fuel q'
          rw [Option.map_map, ← ih q']
          rfl
    · rfl

theorem pushLog_erase (packet : TrafficPacket) (now : Instant) :
    (q.pushLog packet now).map Prod.snd = q.push packet now := by
  unfold pushLog push
  dsimp only
  split
  · rfl
  rw [← evictFlowLog_erase]
  cases evictFlowLog packet.wireSize { source := packet.source, dest := packet.dest } (q.count + 1)
      (q.flowFor { source := packet.source, dest := packet.dest }) with
  | none => rfl
  | some r =>
    obtain ⟨go, evicted, q'⟩ := r
    cases go with
    | false => rfl
    | true =>
      show Option.map _ (Option.bind (evictLargestLog packet.wireSize (q'.count + 1) q') _) =
        Option.bind (evictLargest packet.wireSize (q'.count + 1) q') _
      rw [← evictLargestLog_erase]
      cases evictLargestLog packet.wireSize (q'.count + 1) q' with
      | none => rfl
      | some r' =>
        obtain ⟨go', evicted', q''⟩ := r'
        cases go' with
        | false | true => rfl

variable (codelControlLaw : Instant → UInt32 → Instant)

theorem codelDropLoopLog_erase (now : Instant) (fuel : Nat) : ∀ (q : PacketQueue) (info : Option PqPacketInfo),
    (codelDropLoopLog codelControlLaw now fuel q info).map Prod.snd =
      codelDropLoop codelControlLaw now fuel q info := by
  induction fuel with
  | zero => exact fun _ _ => rfl
  | succ fuel ih =>
    intro q info
    unfold codelDropLoopLog codelDropLoop
    split
    · cases popInfo { q with codel.count := q.codel.count + 1 } with
      | none => rfl
      | some r =>
        show Option.map _ (Option.map _ (codelDropLoopLog codelControlLaw now fuel _ r.1)) =
          codelDropLoop codelControlLaw now fuel _ r.1
        rw [Option.map_map, ← ih]
        rfl
    · rfl

theorem popCodelLog_erase (now : Instant) :
    (q.popCodelLog codelControlLaw now).map (fun e => (e.2.1.map PqPacketInfo.packet, e.2.2)) =
      q.popCodel codelControlLaw now := by
  unfold popCodelLog popCodel
  cases q.popInfo with
  | none => rfl
  | some r =>
    rw [bind_eq_bind, bind_some, bind_eq_bind, bind_some]
    dsimp only
    split
    · rfl
    split
    · split
      · rfl
      rw [← codelDropLoopLog_erase]
      cases codelDropLoopLog codelControlLaw now _ _ _ with
      | none | some e => rfl
    split
    · cases popInfo _ with
      | none | some r' => rfl
    · rfl

theorem execLog_erase (op : Op) : (q.execLog codelControlLaw op).map Prod.snd = q.exec codelControlLaw op := by
  cases op with
  | push packet now => exact q.pushLog_erase packet now
  | dropLargest =>
    show Option.map _ (Option.map _ q.dropLargestInfo) = Option.map _ q.dropLargest
    rw [← dropLargestInfo_erase, Option.map_map, Option.map_map]
    rfl
  | popInfo =>
    show Option.map _ (Option.map _ q.popInfo) = Option.map _ q.popInfo
    rw [Option.map_map]
    rfl
  | popCodel now =>
    show Option.map _ (Option.map _ (q.popCodelLog codelControlLaw now)) = Option.map _ (q.popCodel codelControlLaw now)
    rw [← popCodelLog_erase, Option.map_map, Option.map_map]
    rfl

/-! ## A push -/

section Push
variable {quantum : Nat} {hole : Option FlowKey} {q q' : PacketQueue} {key : FlowKey} {info : PqPacketInfo}

theorem Moves.refl (q : PacketQueue) : Moves q [] q := Lts.Run.nil _

theorem Moves.trans {ms ms' : List Moved} {q'' : PacketQueue} (h : Moves q ms q') (h' : Moves q' ms' q'') :
    Moves q (ms ++ ms') q'' := Lts.Run.append h h'

theorem Moves.of_queued {ms : List Moved} {q'' : PacketQueue} (h : Moves q ms q') (heq : q''.queued = q'.queued) :
    Moves q ms q'' := by
  unfold Moves
  rw [heq]
  exact h

theorem Kept.dropLargestInfo (h : q.Kept quantum hole) : q.size = 0 ∧ q.dropLargestInfo = some (none, q) ∨
    ∃ info q', q.dropLargestInfo = some (some info, q') ∧ q'.Kept quantum hole ∧ Shrunk q q' info.size ∧
      Moves q [.take .evicted info] q' := by
  unfold PacketQueue.dropLargestInfo
  cases hkey : q.largestFlow with
  | none =>
    refine .inl ⟨by_contra fun hsize => ?_, rfl⟩
    obtain ⟨key, hsome⟩ := h.valid.exists_largestFlow (pos_of_ne_zero hsize)
    rw [hkey] at hsome
    cases hsome
  | some key =>
    obtain ⟨f, info, infos, hf, hinfos⟩ := mem_of_largestFlow hkey
    obtain ⟨q', hdrop, hkept, hshrunk, hmoves⟩ := h.dropFrom ((queued_of_lookup hf).trans hinfos)
    exact .inr ⟨info, q', hdrop, hkept, hshrunk, hmoves .evicted⟩

theorem Kept.evictFlowLog (key : FlowKey) {pktSize : Nat} : ∀ {fuel : Nat} {q : PacketQueue}, q.Kept quantum hole →
    q.count < fuel → pktSize ≤ q.maxBytesPerFlow → ∃ evicted q',
      evictFlowLog pktSize key fuel q = some (true, evicted, q') ∧ q'.Kept quantum hole ∧
      q'.backlog key + pktSize ≤ q.maxBytesPerFlow ∧ Moves q (leave .evicted evicted) q'
  | 0, _, _, hfuel, _ => absurd hfuel (Nat.not_lt_zero _)
  | fuel + 1, q, h, hfuel, hpkt => by
    have hcap := h.valid.capPerFlow
    unfold PacketQueue.evictFlowLog
    dsimp only
    split
    next hdone =>
      refine ⟨[], q, rfl, h, ?_, Moves.refl q⟩
      rcases hdone with hroom | hempty
      · exact hroom
      -- a flow without packets holds no bytes
      have hzero : q.backlog key = 0 := by
        unfold backlog
        cases hf : q.flows.lookup key with
        | none => rfl
        | some f =>
          rw [hf] at hempty
          have hnil : f.infos = [] := length_eq_zero_iff.mp hempty
          show f.size = 0
          rw [h.valid.flowSize key f hf, Flow.bytes, hnil]
          rfl
      omega
    next hmore =>
      obtain ⟨-, hcount⟩ := not_or.mp hmore
      cases hf : q.flows.lookup key with
      | none => rw [hf] at hcount; exact absurd rfl hcount
      | some f =>
        rw [hf] at hcount
        obtain ⟨info, infos, hinfos⟩ := exists_cons_of_length_pos (pos_of_ne_zero hcount)
        obtain ⟨mid, hdrop, hkept, hshrunk, hmoves⟩ := h.dropFrom ((queued_of_lookup hf).trans hinfos)
        have hcap' := hkept.valid.capPerFlow
        have hless := hshrunk.count
        obtain ⟨evicted, q', hevict, hkept', hroom, hmoves'⟩ :=
          hkept.evictFlowLog key (show mid.count < fuel by omega) (show pktSize ≤ _ by omega)
        refine ⟨info :: evicted, q', ?_, hkept', by omega, (hmoves .evicted).trans hmoves'⟩
        rw [hdrop]
        exact map_eq_some_iff.mpr ⟨_, hevict, rfl⟩

theorem Kept.evictLargestLog (key : FlowKey) {pktSize : Nat} : ∀ {fuel : Nat} {q : PacketQueue}, q.Kept quantum hole →
    q.count < fuel → pktSize ≤ q.maxBytesTotal → ∃ evicted q',
      evictLargestLog pktSize fuel q = some (true, evicted, q') ∧ q'.Kept quantum hole ∧
      (q'.size + pktSize ≤ q.maxBytesTotal ∧ q'.backlog key ≤ q.backlog key) ∧ Moves q (leave .evicted evicted) q'
  | 0, _, _, hfuel, _ => absurd hfuel (Nat.not_lt_zero _)
  | fuel + 1, q, h, hfuel, hpkt => by
    have hcap := h.valid.capTotal
    unfold PacketQueue.evictLargestLog
    split
    next hmore =>
      rcases h.dropLargestInfo with ⟨hzero, -⟩ | ⟨info, mid, hdrop, hkept, hshrunk, hmoves⟩
      · omega
      have hcap' := hkept.valid.capTotal
      have hless := hshrunk.count
      obtain ⟨evicted, q', hevict, hkept', ⟨hroom, hback⟩, hmoves'⟩ :=
        hkept.evictLargestLog key (show mid.count < fuel by omega) (show pktSize ≤ _ by omega)
      refine ⟨info :: evicted, q', ?_, hkept', ⟨by omega, hback.trans (hshrunk.backlog key)⟩, hmoves.trans hmoves'⟩
      rw [hdrop]
      exact map_eq_some_iff.mpr ⟨_, hevict, rfl⟩
    next hdone => exact ⟨[], q, rfl, h, ⟨by omega, le_refl _⟩, Moves.refl q⟩

@[simp] theorem queued_flowFor (q : PacketQueue) (key : FlowKey) : (q.flowFor key).queued = q.queued := by
  obtain ⟨-, -, -, hothers, f, hf, hinfos, -⟩ := q.exists_flowFor key
  funext k
  by_cases hk : k = key
  · rw [hk, queued_of_lookup hf, hinfos]
    rfl
  unfold queued
  rw [hothers k hk]

theorem moves_append (q : PacketQueue) (info : PqPacketInfo) : Moves q [.put info] (q.append info.flowKey info) := by
  have hp := q.pushed_append info.flowKey info
  obtain ⟨f, hf, hinfos, -⟩ := hp.own
  refine Lts.Run.single ⟨fun k hk => ?_, ?_⟩
  · unfold queued
    rw [hp.others k hk]
  rw [queued_of_lookup hf, hinfos]
  rfl

theorem puts_leave (fate : Fate) (infos : List PqPacketInfo) : Fifo.puts (leave fate infos) = [] := by
  unfold leave Fifo.puts
  rw [filterMap_map]
  exact filterMap_eq_nil_iff.mpr fun _ _ => rfl

theorem Moves.keyed_put (h : ∀ k, ∀ i ∈ q.queued k, i.flowKey = k) (hput : Moves q [.put info] q') :
    ∀ k, ∀ i ∈ q'.queued k, i.flowKey = k := by
  intro k i hi
  have hall := Fifo.run_conserved hput k
  have hmem : i ∈ q.queued k ++ Fifo.lane PqPacketInfo.flowKey k [info] := by
    show i ∈ q.queued k ++ Fifo.lane PqPacketInfo.flowKey k (Fifo.puts [(.put info : Moved)])
    rw [hall]
    exact hi
  rcases mem_append.mp hmem with hold | hnew
  · exact h k i hold
  · exact of_decide_eq_true (mem_filter.mp hnew).2

theorem Kept.pushLog (h : q.Kept quantum none) (packet : TrafficPacket) (now : Instant) :
    ∃ ms q', q.pushLog packet now = some (ms, q') ∧ q'.Kept quantum none ∧ Moves q ms q' ∧ Fifo.puts ms =
        if quantum * 16 < packet.wireSize then [] else [{ packet, size := packet.wireSize, time := now }] := by
  have hcapTotal := h.valid.capTotal
  have hcapPer := h.valid.capPerFlow
  by_cases hcaps : q.maxBytesTotal < packet.wireSize ∨ q.maxBytesPerFlow < packet.wireSize
  · refine ⟨[], q, by unfold PacketQueue.pushLog; exact if_pos hcaps, h, Moves.refl q, ?_⟩
    rw [if_pos (by omega)]
    rfl
  -- both evictions make enough room
  obtain ⟨hvalid₀, -, -, -, hcount⟩ := (h.valid.weaken (some packet.flowKey)).flowFor
  have hkept₀ : (q.flowFor packet.flowKey).Kept quantum (some packet.flowKey) :=
    h.of_queued hvalid₀ (queued_flowFor ..)
  have hcapPer₀ := hvalid₀.capPerFlow
  obtain ⟨evicted, q₁, hlog₁, hkept₁, hroom₁, hmoves₁⟩ :=
    hkept₀.evictFlowLog packet.flowKey (show _ < q.count + 1 by omega) (show packet.wireSize ≤ _ by omega)
  have hcapTotal₁ := hkept₁.valid.capTotal
  obtain ⟨evicted', q₂, hlog₂, hkept₂, ⟨hroom₂, hback⟩, hmoves₂⟩ :=
    hkept₁.evictLargestLog packet.flowKey (lt_succ_self _) (show packet.wireSize ≤ _ by omega)
  have hput := q₂.moves_append { packet, size := packet.wireSize, time := now }
  have hfirst : Moves q (leave .evicted evicted) q₁ := by
    unfold Moves at hmoves₁ ⊢
    rwa [queued_flowFor] at hmoves₁
  have hcapPer₂ := hkept₂.valid.capPerFlow
  have hcapTotal₂ := hkept₂.valid.capTotal
  refine ⟨leave .evicted (evicted ++ evicted') ++ [.put { packet, size := packet.wireSize, time := now }],
    q₂.append packet.flowKey { packet, size := packet.wireSize, time := now }, ?_,
      ⟨?_, hput.keyed_put hkept₂.keyed⟩, ?_, ?_⟩
  · unfold PacketQueue.pushLog
    rw [if_neg hcaps]
    show (PacketQueue.evictFlowLog packet.wireSize packet.flowKey (q.count + 1) (q.flowFor packet.flowKey)).bind _ = _
    rw [hlog₁]
    show (PacketQueue.evictLargestLog packet.wireSize (q₁.count + 1) q₁).bind _ = _
    rw [hlog₂]
    rfl
  · refine hkept₂.valid.append packet.wireSize_pos ?_ ?_ <;>
    · dsimp only
      omega
  · have hleave : leave .evicted (evicted ++ evicted') = leave .evicted evicted ++ leave .evicted evicted' :=
      map_append
    rw [hleave]
    exact (hfirst.trans hmoves₂).trans hput
  rw [if_neg (by omega), Fifo.puts_append, puts_leave]
  rfl

end Push

/-! ## CoDel -/

/-- The packet waited for the target and left two behind it. -/
def Droppable (now : Instant) (d : Discard) : Prop := CODEL_TARGET ≤ elapsed now d.info.time ∧ 2 ≤ d.left

section Codel
variable {quantum : Nat} {q q' : PacketQueue} {now : Instant}

theorem droppable_of_shouldDrop {info : PqPacketInfo} (h : (q.codelShouldDrop (some info) now).1 = true) :
    Droppable now ⟨info, q.count⟩ := by
  unfold codelShouldDrop at h
  dsimp only at h
  split at h
  · cases h
  next hlong =>
    obtain ⟨htime, hcount⟩ := not_or.mp hlong
    exact ⟨Nat.le_of_not_lt htime, Nat.lt_of_not_le hcount⟩

theorem Kept.withCodel (h : q.Kept quantum none) (codel : Codel) : Kept quantum none { q with codel } :=
  ⟨h.valid.withCodel codel, h.keyed⟩

theorem Kept.codelShouldDrop (h : q.Kept quantum none) (info : Option PqPacketInfo) (now : Instant) :
    (q.codelShouldDrop info now).2.Kept quantum none := by
  rw [codelShouldDrop_frame]
  exact h.withCodel _

@[simp] theorem queued_codelShouldDrop (q : PacketQueue) (info : Option PqPacketInfo) (now : Instant) :
    (q.codelShouldDrop info now).2.queued = q.queued := by
  rw [codelShouldDrop_frame]
  rfl

@[simp] theorem count_codelShouldDrop (q : PacketQueue) (info : Option PqPacketInfo) (now : Instant) :
    (q.codelShouldDrop info now).2.count = q.count := by
  rw [codelShouldDrop_frame]

structure Dequeues (now : Instant) (left : Nat) (ds : List Discard) (r : Option PqPacketInfo) (count : Nat) : Prop where
  droppable : ∀ d ∈ ds, Droppable now d
  places : ∀ i d, ds[i]? = some d → d.left + i = left
  returns : r.isSome
  total : ds.length + count = left

theorem Dequeues.nil (now : Instant) (left : Nat) (info : PqPacketInfo) : Dequeues now left [] (some info) left :=
  ⟨by simp, by simp, rfl, zero_add _⟩

theorem Dequeues.cons {left count : Nat} {d : Discard} {ds : List Discard} {r : Option PqPacketInfo}
    (h : Dequeues now left ds r count) (hd : Droppable now d) (hleft : d.left = left + 1) :
    Dequeues now (left + 1) (d :: ds) r count := by
  refine ⟨?_, ?_, h.returns, ?_⟩
  · intro e he
    rcases mem_cons.mp he with rfl | he
    · exact hd
    · exact h.droppable e he
  · intro i e he
    cases i with
    | zero =>
      cases he
      exact hleft
    | succ i =>
      have := h.places i e he
      omega
  have := h.total
  rw [length_cons]
  omega

variable (codelControlLaw : Instant → UInt32 → Instant)

theorem Kept.codelNext (h : q.Kept quantum none) {info : PqPacketInfo} {d : Bool × PacketQueue}
    (hd : q.codelShouldDrop (some info) now = d) {after : PacketQueue}
    (hafter : after = if !d.1 then { d.2 with codel.dropping := false } else
      { d.2 with codel.dropNext := d.2.codel.dropNext.map fun dn => codelControlLaw dn d.2.codel.count }) :
    after.Kept quantum none ∧ after.count = q.count ∧ after.queued = q.queued ∧
      (after.codel.dropping = true → Droppable now ⟨info, after.count⟩) := by
  subst hafter hd
  have hcount := count_codelShouldDrop q (some info) now
  refine ⟨?_, ?_, ?_, ?_⟩
  · split <;> exact (h.codelShouldDrop (some info) now).withCodel _
  · split <;> exact hcount
  · split <;> exact queued_codelShouldDrop q (some info) now
  split
  · exact fun hfalse => absurd hfalse Bool.false_ne_true
  next hshould =>
    intro _
    rw [Bool.not_eq_true', Bool.not_eq_false] at hshould
    rw [hcount]
    exact droppable_of_shouldDrop hshould

theorem Kept.codelDropLoopLog : ∀ {fuel : Nat} {q : PacketQueue} {info : PqPacketInfo}, q.Kept quantum none →
    q.count < fuel → (q.codel.dropping = true → Droppable now ⟨info, q.count⟩) → ∃ ds r q',
    codelDropLoopLog codelControlLaw now fuel q (some info) = some (ds, r, q') ∧
    q'.Kept quantum none ∧ Dequeues now q.count ds r q'.count ∧
      ∀ start : PacketQueue, (∀ fate, Moves start [.take fate info] q) →
        Moves start (leave .discarded (ds.map Discard.info) ++ leave .returned r.toList) q'
  | 0, _, _, _, hfuel, _ => absurd hfuel (Nat.not_lt_zero _)
  | fuel + 1, q, info, h, hfuel, hdrop => by
    unfold PacketQueue.codelDropLoopLog
    split
    next hgo =>
      have hdroppable := hdrop hgo.1
      have hmany : 2 ≤ q.count := hdroppable.2
      rcases (h.withCodel { q.codel with count := q.codel.count + 1 }).popInfo with ⟨hzero, -⟩ | hsome
      · exact absurd (show q.count = 0 from hzero) (by omega)
      obtain ⟨next, mid, hpop, hkept, hcount, hmoves⟩ := hsome
      rw [hpop, bind_eq_bind, bind_some]
      dsimp only at hcount ⊢
      -- the next turn starts with the packet just dequeued, and drops it only if this may be dropped
      generalize hd : mid.codelShouldDrop (some next) now = d
      obtain ⟨hafter, hcount', hqueued, hdrop'⟩ := hkept.codelNext codelControlLaw hd rfl
      generalize (if !d.1 then _ else _ : PacketQueue) = after at *
      obtain ⟨ds, r, q', hloop, hkept', hdeq, hmoves'⟩ := hafter.codelDropLoopLog (show _ < fuel by omega) hdrop'
      have hleft : q.count = after.count + 1 := by omega
      refine ⟨_, r, q', by rw [hloop]; rfl, hkept', ?_, ?_⟩
      · rw [hleft] at hdroppable ⊢
        exact hdeq.cons hdroppable rfl
      intro start hstart
      exact (hstart .discarded).trans (hmoves' q fun fate => (hmoves fate).of_queued hqueued)
    · exact ⟨[], some info, q, rfl, h, Dequeues.nil now _ _, fun start hstart => hstart .returned⟩

theorem Kept.popCodelLog (h : q.Kept quantum none) (now : Instant) :
    ∃ ds r q', q.popCodelLog codelControlLaw now = some (ds, r, q') ∧ q'.Kept quantum none ∧
      Moves q (leave .discarded (ds.map Discard.info) ++ leave .returned r.toList) q' ∧
      (q.count = 0 ∧ ds = [] ∧ r = none ∧ q'.count = 0 ∨
        ∃ left, left + 1 = q.count ∧ Dequeues now left ds r q'.count) := by
  unfold PacketQueue.popCodelLog
  rcases h.popInfo with ⟨hzero, hpop⟩ | ⟨info, mid, hpop, hkept, hcount, hmoves⟩
  · rw [hpop]
    exact ⟨[], none, _, rfl, ⟨(h.valid.cursor (by simp)).withCodel _, h.keyed⟩, Moves.refl _,
      .inl ⟨hzero, rfl, rfl, hzero⟩⟩
  rw [hpop]
  dsimp only [bind_eq_bind, bind_some, isNone_some]
  rw [if_neg Bool.false_ne_true]
  have hkept' := hkept.codelShouldDrop (some info) now
  have hleft := count_codelShouldDrop mid (some info) now
  have hqueued := queued_codelShouldDrop mid (some info) now
  have hdrop : (mid.codelShouldDrop (some info) now).1 = true → Droppable now ⟨info, mid.count⟩ :=
    droppable_of_shouldDrop
  generalize mid.codelShouldDrop (some info) now = d at hkept' hleft hqueued hdrop
  have hmoves' : ∀ fate, Moves q [.take fate info] d.2 := fun fate => (hmoves fate).of_queued hqueued
  have hfirst : Dequeues now mid.count [] (some info) d.2.count := by
    rw [← hleft]
    exact Dequeues.nil now _ _
  split
  · split
    · exact ⟨_, _, _, rfl, hkept'.withCodel _, hmoves' .returned, .inr ⟨mid.count, hcount, hfirst⟩⟩
    next hshould =>
      rw [Bool.not_eq_true', Bool.not_eq_false] at hshould
      obtain ⟨ds, r, q', hloop, hkept'', hdeq, hall⟩ := hkept'.codelDropLoopLog codelControlLaw
        (show _ < d.2.count + 2 by omega) fun _ => by rw [hleft]; exact hdrop hshould
      exact ⟨ds, r, q', hloop, hkept'', hall q hmoves', .inr ⟨d.2.count, by rw [hleft]; exact hcount, hdeq⟩⟩
  split
  next henter =>
    have hdroppable := hdrop henter.1
    have hmany : 2 ≤ mid.count := hdroppable.2
    rcases hkept'.popInfo with ⟨hzero, -⟩ | ⟨next, last, hpop', hlast, hcount', hmoves''⟩
    · exact absurd (hleft.symm.trans hzero) (by omega)
    rw [hpop', bind_some]
    refine ⟨_, _, _, rfl, (hlast.codelShouldDrop (some next) now).withCodel _, ?_, .inr ⟨mid.count, hcount, ?_⟩⟩
    · have hboth := (hmoves' .discarded).trans (hmoves'' .returned)
      exact hboth.of_queued (queued_codelShouldDrop last (some next) now)
    rw [count_codelShouldDrop, ← hleft, ← hcount']
    refine (Dequeues.nil now last.count next).cons ?_ rfl
    rw [hcount', hleft]
    exact hdroppable
  · exact ⟨_, _, _, rfl, hkept', hmoves' .returned, .inr ⟨mid.count, hcount, hfirst⟩⟩

end Codel

/-! ## Every sequence of calls -/

def Op.pushed? : Op → Option PqPacketInfo
  | .push packet now => some { packet, size := packet.wireSize, time := now }
  | .dropLargest | .popInfo | .popCodel _ => none

def returned (ms : List Moved) : List PqPacketInfo := ((Fifo.taken ms).filter fun e => e.1 = .returned).map Prod.snd

section Run
variable {quantum : Nat} {q q' : PacketQueue} (codelControlLaw : Instant → UInt32 → Instant)

theorem Kept.execLog (h : q.Kept quantum none) (op : Op) :
    ∃ ms q', q.execLog codelControlLaw op = some (ms, q') ∧ q'.Kept quantum none ∧ Moves q ms q' ∧
      Fifo.puts ms = op.pushed?.toList.filter (PqPacketInfo.size · ≤ quantum * 16) := by
  cases op with
  | push packet now =>
    obtain ⟨ms, q', hpush, hkept, hmoves, hputs⟩ := h.pushLog packet now
    refine ⟨ms, q', hpush, hkept, hmoves, hputs.trans ?_⟩
    by_cases hlarge : quantum * 16 < packet.wireSize
    · simp [Op.pushed?, hlarge]
    · simp [Op.pushed?, not_lt.mp hlarge]
  | dropLargest =>
    unfold PacketQueue.execLog
    rcases h.dropLargestInfo with ⟨-, hdrop⟩ | ⟨info, q', hdrop, hkept, -, hmoves⟩
    · exact ⟨[], q, by rw [hdrop]; rfl, h, Moves.refl q, rfl⟩
    · exact ⟨_, q', by rw [hdrop]; rfl, hkept, hmoves, rfl⟩
  | popInfo =>
    unfold PacketQueue.execLog
    rcases h.popInfo with ⟨-, hpop⟩ | ⟨info, q', hpop, hkept, -, hmoves⟩
    · exact ⟨[], { q with next := none }, by rw [hpop]; rfl, ⟨h.valid.cursor (by simp), h.keyed⟩, Moves.refl _, rfl⟩
    · exact ⟨_, q', by rw [hpop]; rfl, hkept, hmoves .returned, rfl⟩
  | popCodel now =>
    obtain ⟨ds, r, q', hpop, hkept, hmoves, -⟩ := h.popCodelLog codelControlLaw now
    refine ⟨_, q', map_eq_some_iff.mpr ⟨_, hpop, rfl⟩, hkept, hmoves, ?_⟩
    rw [Fifo.puts_append, puts_leave, puts_leave]
    rfl

theorem execLogAll_log (ops : List Op) : ∀ (log : List Moved) (q : PacketQueue),
    ops.foldlM (fun s op => (s.2.execLog codelControlLaw op).map fun r => (s.1 ++ r.1, r.2)) (log, q) =
      (q.execLogAll codelControlLaw ops).map fun r => (log ++ r.1, r.2) := by
  induction ops with
  | nil =>
    intro log q
    show some (log, q) = some (log ++ [], q)
    rw [append_nil]
  | cons op ops ih =>
    intro log q
    unfold execLogAll
    rw [foldlM_cons, foldlM_cons]
    cases q.execLog codelControlLaw op with
    | none => rfl
    | some r =>
      show List.foldlM _ (log ++ r.1, r.2) ops = Option.map _ (List.foldlM _ ([] ++ r.1, r.2) ops)
      rw [ih, ih, Option.map_map, List.nil_append]
      simp [Function.comp_def, append_assoc]

theorem execLogAll_cons {op : Op} {ms : List Moved} (h : q.execLog codelControlLaw op = some (ms, q')) (ops : List Op) :
    q.execLogAll codelControlLaw (op :: ops) = (q'.execLogAll codelControlLaw ops).map fun r => (ms ++ r.1, r.2) := by
  rw [← execLogAll_log]
  unfold execLogAll
  rw [foldlM_cons, h]
  rfl

/-- Any calls run to their end and keep the queue. -/
theorem Kept.execLogAll (ops : List Op) : ∀ {q : PacketQueue}, q.Kept quantum none →
    ∃ ms q', q.execLogAll codelControlLaw ops = some (ms, q') ∧
      ops.foldlM (exec codelControlLaw) q = some q' ∧ q'.Kept quantum none ∧ Moves q ms q' ∧
      Fifo.puts ms = (ops.filterMap Op.pushed?).filter (PqPacketInfo.size · ≤ quantum * 16) := by
  induction ops with
  | nil => exact fun {q} h => ⟨[], q, rfl, rfl, h, Moves.refl q, rfl⟩
  | cons op ops ih =>
    intro q h
    obtain ⟨ms, mid, hop, hkept, hmoves, hputs⟩ := h.execLog codelControlLaw op
    obtain ⟨ms', q', hlog, hexec, hkept', hmoves', hputs'⟩ := ih hkept
    refine ⟨ms ++ ms', q', ?_, ?_, hkept', hmoves.trans hmoves', ?_⟩
    · rw [execLogAll_cons codelControlLaw hop, hlog]
      rfl
    · rw [foldlM_cons, ← execLog_erase, hop]
      exact hexec
    rw [Fifo.puts_append, hputs, hputs', ← filter_append]
    cases op with
    | push packet now | dropLargest | popInfo | popCodel now => rfl

theorem Kept.new {quantum : Nat} (hfits : (PacketQueue.new quantum).maxBytesTotal < 2 ^ 64) :
    (PacketQueue.new quantum).Kept (PacketQueue.new quantum).quantum none :=
  ⟨Valid.new hfits, fun _ _ hmem => absurd hmem not_mem_nil⟩

theorem Kept.popInfo_eq_none_iff (h : q.Kept quantum none) :
    ∃ r q', q.popInfo = some (r, q') ∧ (r = none ↔ q.isEmpty = true) := by
  rw [h.valid.isEmpty_iff]
  rcases h.popInfo with ⟨hzero, hpop⟩ | ⟨info, q', hpop, -, hcount, -⟩
  · exact ⟨none, _, hpop, iff_of_true rfl hzero⟩
  · exact ⟨some info, q', hpop, iff_of_false (by simp) (by omega)⟩

end Run

/-- The books of a run in which the packets `pushed` were pushed and `ms` was moved. -/
structure Conservation (pushed : List PqPacketInfo) (ms : List Moved) (q : PacketQueue) : Prop where
  entered : Fifo.puts ms = pushed
  /-- The packets of a flow are, in the order in which they were pushed, those that left, each once, and those in it. -/
  conserved : ∀ key, Fifo.lane PqPacketInfo.flowKey key pushed =
    Fifo.lane PqPacketInfo.flowKey key ((Fifo.taken ms).map Prod.snd) ++ q.queued key
  /-- The returned packets of a flow come in the order in which they were pushed. -/
  ordered : ∀ key, (Fifo.lane PqPacketInfo.flowKey key (returned ms)).Sublist
    (Fifo.lane PqPacketInfo.flowKey key pushed)
  pops : ∃ r q', q.popInfo = some (r, q') ∧ (r = none ↔ q.isEmpty = true)

theorem Kept.conservation {quantum quantum' : Nat} {ms : List Moved} {q : PacketQueue} (h : q.Kept quantum' none)
    (hmoves : Moves (PacketQueue.new quantum) ms q) : Conservation (Fifo.puts ms) ms q where
  entered := rfl
  conserved := fun key => Fifo.run_conserved hmoves key
  ordered := fun key => Fifo.marked_sublist hmoves (fun fate => fate = .returned) key
  pops := h.popInfo_eq_none_iff

end PacketQueue

/-- Every sequence of calls runs to its end, and the queue that it leaves keeps its books and its caps. -/
theorem packet_queue_invariant (codelControlLaw : Instant → UInt32 → Instant) (quantum : Nat)
    (hfits : (PacketQueue.new quantum).maxBytesTotal < 2 ^ 64) (ops : List PacketQueue.Op) :
    ∃ q, ops.foldlM (PacketQueue.exec codelControlLaw) (PacketQueue.new quantum) = some q ∧
      q.size = q.flows.total (fun f => (f.infos.map PacketQueue.PqPacketInfo.size).sum) ∧
      q.count = q.flows.total (fun f => f.infos.length) ∧ (∀ k f, q.flows.lookup k = some f →
        f.size = (f.infos.map PacketQueue.PqPacketInfo.size).sum ∧ f.infos ≠ [] ∧ f.size ≤ q.maxBytesPerFlow ∧
          ∃ i, f.index = some i ∧ q.active[i]? = some k) ∧
      q.active.Nodup ∧ (∀ k, k ∈ q.active ↔ k ∈ q.flows.keys) ∧ (∀ n, q.next = some n → n < q.active.length) ∧
      q.size ≤ q.maxBytesTotal ∧ q.maxBytesTotal = (PacketQueue.new quantum).maxBytesTotal ∧
      q.maxBytesPerFlow = (PacketQueue.new quantum).maxBytesPerFlow := by
  obtain ⟨-, q, -, hrun, ⟨h, -⟩, -⟩ := PacketQueue.Kept.execLogAll codelControlLaw ops (PacketQueue.Kept.new hfits)
  have hfull : ∀ k f, q.flows.lookup k = some f → f.infos ≠ [] :=
    fun k f hf hempty => absurd (h.empty k f hf hempty).1 nofun
  refine ⟨q, hrun, h.size, h.count, fun k f hf => ⟨h.flowSize k f hf, hfull k f hf, ?_, ?_⟩, h.nodup,
    fun k => ?_, h.next,
    h.total, h.capTotal, h.capPerFlow⟩
  · rw [h.flowSize k f hf]
    exact h.perFlow k f hf
  · exact h.index k f hf (hfull k f hf)
  rw [h.active, mem_keys_iff]
  exact ⟨fun ⟨f, hf, _⟩ => ⟨f, hf⟩, fun ⟨f, hf⟩ => ⟨f, hf, hfull k f hf⟩⟩

def samplePackets : List PacketQueue.Op :=
  let packet := TrafficPacket.new 0 0 []
  [.push packet 0, .push packet 1, .push packet 2, .popCodel 3, .dropLargest, .popInfo]

theorem packet_queue_invariant_evicting : (PacketQueue.new 10).maxBytesTotal < 2 ^ 64 ∧
    ∃ q, samplePackets.foldlM (PacketQueue.exec fun t _ => t) (PacketQueue.new 10) = some q ∧
      q.size ≤ q.maxBytesTotal ∧ q.maxBytesTotal = 640 := by
  have hfits : (PacketQueue.new 10).maxBytesTotal < 2 ^ 64 := by decide
  obtain ⟨q, hrun, -, -, -, -, -, -, hsize, htotal, -⟩ := packet_queue_invariant (fun t _ => t) 10 hfits samplePackets
  exact ⟨hfits, q, hrun, hsize, htotal⟩

/-- No packet is lost or returned twice by any sequence of calls, and the packets of a flow keep their order. -/
theorem drr_conservation (codelControlLaw : Instant → UInt32 → Instant) (quantum : Nat)
    (hfits : (PacketQueue.new quantum).maxBytesTotal < 2 ^ 64) (ops : List PacketQueue.Op)
    (hsmall : ∀ info ∈ ops.filterMap PacketQueue.Op.pushed?, info.size ≤ (PacketQueue.new quantum).quantum) :
    ∃ ms q, (PacketQueue.new quantum).execLogAll codelControlLaw ops = some (ms, q) ∧
      ops.foldlM (PacketQueue.exec codelControlLaw) (PacketQueue.new quantum) = some q ∧
      PacketQueue.Conservation (ops.filterMap PacketQueue.Op.pushed?) ms q := by
  obtain ⟨ms, q, hlog, hexec, hkept, hmoves, hputs⟩ :=
    PacketQueue.Kept.execLogAll codelControlLaw ops (PacketQueue.Kept.new hfits)
  refine ⟨ms, q, hlog, hexec, ?_⟩
  have hall : Fifo.puts ms = ops.filterMap PacketQueue.Op.pushed? := by
    rw [hputs]
    refine filter_eq_self.mpr fun info hinfo => decide_eq_true ?_
    have := hsmall info hinfo
    omega
  rw [← hall]
  exact hkept.conservation hmoves

/-- Three packets of one flow, of which the first two are returned. -/
theorem drr_conservation_two_returned : let packet (n : UInt8) := TrafficPacket.new 0 0 [n]
    let ops : List PacketQueue.Op := [.push (packet 1) 0, .push (packet 2) 1, .popInfo, .push (packet 3) 2, .popInfo]
    ∃ ms q, (PacketQueue.new 0).execLogAll (fun t _ => t) ops = some (ms, q) ∧
      PacketQueue.Conservation (ops.filterMap PacketQueue.Op.pushed?) ms q := by
  intro packet ops
  have hsmall : ∀ info ∈ ops.filterMap PacketQueue.Op.pushed?,
      info.size ≤ (PacketQueue.new 0).quantum := by decide +kernel
  obtain ⟨ms, q, hlog, -, hbooks⟩ := drr_conservation (fun t _ => t) 0 (by decide) ops hsmall
  exact ⟨ms, q, hlog, hbooks⟩

end Yggdrasil
