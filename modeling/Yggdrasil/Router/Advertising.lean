import Yggdrasil.Router.PeerIds

/-!
# The filters a peer was sent

The entry of a peer in the table of `bloom.rs` holds the filter advertised to it.
-/

namespace Yggdrasil
open Router List Option HashMap

theorem getLast?_append_of_forall {α : Type} {l l' : List α} {a : α} (h : l.getLast? = some a) (h' : ∀ b ∈ l', b = a) :
    (l ++ l').getLast? = some a := by
  rw [getLast?_append, h]
  cases hlast : l'.getLast? with
  | none => rfl
  | some b =>
    rw [h' b (mem_of_getLast? hlast)]
    rfl

/-! ## One entry in a pass -/

def BloomInfo.Clean (held : BloomFilter) (info : BloomInfo) : Prop := info.zDirty = true ∨ held.merge info.send = held

namespace BloomInfo
variable {held : BloomFilter} {info : BloomInfo}

theorem getLsbD_advertised {i : Nat} (h : held.bits.getLsbD i = true) :
    (info.advertised held).bits.getLsbD i = true := by
  unfold advertised
  split
  · exact h
  · rw [BloomFilter.getLsbD_merge, h, Bool.true_or]

theorem merge_self (f : BloomFilter) : f.merge f = f := BloomFilter.ext_bits fun i => by simp

theorem merge_blank (f : BloomFilter) : f.merge BloomFilter.new = f :=
  BloomFilter.ext_bits fun i => by simp [BloomFilter.new]

theorem clean_next (held : BloomFilter) (info : BloomInfo) : (info.next held).Clean held := by
  unfold Clean next
  by_cases hsame : info.advertised held = held
  · rw [hsame]
    exact .inr (merge_self held)
  cases hdirty : info.zDirty with
  | true => exact absurd (by simp [advertised, hdirty]) hsame
  | false => exact .inl (by simp [hsame])

theorem Clean.advertised (h : info.Clean held) : info.advertised held = held := by
  unfold BloomInfo.advertised
  rcases h with hdirty | hsame
  · rw [if_pos hdirty]
  · rw [hsame, ite_self]

end BloomInfo

namespace Blooms
variable (env : Env) {self : Blooms} {selfKey selfParent : PublicKey} {infos : HashMap PublicKey PublicKey}
  {transform : Option (PublicKey → PublicKey)} {o : ToSend}

theorem doMaintenance_entry (ho : self.doMaintenance env selfKey selfParent infos transform = some o) {k : PublicKey}
    {info' : BloomInfo} (hinfo' : o.blooms.blooms.lookup k = some info') :
    ∃ info, self.blooms.lookup k = some info ∧
      if info'.onTree then info' = { info with onTree := true }.next (o.blooms.heldFor env k selfKey transform)
      else info'.send = if info.onTree then BloomFilter.new else info.send := by
  obtain ⟨adv, hadv, h⟩ := self.doMaintenance_advertised env selfKey selfParent infos transform
  obtain rfl := some.inj (hadv.symm.trans ho)
  have hfixed : ∀ k, (self.fixOnTree selfKey selfParent infos).blooms.blooms.lookup k = _ := fun k =>
    lookup_mapValues ..
  -- the loop changes neither marks nor received filters
  have hheld : adv.blooms.heldFor env k selfKey transform =
      (self.fixOnTree selfKey selfParent infos).blooms.heldFor env k selfKey transform := by
    refine heldFor_congr env (fun k' => ?_) k selfKey transform
    rw [h.lookup, Option.map_map]
    split <;> rfl
  have hmem : k ∈ (self.fixOnTree selfKey selfParent infos).blooms.onTreeKeys ↔ _ := mem_onTreeKeys
  rw [h.lookup, hfixed] at hinfo'
  rw [hfixed] at hmem
  rw [hheld]
  cases hinfo : self.blooms.lookup k with
  | none =>
    rw [hinfo] at hinfo'
    cases hinfo'
  | some info =>
    rw [hinfo] at hinfo' hmem
    simp only [map_some, some.injEq, exists_eq_left'] at hinfo' hmem
    cases htree : onTree selfKey selfParent infos k with
    | true =>
      rw [htree] at hinfo' hmem
      rw [if_pos (hmem.mpr rfl)] at hinfo'
      subst hinfo'
      simp [BloomInfo.next]
    | false =>
      rw [htree] at hinfo' hmem
      rw [if_neg (by simp [hmem])] at hinfo'
      subst hinfo'
      simp

end Blooms

namespace FullRouter
variable {self r r' r'' : FullRouter} {env : Env} {id : PeerId} {k key : PublicKey} {o : Outcome}

/-! ## Filters in the actions of a call -/

def filtersOn (id : PeerId) (actions : List RouterAction) : List BloomFilter :=
  actions.filterMap fun
    | .sendBloom peerId bloom => if peerId = id then some bloom else none
    | _ => none

@[simp] theorem filtersOn_append (id : PeerId) (l l' : List RouterAction) :
    filtersOn id (l ++ l') = filtersOn id l ++ filtersOn id l' := filterMap_append

theorem mem_filtersOn {f : BloomFilter} {actions : List RouterAction} :
    f ∈ filtersOn id actions ↔ .sendBloom id f ∈ actions := by
  unfold filtersOn
  rw [mem_filterMap]
  constructor
  · rintro ⟨a, ha, hf⟩
    cases a <;> simp_all
  · exact fun h => ⟨_, h, by simp⟩

theorem filtersOn_eq_nil {actions : List RouterAction} (h : ∀ f, .sendBloom id f ∉ actions) :
    filtersOn id actions = [] :=
  eq_nil_iff_forall_not_mem.mpr fun f hf => h f (mem_filtersOn.mp hf)

theorem filtersOn_map (id : PeerId) (ids : List PeerId) (f : BloomFilter) :
    filtersOn id (ids.map fun peerId => .sendBloom peerId f) = (ids.filter (· = id)).map fun _ => f := by
  unfold filtersOn
  rw [filterMap_map, ← filterMap_eq_map, ← filterMap_eq_filter, filterMap_filterMap]
  refine filterMap_congr fun peerId _ => ?_
  by_cases hid : peerId = id
  · simp [hid]
  · simp [hid, Option.guard]

structure SameFilters (r r' : FullRouter) : Prop where
  crypto : r'.crypto = r.crypto
  transform : r'.bloomTransform = r.bloomTransform
  peers : r'.peers = r.peers
  blooms : r'.blooms = r.blooms

theorem SameFilters.refl (r : FullRouter) : SameFilters r r := ⟨rfl, rfl, rfl, rfl⟩

theorem SameFilters.trans (h : SameFilters r r') (h' : SameFilters r' r'') : SameFilters r r'' where
  crypto := h'.crypto.trans h.crypto
  transform := h'.transform.trans h.transform
  peers := h'.peers.trans h.peers
  blooms := h'.blooms.trans h.blooms

theorem SameFilters.routed {r' : Router} (h : Router.Routed r.toRouter r') :
    SameFilters r { r with toRouter := r' } := by
  rw [h.frame]
  exact ⟨rfl, rfl, rfl, rfl⟩

theorem ready_filters (self : FullRouter) (now : Instant) : SameFilters self (self.ready now) := by
  rw [ready_frame]
  exact ⟨rfl, rfl, rfl, rfl⟩

theorem Fixed.filters (h : Fixed self o) : SameFilters self o.router := by
  cases h with
  | flag doRoot1 => exact ⟨rfl, rfl, rfl, rfl⟩
  | restarted ho | announced now _ ho =>
    rw [ho.frame]
    exact ⟨rfl, rfl, rfl, rfl⟩

theorem expireInfos_filters (self : FullRouter) (now : Instant) : SameFilters self (self.expireInfos now) := by
  refine expireInfos_induct (P := SameFilters self) (SameFilters.refl self) (fun r k h => h.trans ?_) now
  unfold expire
  split <;> exact ⟨rfl, rfl, rfl, rfl⟩

theorem handleAnnounce_filters (self : FullRouter) (peerId : PeerId) (peerKey : PublicKey) (ann : RouterAnnounce)
    (now : Instant) : SameFilters self (self.handleAnnounce peerId peerKey ann now).router ∧
      ∀ id, filtersOn id (self.handleAnnounce peerId peerKey ann now).actions = [] := by
  unfold handleAnnounce
  rcases self.update_cases ann now with hupdate | hupdate
  · simp only [hupdate, if_true]
    split <;> exact ⟨⟨rfl, rfl, rfl, rfl⟩, fun _ => rfl⟩
  simp only [hupdate, Bool.false_eq_true, if_false]
  split
  · exact ⟨SameFilters.refl self, fun _ => rfl⟩
  refine ⟨⟨rfl, rfl, rfl, rfl⟩, fun id => ?_⟩
  split <;> rfl

/-! ## What a call does -/

def Msg.maintains : Msg → Bool
  | .forceRefresh | .maintenance _ => true
  | _ => false

inductive Advertises (env : Env) (r : FullRouter) (call : Call) (o : Outcome) : Prop
  | addPeer (entry : PeerEntry) : call.msg = .addPeer entry → r.addPeer entry (call.rand 0) = some o →
      Advertises env r call o
  | removePeer (peerId : PeerId) (key : PublicKey) (port : PeerPort) : call.msg = .removePeer peerId key port →
      o = r.removePeer peerId key port → Advertises env r call o
  | handleBloom (peerKey : PublicKey) (filter : BloomFilter) : call.msg = .handleBloom peerKey filter →
      o = { actions := [], router := r.handleBloom peerKey filter } → Advertises env r call o
  | pass {mid : FullRouter} {bloomed : Outcome} : call.msg.maintains = true → SameFilters r mid →
      mid.bloomsMaintenance env = some bloomed → SameFilters bloomed.router o.router →
      (∀ id, filtersOn id o.actions = filtersOn id bloomed.actions) → Advertises env r call o
  | other : call.msg.maintains = false → SameFilters r o.router → (∀ id, filtersOn id o.actions = []) →
      Advertises env r call o

theorem filtersOn_acts {r : Router} {m : Router.PathMsg} {o : Router.Outcome} (h : Router.Acts r (Router.Emits r m) o)
    (id : PeerId) : filtersOn id o.actions = [] := by
  refine filtersOn_eq_nil fun f hf => ?_
  cases h.actions _ hf

variable {call : Call} {entry : PeerEntry} {n : UInt64} {peerId : PeerId} {port : PeerPort} {info : BloomInfo}
  {calls : List Call}

theorem doMaintenance_advertises {clk : Clock} {rand : Nat → UInt64} (hmsg : call.msg.maintains = true)
    (hself : SameFilters r self) (ho : self.doMaintenance env clk rand = some o) : Advertises env r call o := by
  rw [doMaintenance_eq] at ho
  have hfix := fix_fixed (self.ready clk.now) rand clk.now
  generalize (self.ready clk.now).fix rand clk.now = fixed at ho hfix
  obtain ⟨announced, hannounced, hsent⟩ := fixed.router.sendAnnounces_announces
  obtain ⟨bloomed, hbloomed, -⟩ := announced.router.bloomsMaintenance_keeps env
  have hacts := maintainPaths_acts (m := .forceLookup 0) env clk bloomed.router.toRouter
  unfold afterFix at ho
  simp only [hannounced, hbloomed] at ho
  cases ho
  have hmid : SameFilters fixed.router announced.router := by
    rw [hsent.frame]
    exact ⟨rfl, rfl, rfl, rfl⟩
  refine Advertises.pass hmsg (((hself.trans (self.ready_filters clk.now)).trans hfix.filters).trans hmid) hbloomed
    (SameFilters.routed hacts.routed) fun id => ?_
  have hfixed : filtersOn id fixed.actions = [] := filtersOn_eq_nil fun f hf => by
    obtain ⟨_, _, h⟩ := hfix.actions _ hf
    cases h
  have hannounces : filtersOn id announced.actions = [] := filtersOn_eq_nil fun f hf => by
    obtain ⟨_, _, -, _, _, -, h⟩ := hsent.actions _ hf
    cases h
  have hpaths : filtersOn id (bloomed.router.lift (maintainPaths env clk bloomed.router.toRouter)).actions = [] :=
    filtersOn_acts hacts id
  simp only [filtersOn_append, hfixed, hannounces, hpaths, nil_append, append_nil]

theorem exec_advertises (h : r.exec env call = some o) : Advertises env r call o := by
  obtain ⟨clk, rand, msg⟩ := call
  cases msg with
  | addPeer entry => exact Advertises.addPeer entry rfl h
  | removePeer peerId key port =>
    cases h
    exact Advertises.removePeer peerId key port rfl rfl
  | handleRequest peerId peerKey req =>
    cases h
    refine Advertises.other rfl (SameFilters.refl r) fun id => ?_
    unfold handleRequest
    split <;> rfl
  | handleResponse peerId key res rtt =>
    cases h
    obtain ⟨lags, rtts, responded, heq | ⟨-, heq⟩⟩ := r.handleResponse_cases peerId key res rtt <;>
      exact Advertises.other rfl (by rw [heq]; exact ⟨rfl, rfl, rfl, rfl⟩) fun _ => rfl
  | handleAnnounce peerId peerKey ann =>
    cases h
    obtain ⟨hsame, hquiet⟩ := r.handleAnnounce_filters peerId peerKey ann clk.now
    exact Advertises.other rfl hsame hquiet
  | handleBloom peerKey filter =>
    cases h
    exact Advertises.handleBloom peerKey filter rfl rfl
  | path msg =>
    cases h
    have hacts := handlePath_acts env clk r.toRouter msg
    exact Advertises.other rfl (SameFilters.routed hacts.routed) fun id => filtersOn_acts hacts id
  | forceRefresh =>
    have hforced : SameFilters r (r.forceRefresh clk.now) := ⟨rfl, rfl, rfl, rfl⟩
    exact doMaintenance_advertises rfl hforced h
  | maintenance wallJump =>
    refine doMaintenance_advertises rfl (SameFilters.trans ?_ (expireInfos_filters _ clk.now)) h
    split
    · exact ⟨rfl, rfl, rfl, rfl⟩
    · exact SameFilters.refl r

/-! ## Connections -/

def Linked (self : FullRouter) (k : PublicKey) (id : PeerId) : Prop :=
  ∃ conns, self.peers.lookup k = some conns ∧ (conns.lookup id).isSome

theorem mem_connections (hfiled : self.toRouter.Filed) : id ∈ self.connections k ↔ self.Linked k id := by
  unfold connections Linked
  cases hconns : self.peers.lookup k with
  | none => simp [mem_values]
  | some conns =>
    simp only [Option.getD_some, List.mem_map, HashMap.mem_values, Option.some.injEq, exists_eq_left',
      isSome_iff_exists]
    constructor
    · rintro ⟨p, ⟨id', hp⟩, rfl⟩
      rw [(hfiled k conns id' p hconns hp).2]
      exact ⟨p, hp⟩
    rintro ⟨p, hp⟩
    exact ⟨p, ⟨id, hp⟩, (hfiled k conns id p hconns hp).2⟩

theorem linked_congr (h : r'.peers = r.peers) : r'.Linked k id ↔ r.Linked k id := by
  unfold Linked
  rw [h]

theorem admitKey_linked (self : FullRouter) (entry : PeerEntry) (k : PublicKey) (id : PeerId) :
    (self.admitKey entry).Linked k id ↔ self.Linked k id := by
  unfold admitKey
  split
  · exact Iff.rfl
  next hnew =>
    unfold Linked
    rw [lookup_insert]
    by_cases hk : k = entry.key
    · simp [hk, hnew]
    · simp [hk]

theorem addPeer_linked (h : self.addPeer entry n = some o) :
    o.router.Linked k id ↔ k = entry.key ∧ id = entry.id ∨ self.Linked k id := by
  obtain ⟨conns, hconns, hpeers⟩ := (addPeer_added h).peers
  rw [← self.admitKey_linked entry]
  unfold Linked
  rw [hpeers, lookup_insert]
  by_cases hk : k = entry.key
  · subst hk
    rw [hconns]
    simp only [if_true, some.injEq, exists_eq_left', lookup_insert, true_and]
    by_cases hid : id = entry.id <;> simp [hid]
  · simp [hk]

theorem removePeer_linked (h : (self.removePeer peerId key port).router.Linked k id) : self.Linked k id := by
  obtain ⟨conns, hconns, hid⟩ := h
  rw [removePeer_peers, lookup_remove₂] at hconns
  split at hconns
  next hk =>
    obtain ⟨hsome, -⟩ := filter_eq_some_iff.mp hconns
    obtain ⟨conns', hconns', rfl⟩ := map_eq_some_iff.mp hsome
    rw [lookup_remove] at hid
    split at hid
    · cases hid
    · exact ⟨conns', hk ▸ hconns', hid⟩
  · exact ⟨conns, hconns, hid⟩

/-! ## Filters for connections that come and go -/

theorem resend_filters (self : FullRouter) (entry : PeerEntry) (id : PeerId) :
    filtersOn id (self.resend entry) = [] := by
  refine filtersOn_eq_nil fun f hf => ?_
  unfold resend at hf
  split at hf
  · obtain ⟨ann, -, h⟩ := mem_map.mp hf
    cases h
  · cases hf

theorem addPeer_filters (h : self.addPeer entry n = some o) (id : PeerId) :
    filtersOn id o.actions = if id = entry.id then (o.router.blooms.getSendBloom entry.key).toList else [] := by
  unfold addPeer at h
  dsimp only at h
  split at h
  · cases h
  split at h
  · cases h
  cases h
  rw [filtersOn_append, filtersOn_append, resend_filters]
  cases (Blooms.getSendBloom _ entry.key) with
  | none => simp [filtersOn]
  | some f =>
    by_cases hid : id = entry.id
    · simp [filtersOn, hid]
    · simp [filtersOn, hid, Ne.symm hid]

theorem addPeer_blooms (h : self.addPeer entry n = some o) (hinfo : o.router.blooms.blooms.lookup k = some info) :
    self.blooms.blooms.lookup k = some info ∨ k = entry.key ∧ self.peers.lookup k = none ∧ info = BloomInfo.new := by
  rw [(addPeer_added h).frame] at hinfo
  unfold admitKey at hinfo
  split at hinfo
  · exact .inl hinfo
  next hnew =>
    unfold Blooms.addInfo at hinfo
    split at hinfo
    · exact .inl hinfo
    rw [lookup_insert] at hinfo
    split at hinfo
    next hk => exact .inr ⟨hk, hk ▸ hnew, (some.inj hinfo).symm⟩
    · exact .inl hinfo

theorem removePeer_blooms (h : (self.removePeer peerId key port).router.blooms.blooms.lookup k = some info) :
    self.blooms.blooms.lookup k = some info := by
  unfold removePeer at h
  dsimp only at h
  split at h
  · exact h
  split at h
  · change (self.blooms.blooms.remove key).lookup k = some info at h
    rw [lookup_remove] at h
    split at h
    · cases h
    · exact h
  · exact h

theorem removePeer_filters {f : BloomFilter} (hfiled : self.toRouter.Filed)
    (h : f ∈ filtersOn id (self.removePeer peerId key port).actions) :
    self.Linked key id ∧ self.blooms.getSendBloom key = some f := by
  rw [mem_filtersOn] at h
  unfold removePeer at h
  dsimp only at h
  split at h
  · cases h
  next conns hconns =>
    split at h
    · cases h
    obtain ⟨bloom, hbloom, ha⟩ := mem_flatMap.mp h
    obtain ⟨p, hp, heq⟩ := mem_map.mp ha
    obtain ⟨id', hid'⟩ := mem_values.mp hp
    rw [lookup_remove] at hid'
    split at hid'
    · cases hid'
    obtain ⟨rfl, rfl⟩ := RouterAction.sendBloom.inj heq
    refine ⟨⟨conns, hconns, ?_⟩, mem_toList.mp hbloom⟩
    rw [(hfiled key conns id' p hconns hid').2, hid']
    rfl

/-! ## Filters in a pass -/

theorem getLastD_sweep {conns : PublicKey → List PeerId} (hid : id ∈ conns k) (howner : ∀ k', id ∈ conns k' → k' = k)
    (toSend : List (PublicKey × BloomFilter)) : ∀ f : BloomFilter,
      (filtersOn id (toSend.flatMap fun p => (conns p.1).map fun peerId => .sendBloom peerId p.2)).getLastD f =
        ((toSend.filter fun p => p.1 = k).map Prod.snd).getLastD f := by
  induction toSend with
  | nil => exact fun f => rfl
  | cons p toSend ih =>
    intro f
    rw [flatMap_cons, filtersOn_append, getLastD_append, ih, filtersOn_map]
    by_cases hp : p.1 = k
    · have hmem : id ∈ (conns p.1).filter (· = id) := by simp [hp, hid]
      obtain ⟨n, hn⟩ := Nat.exists_eq_succ_of_ne_zero (length_pos_of_mem hmem).ne'
      rw [map_const', hn, filter_cons_of_pos (by simpa using hp), map_cons, getLastD_cons]
      simp [getLastD_eq_getLast?, getLast?_replicate]
    have hnone : (conns p.1).filter (· = id) = [] := by
      rw [filter_eq_nil_iff]
      intro peerId hmem heq
      exact hp (howner p.1 (of_decide_eq_true heq ▸ hmem))
    rw [hnone, filter_cons_of_neg (by simpa using hp)]
    rfl

def heldFor (env : Env) (self : FullRouter) (k : PublicKey) : BloomFilter :=
  self.blooms.heldFor env k self.crypto.publicKey self.bloomTransform

theorem SameFilters.heldFor (h : SameFilters r r') (env : Env) (k : PublicKey) :
    r'.heldFor env k = r.heldFor env k := by
  unfold FullRouter.heldFor
  rw [h.blooms, h.crypto, h.transform]

structure Swept (env : Env) (r : FullRouter) (o : Outcome) : Prop where
  peers : o.router.peers = r.peers
  entry : ∀ k info', o.router.blooms.blooms.lookup k = some info' → ∃ info, r.blooms.blooms.lookup k = some info ∧
    if info'.onTree then info' = { info with onTree := true }.next (o.router.heldFor env k)
    else info'.send = if info.onTree then BloomFilter.new else info.send
  sent : ∀ k id, id ∈ r.connections k → (∀ k', id ∈ r.connections k' → k' = k) →
    ∀ info info', r.blooms.blooms.lookup k = some info → o.router.blooms.blooms.lookup k = some info' →
      (filtersOn id o.actions).getLastD info.send = info'.send

theorem bloomsMaintenance_swept (h : self.bloomsMaintenance env = some o) : Swept env self o := by
  unfold bloomsMaintenance at h
  dsimp only at h
  split at h
  · cases h
  next found hfound =>
    cases h
    refine ⟨rfl, fun k info' hinfo' => Blooms.doMaintenance_entry env hfound hinfo', ?_⟩
    intro k id hid howner info info' hinfo hinfo'
    have hsent := Blooms.doMaintenance_sent env hfound k
    rw [hinfo, hinfo', map_some, map_some, some.injEq, Prod.mk.injEq] at hsent
    rw [hsent.2]
    exact getLastD_sweep hid howner found.toSend info.send

theorem exec_swept (hmsg : call.msg.maintains = true) (h : r.exec env call = some o) : Swept env r o := by
  cases exec_advertises h with
  | addPeer entry hcall | removePeer peerId key port hcall | handleBloom peerKey filter hcall | other hcall =>
    rw [hcall] at hmsg
    cases hmsg
  | pass _ hmid hbloomed hdone hactions =>
    have hswept := bloomsMaintenance_swept hbloomed
    refine ⟨hdone.peers.trans (hswept.peers.trans hmid.peers), fun k info' hinfo' => ?_, ?_⟩
    · rw [hdone.blooms] at hinfo'
      rw [hdone.heldFor, ← hmid.blooms]
      exact hswept.entry k info' hinfo'
    intro k id hid howner info info' hinfo hinfo'
    rw [hactions]
    refine hswept.sent k id ?_ ?_ info info' (hmid.blooms.symm ▸ hinfo) (hdone.blooms ▸ hinfo')
    · unfold connections
      rw [hmid.peers]
      exact hid
    unfold connections
    rw [hmid.peers]
    exact howner

/-! ## Runs -/

def Watched.after (w : Watched) (call : Call) (o : Outcome) : Watched :=
  { router := o.router, log := w.log ++ [{ before := w.router, call, outcome := o }] }

def Watched.sentOn (w : Watched) (id : PeerId) : List BloomFilter :=
  w.log.flatMap fun rec => filtersOn id rec.outcome.actions

/-- The entries hold what was sent last. -/
structure Tracked (w : Watched) : Prop where
  filed : w.router.toRouter.Filed
  known : ∀ k id, w.router.Linked k id → id ∈ opened (w.log.map Record.call)
  owner : ∀ k k' id, w.router.Linked k id → w.router.Linked k' id → k' = k
  sent : ∀ k info, w.router.blooms.blooms.lookup k = some info → ∀ id, w.router.Linked k id →
    (w.sentOn id).getLast? = some info.send
  blank : ∀ k info, w.router.blooms.blooms.lookup k = some info → info.onTree = false → info.send = BloomFilter.new

theorem tracked_new (crypto : Crypto) (config : FullConfig) (now : Instant) :
    Tracked (Watched.new crypto config now) where
  filed k conns id p h := absurd h (by simp [Watched.new, new, Router.new])
  known k id h := by
    obtain ⟨conns, hconns, -⟩ := h
    simp [Watched.new, new, Router.new] at hconns
  owner k k' id h := by
    obtain ⟨conns, hconns, -⟩ := h
    simp [Watched.new, new, Router.new] at hconns
  sent k info h := absurd h (by simp [Watched.new, new, Router.new])
  blank k info h := absurd h (by simp [Watched.new, new, Router.new])

section Exec
variable {w : Watched} {call : Call}

theorem opened_snoc (w : Watched) (call : Call) (o : Outcome) :
    opened ((w.after call o).log.map Record.call) = opened (w.log.map Record.call) ++ opened [call] := by
  unfold opened Watched.after
  rw [map_append, filterMap_append]
  rfl

theorem sentOn_snoc (w : Watched) (call : Call) (o : Outcome) (id : PeerId) :
    (w.after call o).sentOn id = w.sentOn id ++ filtersOn id o.actions := by
  simp [Watched.sentOn, Watched.after]

theorem Tracked.of_linked (h : Tracked w) (hexec : w.router.exec env call = some o)
    (hlinked : ∀ k id, o.router.Linked k id → w.router.Linked k id)
    (hsent : ∀ k info', o.router.blooms.blooms.lookup k = some info' → ∀ id, o.router.Linked k id →
      (w.sentOn id ++ filtersOn id o.actions).getLast? = some info'.send)
    (hblank : ∀ k info', o.router.blooms.blooms.lookup k = some info' → info'.onTree = false →
      info'.send = BloomFilter.new) : Tracked (w.after call o) where
  filed := Step.filed (congrArg (Option.map Outcome.router) hexec) h.filed
  known k id hid := by
    rw [opened_snoc]
    exact mem_append_left _ (h.known k id (hlinked k id hid))
  owner k k' id hid hid' := h.owner k k' id (hlinked k id hid) (hlinked k' id hid')
  sent k info' hinfo' id hid := by
    rw [sentOn_snoc]
    exact hsent k info' hinfo' id hid
  blank := hblank

theorem Tracked.addPeer (h : Tracked w) {entry : PeerEntry} (hmsg : call.msg = .addPeer entry)
    (hexec : w.router.exec env call = some o) (ho : w.router.addPeer entry (call.rand 0) = some o)
    (hnew : entry.id ∉ opened (w.log.map Record.call)) : Tracked (w.after call o) := by
  have hunlinked : ∀ k, ¬ w.router.Linked k entry.id := fun k hid => hnew (h.known k _ hid)
  refine ⟨Step.filed (congrArg (Option.map Outcome.router) hexec) h.filed, fun k id hid => ?_,
    fun k k' id hid hid' => ?_, fun k info hinfo id hid => ?_, fun k info hinfo htree => ?_⟩
  · rw [opened_snoc, mem_append]
    rcases (addPeer_linked ho).mp hid with ⟨-, rfl⟩ | hid
    · unfold opened
      simp [hmsg]
    · exact .inl (h.known k id hid)
  · rcases (addPeer_linked ho).mp hid with ⟨rfl, rfl⟩ | hid
    · rcases (addPeer_linked ho).mp hid' with ⟨rfl, -⟩ | hid'
      · rfl
      · exact absurd hid' (hunlinked k')
    rcases (addPeer_linked ho).mp hid' with ⟨-, rfl⟩ | hid'
    · exact absurd hid (hunlinked k)
    · exact h.owner k k' id hid hid'
  · change o.router.blooms.blooms.lookup k = some info at hinfo
    rw [sentOn_snoc, addPeer_filters ho]
    rcases (addPeer_linked ho).mp hid with ⟨rfl, rfl⟩ | hid
    · unfold Blooms.getSendBloom
      rw [if_pos rfl, hinfo]
      simp
    have hne : id ≠ entry.id := by
      rintro rfl
      exact hunlinked k hid
    rw [if_neg hne, append_nil]
    rcases addPeer_blooms ho hinfo with hold | ⟨-, hnone, -⟩
    · exact h.sent k info hold id hid
    obtain ⟨conns, hconns, -⟩ := hid
    rw [hnone] at hconns
    cases hconns
  rcases addPeer_blooms ho hinfo with hold | ⟨-, -, rfl⟩
  · exact h.blank k info hold htree
  · rfl

theorem Tracked.removePeer (h : Tracked w) {peerId : PeerId} {port : PeerPort}
    (hexec : w.router.exec env call = some (w.router.removePeer peerId key port)) :
    Tracked (w.after call (w.router.removePeer peerId key port)) := by
  refine h.of_linked hexec (fun k id hid => removePeer_linked hid) (fun k info hinfo id hid => ?_)
    fun k info hinfo htree => h.blank k info (removePeer_blooms hinfo) htree
  have hlinked := removePeer_linked hid
  have hold := removePeer_blooms hinfo
  refine getLast?_append_of_forall (h.sent k info hold id hlinked) fun f hf => ?_
  -- what is sent on the connection is the filter of its own peer
  obtain ⟨hkey, hf⟩ := removePeer_filters h.filed hf
  obtain rfl := h.owner k key id hlinked hkey
  unfold Blooms.getSendBloom at hf
  rw [hold] at hf
  exact (some.inj hf).symm

theorem Tracked.handleBloom (h : Tracked w) {peerKey : PublicKey} {filter : BloomFilter}
    (hexec : w.router.exec env call = some { actions := [], router := w.router.handleBloom peerKey filter }) :
    Tracked (w.after call { actions := [], router := w.router.handleBloom peerKey filter }) := by
  have hentry : ∀ k info', (w.router.handleBloom peerKey filter).blooms.blooms.lookup k = some info' →
      ∃ info, w.router.blooms.blooms.lookup k = some info ∧ info'.send = info.send ∧ info'.onTree = info.onTree := by
    intro k info' hinfo'
    change (w.router.blooms.blooms.modify peerKey _).lookup k = some info' at hinfo'
    rw [lookup_modify] at hinfo'
    obtain ⟨info, hinfo, rfl⟩ := map_eq_some_iff.mp hinfo'
    refine ⟨info, hinfo, ?_⟩
    split <;> exact ⟨rfl, rfl⟩
  refine h.of_linked hexec (fun k id hid => hid) (fun k info' hinfo' id hid => ?_) fun k info' hinfo' htree => ?_
  · obtain ⟨info, hinfo, hsend, -⟩ := hentry k info' hinfo'
    rw [hsend]
    exact getLast?_append_of_forall (h.sent k info hinfo id hid) fun f hf => absurd hf not_mem_nil
  obtain ⟨info, hinfo, hsend, hmark⟩ := hentry k info' hinfo'
  rw [hsend]
  exact h.blank k info hinfo (hmark ▸ htree)

theorem Tracked.swept (h : Tracked w) (hexec : w.router.exec env call = some o) (hswept : Swept env w.router o) :
    Tracked (w.after call o) := by
  have hlinked : ∀ k id, o.router.Linked k id → w.router.Linked k id := fun k id => (linked_congr hswept.peers).mp
  refine h.of_linked hexec hlinked (fun k info' hinfo' id hid => ?_) fun k info' hinfo' htree => ?_
  · obtain ⟨info, hinfo, -⟩ := hswept.entry k info' hinfo'
    have hid := hlinked k id hid
    have hlast := hswept.sent k id ((mem_connections h.filed).mpr hid)
      (fun k' hk' => h.owner k k' id hid ((mem_connections h.filed).mp hk')) info info' hinfo hinfo'
    rw [getLast?_append, h.sent k info hinfo id hid, ← hlast, getLastD_eq_getLast?]
    cases (filtersOn id o.actions).getLast? <;> rfl
  obtain ⟨info, hinfo, hentry⟩ := hswept.entry k info' hinfo'
  rw [htree, if_neg Bool.false_ne_true] at hentry
  rw [hentry]
  cases hmark : info.onTree with
  | true => rfl
  | false => exact h.blank k info hinfo hmark

theorem Tracked.exec (h : Tracked w) (hexec : w.router.exec env call = some o)
    (hids : (opened ((w.after call o).log.map Record.call)).Nodup) :
    Tracked (w.after call o) := by
  cases exec_advertises hexec with
  | addPeer entry hmsg ho =>
    refine h.addPeer hmsg hexec ho fun hmem => ?_
    rw [opened_snoc] at hids
    refine disjoint_of_nodup_append hids hmem ?_
    unfold opened
    simp [hmsg]
  | removePeer peerId key port _ ho =>
    subst ho
    exact h.removePeer hexec
  | handleBloom peerKey filter _ ho =>
    subst ho
    exact h.handleBloom hexec
  | pass hmsg => exact h.swept hexec (exec_swept hmsg hexec)
  | other _ hsame hquiet =>
    have hlinked : ∀ k id, o.router.Linked k id → w.router.Linked k id := fun k id => (linked_congr hsame.peers).mp
    refine h.of_linked hexec hlinked (fun k info hinfo id hid => ?_) fun k info hinfo htree => ?_
    · rw [hquiet, append_nil]
      exact h.sent k info (hsame.blooms ▸ hinfo) id (hlinked k id hid)
    · exact h.blank k info (hsame.blooms ▸ hinfo) htree

end Exec

/-- Every run keeps track of what was sent. -/
theorem tracked_of_run {crypto : Crypto} {config : FullConfig} {now : Instant} {w : Watched}
    (hids : (opened calls).Nodup) (h : (Watched.new crypto config now).execAll env calls = some w) : Tracked w := by
  have hlog : w.log.map Record.call = calls := Watched.execAll_log h
  rw [← hlog] at hids
  refine (Lts.run_of_foldlM h).invariant (I := fun w => (opened (w.log.map Record.call)).Nodup → Tracked w)
    (fun _ => tracked_new crypto config now) (fun w call w' ih he hids => ?_) hids
  obtain ⟨o, ho, rfl⟩ := map_eq_some_iff.mp he
  have hold : (opened (w.log.map Record.call)).Nodup := List.Nodup.of_append_left (opened_snoc w call o ▸ hids)
  exact (ih hold).exec ho hids

/-! ## Two passes -/

def Held (env : Env) (self : FullRouter) (k : PublicKey) (i : Nat) : Prop :=
  (BloomFilter.ofKey env (keyBytes (Blooms.xKey self.crypto.publicKey self.bloomTransform))).bits.getLsbD i = true ∨
    ∃ k' info, self.blooms.blooms.lookup k' = some info ∧ info.onTree = true ∧ k' ≠ k ∧
      info.recv.bits.getLsbD i = true

theorem held_iff (env : Env) (self : FullRouter) (k : PublicKey) (i : Nat) :
    self.Held env k i ↔ (self.heldFor env k).bits.getLsbD i = true :=
  (Blooms.getLsbD_heldFor env self.blooms k self.crypto.publicKey self.bloomTransform i).symm

def CleanFor (self : FullRouter) (held : BloomFilter) (k : PublicKey) : Prop :=
  ∀ info, self.blooms.blooms.lookup k = some info → info.Clean held

theorem Swept.cleanFor (h : Swept env r o) (hblank : ∀ k info, o.router.blooms.blooms.lookup k = some info →
    info.onTree = false → info.send = BloomFilter.new) (k : PublicKey) :
    o.router.CleanFor (o.router.heldFor env k) k := by
  intro info' hinfo'
  obtain ⟨info, -, hentry⟩ := h.entry k info' hinfo'
  cases htree : info'.onTree with
  | true =>
    rw [htree, if_pos rfl] at hentry
    rw [hentry]
    exact BloomInfo.clean_next _ _
  | false =>
    refine .inr ?_
    rw [hblank k info' hinfo' htree]
    exact BloomInfo.merge_blank _

theorem CleanFor.step {held : BloomFilter} (h : r.CleanFor held k) (hmsg : call.msg.maintains = false)
    (hexec : r.exec env call = some o) : o.router.CleanFor held k := by
  intro info' hinfo'
  cases exec_advertises hexec with
  | addPeer entry _ ho =>
    rcases addPeer_blooms ho hinfo' with hinfo | ⟨-, -, rfl⟩
    · exact h info' hinfo
    · exact .inr (BloomInfo.merge_blank held)
  | removePeer peerId key port _ ho =>
    subst ho
    exact h info' (removePeer_blooms hinfo')
  | handleBloom peerKey filter _ ho =>
    subst ho
    change (r.blooms.blooms.modify peerKey _).lookup k = some info' at hinfo'
    rw [lookup_modify] at hinfo'
    obtain ⟨info, hinfo, rfl⟩ := map_eq_some_iff.mp hinfo'
    have hclean := h info hinfo
    split <;> exact hclean
  | pass hpass =>
    rw [hmsg] at hpass
    cases hpass
  | other _ hsame => exact h info' (hsame.blooms ▸ hinfo')

theorem CleanFor.execAll {held : BloomFilter} (h : r.CleanFor held k)
    (hmsg : ∀ call ∈ calls, call.msg.maintains = false) (hexec : r.execAll env calls = some r') :
    r'.CleanFor held k := by
  refine (Lts.run_of_foldlM hexec).invariant_mem (I := fun r => r.CleanFor held k) h fun r call r' hmem hr hstep => ?_
  obtain ⟨o, ho, rfl⟩ := map_eq_some_iff.mp hstep
  exact hr.step (hmsg call hmem) ho

theorem Swept.covers (h : Swept env r o) (hinfo : o.router.blooms.blooms.lookup k = some info)
    (htree : info.onTree = true) {i : Nat} (hi : o.router.Held env k i) : info.send.bits.getLsbD i = true := by
  obtain ⟨old, -, hentry⟩ := h.entry k info hinfo
  rw [htree, if_pos rfl] at hentry
  rw [hentry]
  exact BloomInfo.getLsbD_advertised ((held_iff env o.router k i).mp hi)

theorem Swept.exact (h : Swept env r o) (hclean : r.CleanFor (o.router.heldFor env k) k)
    (hinfo : o.router.blooms.blooms.lookup k = some info) (htree : info.onTree = true) (i : Nat) :
    info.send.bits.getLsbD i = true ↔ o.router.Held env k i := by
  obtain ⟨old, hold, hentry⟩ := h.entry k info hinfo
  rw [htree, if_pos rfl] at hentry
  have hmarked : BloomInfo.Clean (o.router.heldFor env k) { old with onTree := true } := hclean old hold
  have hsend : info.send = o.router.heldFor env k := by
    rw [hentry]
    exact hmarked.advertised
  rw [hsend, held_iff]

theorem exists_linked (hbook : r.Bookkept) (hinfo : r.blooms.blooms.lookup k = some info) : ∃ id, r.Linked k id := by
  obtain ⟨conns, hconns⟩ := isSome_iff_exists.mp ((hbook.blooms k).trans (by rw [hinfo]; rfl))
  obtain ⟨id, hid⟩ := exists_mem_of_ne_nil _ (hbook.connected k conns hconns)
  exact ⟨id, conns, hconns, isSome_iff_exists.mpr (mem_keys_iff.mp hid)⟩

theorem Watched.execAll_router {w w' : Watched} (h : w.execAll env calls = some w') :
    w.router.execAll env calls = some w'.router := by
  induction calls generalizing w with
  | nil =>
    cases h
    rfl
  | cons call calls ih =>
    obtain ⟨w1, hw1, hrest⟩ := bind_eq_some_iff.mp h
    obtain ⟨o, ho, rfl⟩ := map_eq_some_iff.mp hw1
    unfold FullRouter.execAll
    rw [foldlM_cons, ho]
    exact ih hrest

/-- **Advertised filters are tracked.** If ids of connections are given out once: every entry is one of a connected
peer, and holds the last filter sent on each connection, blank off the tree. After a maintenance pass a peer on the tree
is sent the own key and the filters of the other peers on the tree; if this is the same at the next pass, nothing else.
-/
theorem advertised_filters {crypto : Crypto} {config : FullConfig} {now : Instant} {calls : List Call} {w : Watched}
    (hids : (opened calls).Nodup) (hw : (Watched.new crypto config now).execAll env calls = some w) :
    (∀ k info, w.router.blooms.blooms.lookup k = some info → (∃ id, w.router.Linked k id) ∧
      (∀ id, w.router.Linked k id → (w.sentOn id).getLast? = some info.send) ∧
      (info.onTree = false → info.send = BloomFilter.new)) ∧
    ∀ pass o, pass.msg.maintains = true → w.router.exec env pass = some o →
      (∀ k info, o.router.blooms.blooms.lookup k = some info → info.onTree = true →
        ∀ i, o.router.Held env k i → info.send.bits.getLsbD i = true) ∧
      ∀ between r pass' o', (∀ call ∈ between, call.msg.maintains = false) → o.router.execAll env between = some r →
        pass'.msg.maintains = true → r.exec env pass' = some o' →
        ∀ k info, o'.router.blooms.blooms.lookup k = some info → info.onTree = true →
          (∀ i, o'.router.Held env k i ↔ o.router.Held env k i) →
          ∀ i, info.send.bits.getLsbD i = true ↔ o'.router.Held env k i := by
  have htracked := tracked_of_run hids hw
  have hbook : w.router.Bookkept := by
    obtain ⟨r, hr, hbook⟩ := (bookkept_new crypto config now).execAll env calls
    obtain rfl := some.inj (hr.symm.trans (Watched.execAll_router hw))
    exact hbook
  refine ⟨fun k info hinfo => ?_, fun pass o hpass ho => ?_⟩
  · exact ⟨exists_linked hbook hinfo, htracked.sent k info hinfo, htracked.blank k info hinfo⟩
  have hswept := exec_swept hpass ho
  have hblank := (htracked.swept ho hswept).blank
  refine ⟨fun k info hinfo htree i hi => hswept.covers hinfo htree hi, ?_⟩
  intro between r pass' o' hbetween hr hpass' ho' k info hinfo htree hheld
  have hsame : o'.router.heldFor env k = o.router.heldFor env k := by
    refine BloomFilter.ext_bits fun i => ?_
    rw [Bool.eq_iff_iff, ← held_iff, ← held_iff]
    exact hheld i
  have hclean := (hswept.cleanFor hblank k).execAll hbetween hr
  rw [← hsame] at hclean
  exact (exec_swept hpass' ho').exact hclean hinfo htree

def twinChild : Msg := .handleAnnounce 1 7 ⟨7, 9, 1, 0, 1, 0, 0⟩

def secondPeer : PeerEntry := { twin 2 with key := 8, port := 2 }

/-- Two children, the second of which has sent a filter. -/
def childCalls : List Call :=
  [.addPeer (twin 1), .addPeer secondPeer, twinChild, .handleAnnounce 2 8 ⟨8, 9, 1, 0, 2, 0, 0⟩,
    .handleBloom 8 ⟨4⟩].map quietCall

def childFilter : BloomFilter := (BloomFilter.ofKey signingEnv (keyBytes 9)).merge ⟨4⟩

def childView (self : FullRouter) : BloomFilter × Option Bool :=
  (self.heldFor signingEnv 7, (self.blooms.blooms.lookup 7).map BloomInfo.onTree)

theorem execAll_snoc (h : r.execAll env calls = some r')
    (ho : r'.exec env call = some o) : r.execAll env (calls ++ [call]) = some o.router := by
  unfold execAll
  rw [foldlM_append]
  refine bind_eq_some_iff.mpr ⟨r', h, ?_⟩
  rw [foldlM_cons, ho]
  rfl

/-- The first child is sent the filter with the node's own key and what the second child has sent. -/
theorem advertised_filters_child :
    ∃ w o o' info, (Watched.new ⟨9, fun _ => 0⟩ ⟨⟨0, 0, none⟩, 0, 0⟩ 0).execAll signingEnv childCalls = some w ∧
    w.router.exec signingEnv (quietCall .forceRefresh) = some o ∧
    o.router.exec signingEnv (quietCall .forceRefresh) = some o' ∧
    o'.router.blooms.blooms.lookup 7 = some info ∧ info.onTree = true ∧ info.send = childFilter := by
  obtain ⟨w, hw, hbook⟩ := Lts.exists_foldlM (I := fun w : Watched => w.router.Bookkept) (fun w call hw => by
    obtain ⟨o, ho, hbook⟩ := hw.exec signingEnv call
    exact ⟨w.after call o, congrArg (Option.map (w.after call)) ho, hbook⟩)
    childCalls (Watched.new ⟨9, fun _ => 0⟩ ⟨⟨0, 0, none⟩, 0, 0⟩ 0) (bookkept_new _ _ 0)
  obtain ⟨o, ho, hbook⟩ := hbook.exec signingEnv (quietCall .forceRefresh)
  obtain ⟨o', ho', -⟩ := hbook.exec signingEnv (quietCall .forceRefresh)
  have hfirst := execAll_snoc (Watched.execAll_router hw) ho
  have hview : o.router.childView = (childFilter, some true) := Lts.read_eq childView hfirst (by decide +kernel)
  have hview' : o'.router.childView = (childFilter, some true) :=
    Lts.read_eq childView (execAll_snoc hfirst ho') (by decide +kernel)
  obtain ⟨hheld', htree⟩ := Prod.mk.inj hview'
  obtain ⟨info, hinfo, htree⟩ := map_eq_some_iff.mp htree
  refine ⟨w, o, o', info, hw, ho, ho', hinfo, htree, BloomFilter.ext_bits fun i => ?_⟩
  have hexact := ((advertised_filters (by decide) hw).2 _ o rfl ho).2 [] o.router (quietCall .forceRefresh) o'
    (by simp) rfl
    rfl ho' 7 info hinfo htree fun i => by rw [held_iff, held_iff, hheld', (Prod.mk.inj hview).1]
  rw [Bool.eq_iff_iff, hexact, held_iff, hheld']

end FullRouter

end Yggdrasil
