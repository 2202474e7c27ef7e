import Yggdrasil.Wire.Honest

/-!
# The ports of the connected keys

Any sequence of `Peers::allocate_peer` and `Peers::remove_peer`; the reader and the writer of a connection both remove
it. A port is taken with the first connection of a key and released with the last one.
-/

namespace Yggdrasil.Peers
open List Option HashMap

def connection (self : Peers) (key : PublicKey) (id : PeerId) : Option PeerEntry := self.handles.lookup₂ key id

def Uniform (peers : HashMap PeerId PeerEntry) (port : PeerPort) : Prop :=
  (∃ id e, peers.lookup id = some e) ∧ ∀ id e, peers.lookup id = some e → e.port = port

/-- `used_ports` has the ports of the connections. -/
structure Ported (peers : Peers) : Prop where
  capacity : peers.usedPorts.keys.length ≤ MAX_CAPACITY
  groups : ∀ key group, peers.handles.lookup key = some group →
    ∃ port, port ≠ 0 ∧ Uniform group port ∧ peers.usedPorts.lookup port = some key
  used : ∀ port key, peers.usedPorts.lookup port = some key →
    ∃ group, peers.handles.lookup key = some group ∧ Uniform group port

variable {self self' : Peers} {key : PublicKey} {id : PeerId} {group : HashMap PeerId PeerEntry} {port : PeerPort}

theorem Uniform.unique {port' : PeerPort} (h : Uniform group port) (h' : Uniform group port') : port = port' := by
  obtain ⟨id, e, he⟩ := h.1
  rw [← h.2 id e he, h'.2 id e he]

theorem Uniform.insert {entry : PeerEntry} (h : ∀ id e, group.lookup id = some e → e.port = entry.port) (id : PeerId) :
    Uniform (group.insert id entry) entry.port :=
  ⟨⟨id, entry, by simp [lookup_insert]⟩, forall_insert h rfl⟩

theorem Uniform.remove (h : Uniform group port) (hleft : (group.remove id).keys.isEmpty = false) :
    Uniform (group.remove id) port := by
  obtain ⟨id', hid'⟩ := exists_mem_of_ne_nil _ (isEmpty_eq_false_iff.mp hleft)
  obtain ⟨e, he⟩ := mem_keys_iff.mp hid'
  exact ⟨⟨id', e, he⟩, forall_remove h.2 id⟩

theorem ported_new : Peers.new.Ported := ⟨Nat.zero_le _, by simp [Peers.new], by simp [Peers.new]⟩

theorem Ported.join (h : self.Ported) (hgroup : self.handles.lookup key = some group) (entry : PeerEntry)
    (hport : Uniform group entry.port) (id nextId : PeerId) (order : UInt64) :
    Ported { self with nextId, order, handles := self.handles.insert key (group.insert id entry) } := by
  obtain ⟨port, hne, huniform, hused⟩ := h.groups key group hgroup
  obtain rfl := huniform.unique hport
  refine ⟨h.capacity, forall_insert h.groups ⟨_, hne, Uniform.insert hport.2 id, hused⟩, fun p k hp => ?_⟩
  obtain ⟨old, hold, hp'⟩ := h.used p k hp
  by_cases hk : k = key
  · subst hk
    obtain rfl := some.inj (hgroup.symm.trans hold)
    obtain rfl := hp'.unique hport
    exact ⟨_, by rw [lookup_insert, if_pos rfl], Uniform.insert hport.2 id⟩
  · exact ⟨old, by rw [lookup_insert, if_neg hk, hold], hp'⟩

theorem Ported.first (h : self.Ported) (hnew : self.handles.lookup key = none)
    (hcap : self.usedPorts.keys.length < MAX_CAPACITY) (entry : PeerEntry) (hport : entry.port = self.allocPort)
    (nextId : PeerId) (order : UInt64) :
    Ported { nextId, order, usedPorts := self.usedPorts.insert entry.port key
             handles := self.handles.insert key (HashMap.insert ∅ id entry) } := by
  obtain ⟨hne, hfree, -⟩ := allocPort_spec hcap.le
  rw [← hport] at hne hfree
  have hlookup : self.usedPorts.lookup entry.port = none :=
    eq_none_iff_forall_ne_some.mpr fun v hv => hfree (mem_keys_iff.mpr ⟨v, hv⟩)
  have huniform : Uniform (HashMap.insert ∅ id entry) entry.port := Uniform.insert (by simp) id
  refine ⟨?_, ?_, fun p k hp => ?_⟩
  · show (self.usedPorts.insert entry.port key).keys.length ≤ _
    rw [keys_insert_of_new hlookup]
    exact hcap
  · refine forall_insert (fun k old hold => ?_) ⟨_, hne, huniform, by rw [lookup_insert, if_pos rfl]⟩
    obtain ⟨p, hp, hold, hused⟩ := h.groups k old hold
    refine ⟨p, hp, hold, ?_⟩
    rw [lookup_insert, if_neg, hused]
    rintro rfl
    rw [hlookup] at hused
    cases hused
  rw [lookup_insert] at hp
  split at hp
  next heq =>
    cases hp
    exact ⟨_, by rw [lookup_insert, if_pos rfl], heq ▸ huniform⟩
  obtain ⟨old, hold, hp⟩ := h.used p k hp
  refine ⟨old, ?_, hp⟩
  rw [lookup_insert, if_neg, hold]
  rintro rfl
  rw [hnew] at hold
  cases hold

theorem Ported.allocatePeer (h : self.Ported) {prio : UInt8} {entry : PeerEntry}
    (halloc : self.allocatePeer key prio = some (entry, self')) : self'.Ported := by
  simp only [Peers.allocatePeer] at halloc
  split at halloc
  · cases halloc
  next hcap =>
    cases halloc
    cases hgroup : self.handles.lookup key with
    | none =>
      simp only [hgroup, bind_none, isNone_none, true_and, not_le] at hcap
      simpa [hgroup] using h.first hgroup hcap ⟨self.nextId, key, self.allocPort, prio, self.order⟩ rfl _ _
    | some group =>
      obtain ⟨port, -, huniform, -⟩ := h.groups key group hgroup
      obtain ⟨id, e, he⟩ := huniform.1
      cases hvalues : group.values with
      | nil => simpa [hvalues] using mem_values.mpr ⟨id, he⟩
      | cons first rest =>
        obtain ⟨id', hfirst⟩ := mem_values.mp (hvalues ▸ mem_cons_self : first ∈ group.values)
        have hport : Uniform group first.port := huniform.2 id' first hfirst ▸ huniform
        simpa [hgroup, hvalues] using
          h.join hgroup ⟨self.nextId, key, first.port, prio, self.order⟩ hport self.nextId _ _

theorem Ported.removePeer (h : self.Ported) (id : PeerId) (key : PublicKey) : (self.removePeer id key).Ported := by
  unfold Peers.removePeer
  split
  · exact h
  next group hgroup =>
    obtain ⟨port, hne, huniform, hused⟩ := h.groups key group hgroup
    dsimp only
    split
    next hempty =>
      -- the last connection of the key is the one with this id
      obtain ⟨id', e, he⟩ := huniform.1
      obtain rfl : id' = id := by
        by_contra hid
        have hleft : id' ∈ (group.remove id).keys :=
          mem_keys_iff.mpr ⟨e, by rw [lookup_remove, if_neg hid, he]⟩
        simp [isEmpty_iff.mp hempty] at hleft
      obtain rfl := huniform.2 id' e he
      rw [he]
      refine ⟨?_, fun k old hk => ?_, fun p k hp => ?_⟩
      · exact (AList.keys_erase e.port self.usedPorts ▸ erase_sublist).length_le.trans h.capacity
      · rw [lookup_remove, ite_none_left_eq_some] at hk
        obtain ⟨p, hp, hold, hused'⟩ := h.groups k old hk.2
        refine ⟨p, hp, hold, ?_⟩
        rw [lookup_remove, if_neg, hused']
        rintro rfl
        exact hk.1 (some.inj (hused'.symm.trans hused))
      rw [lookup_remove, ite_none_left_eq_some] at hp
      obtain ⟨old, hold, hp'⟩ := h.used p k hp.2
      refine ⟨old, ?_, hp'⟩
      rw [lookup_remove, if_neg, hold]
      rintro rfl
      obtain rfl := some.inj (hgroup.symm.trans hold)
      exact hp.1 (hp'.unique huniform)
    next hmore =>
      have hleft := huniform.remove (Bool.eq_false_of_not_eq_true hmore)
      refine ⟨h.capacity, fun k old hk => ?_, fun p k hp => ?_⟩
      · rw [lookup_modify] at hk
        by_cases heq : k = key
        · subst heq
          simp only [hgroup, if_true, map_some, some.injEq] at hk
          exact ⟨port, hne, hk ▸ hleft, hused⟩
        · exact h.groups k old (by simpa [heq] using hk)
      obtain ⟨old, hold, hp'⟩ := h.used p k hp
      by_cases heq : k = key
      · subst heq
        obtain rfl := some.inj (hgroup.symm.trans hold)
        exact ⟨_, by simp [lookup_modify, hgroup], hp'.unique huniform ▸ hleft⟩
      · exact ⟨old, by simp [lookup_modify, heq, hold], hp'⟩

/-! ## All calls -/

inductive Op where
  | allocatePeer (key : PublicKey) (prio : UInt8)
  | removePeer (id : PeerId) (key : PublicKey)

def exec (self : Peers) : Op → Option Peers
  | .allocatePeer key prio => (self.allocatePeer key prio).map Prod.snd
  | .removePeer id key => some (self.removePeer id key)

/-- The next id, and the connections that were allocated and not removed since. -/
def track : PeerId × Finset (PublicKey × PeerId) → Op → PeerId × Finset (PublicKey × PeerId)
  | (next, held), .allocatePeer key _ => (next + 1, insert (key, next) held)
  | (next, held), .removePeer id key => (next, held.erase (key, id))

def Holds (self : Peers) (s : PeerId × Finset (PublicKey × PeerId)) : Prop :=
  self.nextId = s.1 ∧ ∀ key id, (self.connection key id).isSome ↔ (key, id) ∈ s.2

theorem handles_removePeer (self : Peers) (id : PeerId) (key : PublicKey) :
    (self.removePeer id key).handles = self.handles.remove₂ key id ∧ (self.removePeer id key).nextId = self.nextId := by
  unfold Peers.removePeer remove₂
  cases self.handles.lookup key with
  | none => exact ⟨rfl, rfl⟩
  | some group =>
    dsimp only
    split <;> exact ⟨rfl, rfl⟩

theorem connection_allocatePeer {prio : UInt8} {entry : PeerEntry}
    (halloc : self.allocatePeer key prio = some (entry, self')) (key' : PublicKey) (id : PeerId) :
    self'.connection key' id = if key' = key ∧ id = self.nextId then some entry else self.connection key' id := by
  simp only [Peers.allocatePeer] at halloc
  split at halloc
  · cases halloc
  cases halloc
  refine lookup₂_insert (fun i => ?_) self.nextId _ key' id
  rw [lookup₂]
  cases self.handles.lookup key <;> rfl

theorem Holds.exec {s : PeerId × Finset (PublicKey × PeerId)} (h : self.Holds s) {op : Op}
    (hexec : self.exec op = some self') : self'.Holds (track s op) := by
  obtain ⟨hnext, hheld⟩ := h
  cases op with
  | allocatePeer key prio =>
    obtain ⟨⟨entry, peers⟩, halloc, rfl⟩ := map_eq_some_iff.mp hexec
    refine ⟨?_, fun key' id => ?_⟩
    · simp only [Peers.allocatePeer] at halloc
      split at halloc <;> cases halloc
      exact congrArg (· + 1) hnext
    rw [connection_allocatePeer halloc, track, Finset.mem_insert, Prod.mk.injEq, ← hnext, ← hheld]
    split
    next heq => exact iff_of_true rfl (.inl heq)
    next hne => exact (or_iff_right hne).symm
  | removePeer id key =>
    cases hexec
    obtain ⟨hhandles, hid⟩ := handles_removePeer self id key
    refine ⟨hid.trans hnext, fun key' id' => ?_⟩
    rw [Peers.connection, hhandles, lookup₂_remove₂, track, Finset.mem_erase, ne_eq, Prod.mk.injEq, ← hheld]
    split
    next heq => exact iff_of_false Bool.false_ne_true fun h => h.1 heq
    next hne => exact (and_iff_right hne).symm

theorem Holds.run : ∀ (ops : List Op) {self : Peers} {s : PeerId × Finset (PublicKey × PeerId)}, self.Holds s →
    ops.foldlM Peers.exec self = some self' → self'.Holds (ops.foldl track s)
  | [], _, _, h, hrun => by
    cases hrun
    exact h
  | op :: ops, _, _, h, hrun => by
    rw [foldlM_cons] at hrun
    obtain ⟨mid, hexec, hrun⟩ := bind_eq_some_iff.mp hrun
    exact (h.exec hexec).run ops hrun

theorem Ported.exec (h : self.Ported) {op : Op} (hexec : self.exec op = some self') : self'.Ported := by
  cases op with
  | allocatePeer key prio =>
    obtain ⟨⟨entry, peers⟩, halloc, rfl⟩ := map_eq_some_iff.mp hexec
    exact h.allocatePeer halloc
  | removePeer id key =>
    cases hexec
    exact h.removePeer id key

theorem Ported.connection (h : self.Ported) {e : PeerEntry} (he : self.connection key id = some e) :
    e.port ≠ 0 ∧ self.usedPorts.lookup e.port = some key := by
  obtain ⟨group, hgroup, hid⟩ := bind_eq_some_iff.mp he
  obtain ⟨port, hne, huniform, hused⟩ := h.groups key group hgroup
  rw [huniform.2 id e hid]
  exact ⟨hne, hused⟩

/-- **Ports** after any sequence of calls, as long as the memory lasts: the connections are those allocated and not
removed since, they share a port exactly if they share the key, no port is 0, `used_ports` maps exactly their ports to
their keys, and the scan for a free port ends at the lowest one. -/
theorem port_allocation (ops : List Op) (self : Peers) (h : ops.foldlM Peers.exec Peers.new = some self) :
    (∀ key id, (self.connection key id).isSome ↔ (key, id) ∈ (ops.foldl track (1, ∅)).2) ∧
    (∀ key key' id id' e e', self.connection key id = some e → self.connection key' id' = some e' →
      (e.port = e'.port ↔ key = key')) ∧
    (∀ key id e, self.connection key id = some e → e.port ≠ 0) ∧
    (∀ key port, self.usedPorts.lookup port = some key ↔ ∃ id e, self.connection key id = some e ∧ e.port = port) ∧
    self.allocPort ≠ 0 ∧ self.usedPorts.lookup self.allocPort = none ∧
    ∀ p, p ≠ 0 → p < self.allocPort → (self.usedPorts.lookup p).isSome := by
  have hported : self.Ported :=
    (Lts.run_of_foldlM h).invariant ported_new fun _ _ _ hported hstep => hported.exec hstep
  obtain ⟨hne, hfree, hlow⟩ := allocPort_spec hported.capacity
  have hnew : Peers.new.Holds (1, ∅) := ⟨rfl, by simp [Peers.connection, Peers.new, lookup₂]⟩
  refine ⟨(hnew.run ops h).2, fun key key' id id' e e' he he' => ⟨fun hport => ?_, ?_⟩,
    fun key id e he => (hported.connection he).1, fun key port => ⟨fun hport => ?_, ?_⟩, hne, ?_, fun p hp hlt => ?_⟩
  · have hkey := (hported.connection he).2
    rw [hport, (hported.connection he').2] at hkey
    exact (some.inj hkey).symm
  · rintro rfl
    obtain ⟨group, hgroup, hid⟩ := bind_eq_some_iff.mp he
    obtain ⟨port, -, huniform, -⟩ := hported.groups key group hgroup
    rw [Peers.connection, lookup₂, hgroup] at he'
    rw [huniform.2 id e hid, huniform.2 id' e' he']
  · obtain ⟨group, hgroup, ⟨id, e, he⟩, hall⟩ := hported.used port key hport
    exact ⟨id, e, by rw [Peers.connection, lookup₂, hgroup]; exact he, hall id e he⟩
  · rintro ⟨id, e, he, rfl⟩
    exact (hported.connection he).2
  · exact eq_none_iff_forall_ne_some.mpr fun v hv => hfree (mem_keys_iff.mpr ⟨v, hv⟩)
  · exact isSome_iff_exists.mpr (mem_keys_iff.mp (hlow p hp hlt))

/-- Two connections of a key, of which the second ends twice, beside one of another key. -/
theorem port_allocation_twins : ∃ self, [Op.allocatePeer 7 0, .allocatePeer 7 0, .allocatePeer 8 0, .removePeer 2 7,
      .removePeer 2 7].foldlM Peers.exec Peers.new = some self ∧
    (self.connection 7 1).map PeerEntry.port = some 1 ∧ (self.connection 8 3).map PeerEntry.port = some 2 ∧
    self.usedPorts.lookup self.allocPort = none := by
  obtain ⟨self, hself, hfirst, hother⟩ : ∃ self, [Op.allocatePeer 7 0, .allocatePeer 7 0, .allocatePeer 8 0,
      .removePeer 2 7, .removePeer 2 7].foldlM Peers.exec Peers.new = some self ∧
      (self.connection 7 1).map PeerEntry.port = some 1 ∧ (self.connection 8 3).map PeerEntry.port = some 2 :=
    ⟨_, rfl, rfl, rfl⟩
  exact ⟨self, hself, hfirst, hother, (port_allocation _ self hself).2.2.2.2.2.1⟩

end Yggdrasil.Peers
