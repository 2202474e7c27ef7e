import Yggdrasil.Router.Lookup

/-!
# Choice of a next hop in every order

`lookup` goes through the connections of the closer peers in the order of two maps and keeps the best one so far.
-/

namespace Yggdrasil.Router
open List Option HashMap
variable {self r r' : Router} {path : List PeerPort} {watermark : UInt64} {p q z : PeerEntry}

theorem lookup_champion (self : Router) (path : List PeerPort) (watermark : UInt64) :
    (self.lookup path watermark).peerId = if self.dist path self.crypto.publicKey ≥ watermark then none
      else (champion (self.beats path) none (self.nextHops path)).map PeerEntry.id := by
  rw [lookup_peerId, bestFor_champion, Option.map_map]
  rfl

/-! ## Connections -/

def Connection (self : Router) (p : PeerEntry) : Prop :=
  ∃ k conns id, self.peers.lookup k = some conns ∧ conns.lookup id = some p

def Filed (self : Router) : Prop :=
  ∀ k conns id p, self.peers.lookup k = some conns → conns.lookup id = some p → p.key = k ∧ p.id = id

structure Numbered (r : Router) : Prop where
  id : ∀ p q, r.Connection p → r.Connection q → p.id = q.id → p = q
  order : ∀ p q, r.Connection p → r.Connection q → p.order = q.order → p = q

theorem mem_nextHops (hfiled : self.Filed) : p ∈ self.nextHops path ↔
    self.Connection p ∧ self.dist path p.key < self.dist path self.crypto.publicKey := by
  unfold nextHops
  rw [mem_candidates]
  constructor
  · rintro ⟨k, conns, id, hconns, hp, hlt⟩
    obtain ⟨rfl, -⟩ := hfiled k conns id p hconns hp
    exact ⟨⟨_, conns, id, hconns, hp⟩, hlt⟩
  rintro ⟨⟨k, conns, id, hconns, hp⟩, hlt⟩
  obtain ⟨rfl, -⟩ := hfiled k conns id p hconns hp
  exact ⟨_, conns, id, hconns, hp, hlt⟩

theorem nodup_values {conns : HashMap PeerId PeerEntry} (h : ∀ id p, conns.lookup id = some p → p.id = id) :
    conns.values.Nodup := by
  refine List.Nodup.of_map PeerEntry.id ?_
  have hkeys : conns.values.map PeerEntry.id = conns.keys := by
    unfold HashMap.values AList.keys List.keys
    rw [List.map_map]
    refine map_congr_left fun e he => ?_
    exact h e.1 e.2 (lookup_eq_some_iff.mpr he)
  rw [hkeys]
  exact conns.keys_nodup

theorem nodup_nextHops (hfiled : self.Filed) (path : List PeerPort) : (self.nextHops path).Nodup := by
  refine nodup_flatMap.mpr ⟨fun k hk => ?_, ?_⟩
  · obtain ⟨conns, hconns⟩ := mem_keys_iff.mp hk
    split
    · rw [hconns]
      exact nodup_values fun id p hp => (hfiled k conns id p hconns hp).2
    · exact nodup_nil
  refine (AList.keys_nodup self.peers).imp_of_mem fun {k k'} hk hk' hne => ?_
  obtain ⟨conns, hconns⟩ := mem_keys_iff.mp hk
  obtain ⟨conns', hconns'⟩ := mem_keys_iff.mp hk'
  intro p hp hp'
  dsimp only at hp hp'
  rw [hconns] at hp
  rw [hconns'] at hp'
  split at hp
  · split at hp'
    · obtain ⟨id, hid⟩ := mem_values.mp hp
      obtain ⟨id', hid'⟩ := mem_values.mp hp'
      exact hne ((hfiled k conns id p hconns hid).1.symm.trans (hfiled k' conns' id' p hconns' hid').1)
    · exact not_mem_nil hp'
  · exact not_mem_nil hp

/-! ## Other orders -/

/-- The same router, with the peers and their connections in another order. -/
structure Reordered (r r' : Router) : Prop where
  frame : r' = { r with peers := r'.peers }
  peers : HashMap.Same₂ r.peers r'.peers

namespace Reordered
variable (h : Reordered r r')
include h

theorem dist (path : List PeerPort) (k : PublicKey) : r'.dist path k = r.dist path k := by
  rw [h.frame]
  rfl

theorem crypto : r'.crypto = r.crypto := by rw [h.frame]

theorem beats (path : List PeerPort) : r'.beats path = r.beats path := by
  rw [h.frame]
  rfl

theorem lookup_iff {k : PublicKey} {id : PeerId} {p : PeerEntry} :
    (∃ conns, r'.peers.lookup k = some conns ∧ conns.lookup id = some p) ↔
      ∃ conns, r.peers.lookup k = some conns ∧ conns.lookup id = some p := by
  have hrel := h.peers k
  generalize r.peers.lookup k = conns at hrel ⊢
  generalize r'.peers.lookup k = conns' at hrel ⊢
  cases hrel with
  | none => exact Iff.rfl
  | some hsame => simp only [some.injEq, exists_eq_left', hsame id]

theorem connection : r'.Connection p ↔ r.Connection p := by
  constructor
  · rintro ⟨k, conns, id, hconns, hp⟩
    obtain ⟨conns', h'⟩ := h.lookup_iff.mp ⟨conns, hconns, hp⟩
    exact ⟨k, conns', id, h'⟩
  rintro ⟨k, conns, id, hconns, hp⟩
  obtain ⟨conns', h'⟩ := h.lookup_iff.mpr ⟨conns, hconns, hp⟩
  exact ⟨k, conns', id, h'⟩

theorem filed (hfiled : r.Filed) : r'.Filed := by
  intro k conns id p hconns hp
  obtain ⟨conns', hconns', hp'⟩ := h.lookup_iff.mp ⟨conns, hconns, hp⟩
  exact hfiled k conns' id p hconns' hp'

theorem mem_nextHops (hfiled : r.Filed) : p ∈ r'.nextHops path ↔ p ∈ r.nextHops path := by
  rw [Router.mem_nextHops hfiled, Router.mem_nextHops (h.filed hfiled), h.connection, h.dist, h.dist, h.crypto]

end Reordered

theorem exists_first (hfiled : self.Filed) (hz : z ∈ self.nextHops path) :
    ∃ r', Reordered self r' ∧ (r'.nextHops path).head? = some z := by
  obtain ⟨⟨k, conns, id, hconns, hlookup⟩, hlt⟩ := (mem_nextHops hfiled).mp hz
  obtain ⟨rfl, rfl⟩ := hfiled k conns id z hconns hlookup
  have hreorder : Reordered self { self with peers := self.peers.insert z.key (conns.insert z.id z) } :=
    ⟨rfl, same₂_insert hconns (same_insert hlookup)⟩
  have hlt' := hlt
  rw [← hreorder.dist, ← hreorder.dist path self.crypto.publicKey] at hlt'
  have hconns' : (self.peers.insert z.key (conns.insert z.id z)).lookup z.key = some (conns.insert z.id z) := by
    rw [lookup_insert, if_pos rfl]
  have hkeys := keys_insert_eq self.peers z.key (conns.insert z.id z)
  have hvalues := values_insert_eq conns z.id z
  refine ⟨_, hreorder, ?_⟩
  unfold nextHops candidates
  show head? (List.flatMap _ (self.peers.insert z.key (conns.insert z.id z)).keys) = _
  rw [hkeys, flatMap_cons, if_pos hlt', hconns', getD_some, hvalues, cons_append, head?_cons]

/-! ## The condition -/

/-- One candidate beats all others. -/
def Decisive (self : Router) (path : List PeerPort) (watermark : UInt64) : Prop :=
  self.dist path self.crypto.publicKey < watermark → self.nextHops path ≠ [] →
    ∃ z ∈ self.nextHops path, ∀ p ∈ self.nextHops path, p ≠ z → self.beats path z p = true ∧ self.beats path p z = false

def Preferred (self : Router) (id : PeerId) : Prop :=
  ∃ p, self.Connection p ∧ p.id = id ∧ ∀ q, self.Connection q → q.key = p.key → p.prio ≤ q.prio

def NextHopSound (self : Router) (path : List PeerPort) (watermark : UInt64) : Prop :=
  ∀ r', Reordered self r' → (r'.lookup path watermark).peerId = (self.lookup path watermark).peerId ∧
    ∀ id, (r'.lookup path watermark).peerId = some id → self.Preferred id

theorem beats_of_prio (hkey : p.key = q.key) (hprio : p.prio < q.prio) : self.beats path p q = true := by
  exact if_pos ⟨hkey, hprio⟩

theorem beats_total (horder : p.order ≠ q.order) (h : self.beats path p q = false) : self.beats path q p = true := by
  have hne : p.order.toNat ≠ q.order.toNat := fun heq => horder (UInt64.toNat.inj heq)
  unfold beats Best.accepts rate at h ⊢
  grind

theorem Decisive.champion_eq (h : self.Decisive path watermark)
    (hlt : self.dist path self.crypto.publicKey < watermark) (hsome : self.nextHops path ≠ []) :
    ∃ z ∈ self.nextHops path, (∀ p ∈ self.nextHops path, self.beats path p z = true → p = z) ∧
      ∀ ps : List PeerEntry, (∀ p, p ∈ ps ↔ p ∈ self.nextHops path) → champion (self.beats path) none ps = some z := by
  obtain ⟨z, hz, hwins⟩ := h hlt hsome
  refine ⟨z, hz, fun p hp hbeats => ?_, fun ps hps => ?_⟩
  · by_contra hne
    rw [(hwins p hp hne).2] at hbeats
    cases hbeats
  refine champion_of_winner (fun p hp => hwins p ((hps p).mp hp)) (.inr ⟨(hps z).mpr hz, fun b hb => ?_⟩)
  cases hb

theorem sound_of_decisive (hfiled : r.Filed) (h : r.Decisive path watermark) : r.NextHopSound path watermark := by
  intro r' hr'
  have hmem : ∀ p, p ∈ r'.nextHops path ↔ p ∈ r.nextHops path := fun p => hr'.mem_nextHops hfiled
  rw [lookup_champion, lookup_champion, hr'.dist, hr'.crypto, hr'.beats]
  by_cases hge : r.dist path r.crypto.publicKey ≥ watermark
  · rw [if_pos hge, if_pos hge]
    exact ⟨rfl, fun id hid => by cases hid⟩
  rw [if_neg hge, if_neg hge]
  by_cases hnone : r.nextHops path = []
  · have hnone' : r'.nextHops path = [] := eq_nil_iff_forall_not_mem.mpr fun p hp => by
      rw [hmem, hnone] at hp
      exact not_mem_nil hp
    rw [hnone, hnone']
    exact ⟨rfl, fun id hid => by cases hid⟩
  obtain ⟨z, hz, hbest, hchampion⟩ := h.champion_eq (UInt64.not_le.mp hge) hnone
  rw [hchampion _ hmem, hchampion _ fun p => Iff.rfl]
  refine ⟨rfl, fun id hid => ?_⟩
  cases hid
  obtain ⟨hconn, hcloser⟩ := (mem_nextHops hfiled).mp hz
  refine ⟨z, hconn, rfl, fun q hq hkey => UInt8.not_lt.mp fun hlt => ?_⟩
  have hqmem : q ∈ r.nextHops path := (mem_nextHops hfiled).mpr ⟨hq, hkey ▸ hcloser⟩
  rw [hbest q hqmem (beats_of_prio hkey hlt)] at hlt
  exact absurd hlt (UInt8.lt_irrefl _)

/-- Otherwise another order of the maps leads to another choice. -/
theorem decisive_of_sound (hfiled : r.Filed) (hnumbered : r.Numbered) (h : r.NextHopSound path watermark) :
    r.Decisive path watermark := by
  intro hlt hsome
  have hge : ¬ r.dist path r.crypto.publicKey ≥ watermark := UInt64.not_le.mpr hlt
  have hchosen : (champion (r.beats path) none (r.nextHops path)).isSome := champion_isSome (.inl hsome)
  obtain ⟨z, hchampion⟩ := isSome_iff_exists.mp hchosen
  have hz : z ∈ r.nextHops path := (champion_mem hchampion).resolve_left (by simp)
  have hzconn := ((mem_nextHops hfiled).mp hz).1
  -- whatever the order, the result is `z`
  have hsame : ∀ r', Reordered r r' → champion (r.beats path) none (r'.nextHops path) = some z := by
    intro r' hr'
    have hlookup := (h r' hr').1
    rw [lookup_champion, lookup_champion, hr'.dist, hr'.crypto, hr'.beats, if_neg hge, if_neg hge, hchampion] at hlookup
    obtain ⟨z', hz', hid⟩ := map_eq_some_iff.mp hlookup
    have hmem := (champion_mem hz').resolve_left (by simp)
    have hconn := ((mem_nextHops hfiled).mp ((hr'.mem_nextHops hfiled).mp hmem)).1
    rw [hz', hnumbered.id z' z hconn hzconn hid]
  obtain ⟨r', hr', hfirst⟩ := exists_first hfiled hz
  obtain ⟨rest, hrest⟩ := head?_eq_some_iff.mp hfirst
  refine ⟨z, hz, fun p hp hne => ?_⟩
  have hpconn := ((mem_nextHops hfiled).mp hp).1
  have hunbeaten : r.beats path p z = false := by
    have hprest : p ∈ rest := by
      have hmem := (hr'.mem_nextHops hfiled).mpr hp
      rw [hrest] at hmem
      exact (mem_cons.mp hmem).resolve_left hne
    obtain ⟨as, bs, hsplit⟩ := append_of_mem hprest
    have hnodup := nodup_nextHops (hr'.filed hfiled) path
    have hall := hsame r' hr'
    rw [hrest, hsplit] at hall hnodup
    have hlast : z ∉ p :: bs := fun hmem => (nodup_cons.mp hnodup).1 (mem_append_right _ hmem)
    exact not_beats_of_champion (show champion _ _ ((z :: as) ++ p :: bs) = some z from hall) hlast
  exact ⟨beats_total (fun heq => hne (hnumbered.order p z hpconn hzconn heq)) hunbeaten, hunbeaten⟩

/-- **The next hop is a function of the state**, and of the best priority to its key, exactly if one candidate beats all
others, for connections with ids and order numbers of their own. -/
theorem next_hop_sound_iff (hfiled : r.Filed) (path : List PeerPort) (watermark : UInt64) :
    (r.Decisive path watermark → r.NextHopSound path watermark) ∧
      (r.Numbered → (r.NextHopSound path watermark ↔ r.Decisive path watermark)) :=
  ⟨sound_of_decisive hfiled, fun hnumbered => ⟨decisive_of_sound hfiled hnumbered, sound_of_decisive hfiled⟩⟩

/-! ## Three connections -/

def forkRouter (conns : HashMap PeerId PeerEntry) : Router :=
  { Router.new ⟨9, fun _ => 0⟩ ⟨0, 0, none⟩ with
    infos := (((∅ : HashMap PublicKey RouterInfo).insert 1 ⟨1, 1, 1, 0, 0, 0⟩).insert 2 ⟨1, 1, 1, 5, 0, 0⟩).insert 9
      ⟨1, 1, 1, 7, 0, 0⟩
    peers := ((∅ : HashMap PublicKey (HashMap PeerId PeerEntry)).insert 1 conns).insert 2
      ((∅ : HashMap PeerId PeerEntry).insert 3 ⟨3, 2, 2, 0, 3⟩)
    lags := (((∅ : HashMap PeerId Duration).insert 1 (Duration.fromMillis 100)).insert 2
      (Duration.fromMillis 1)).insert 3
      (Duration.fromMillis 10) }

def rootConns : HashMap PeerId PeerEntry :=
  ((∅ : HashMap PeerId PeerEntry).insert 2 ⟨2, 1, 1, 1, 2⟩).insert 1 ⟨1, 1, 1, 0, 1⟩

theorem forkRouter_induct {conns : HashMap PeerId PeerEntry} {P : PublicKey → PeerId → PeerEntry → Prop}
    (hroot : ∀ id p, conns.lookup id = some p → P 1 id p) (hother : P 2 3 ⟨3, 2, 2, 0, 3⟩) (k : PublicKey)
    (conns' : HashMap PeerId PeerEntry) (id : PeerId) (p : PeerEntry)
    (hconns : (forkRouter conns).peers.lookup k = some conns') (hp : conns'.lookup id = some p) : P k id p := by
  simp only [forkRouter, lookup_insert, lookup_empty] at hconns
  split at hconns
  next hk =>
    cases hconns
    rw [lookup_insert, lookup_empty, ite_none_right_eq_some] at hp
    obtain ⟨rfl, hp⟩ := hp
    cases hp
    exact hk ▸ hother
  rw [ite_none_right_eq_some] at hconns
  obtain ⟨rfl, hconns⟩ := hconns
  cases hconns
  exact hroot id p hp

theorem rootConns_induct {P : PeerId → PeerEntry → Prop} (h1 : P 1 ⟨1, 1, 1, 0, 1⟩) (h2 : P 2 ⟨2, 1, 1, 1, 2⟩)
    (id : PeerId) (p : PeerEntry) (hp : rootConns.lookup id = some p) : P id p := by
  rw [rootConns, lookup_insert, lookup_insert, lookup_empty] at hp
  split at hp
  next hid =>
    cases hp
    exact hid ▸ h1
  rw [ite_none_right_eq_some] at hp
  obtain ⟨rfl, hp⟩ := hp
  cases hp
  exact h2

theorem filed_forkRouter : (forkRouter rootConns).Filed :=
  forkRouter_induct (P := fun k id p => p.key = k ∧ p.id = id)
    (rootConns_induct (P := fun id p => p.key = 1 ∧ p.id = id) ⟨rfl, rfl⟩ ⟨rfl, rfl⟩) ⟨rfl, rfl⟩

theorem connection_forkRouter (h : (forkRouter rootConns).Connection p) :
    p = ⟨1, 1, 1, 0, 1⟩ ∨ p = ⟨2, 1, 1, 1, 2⟩ ∨ p = ⟨3, 2, 2, 0, 3⟩ := by
  obtain ⟨k, conns, id, hconns, hp⟩ := h
  refine forkRouter_induct (P := fun _ _ p => p = ⟨1, 1, 1, 0, 1⟩ ∨ p = ⟨2, 1, 1, 1, 2⟩ ∨ p = ⟨3, 2, 2, 0, 3⟩) ?_
    (.inr (.inr rfl)) k conns id p hconns hp
  exact rootConns_induct (.inl rfl) (.inr (.inl rfl))

theorem numbered_forkRouter : (forkRouter rootConns).Numbered where
  id p q hp hq h := by
    rcases connection_forkRouter hp with rfl | rfl | rfl <;> rcases connection_forkRouter hq with rfl | rfl | rfl <;>
      first | rfl | exact absurd h (by decide)
  order p q hp hq h := by
    rcases connection_forkRouter hp with rfl | rfl | rfl <;> rcases connection_forkRouter hq with rfl | rfl | rfl <;>
      first | rfl | exact absurd h (by decide)

theorem next_hop_unstable : ¬ ∀ r : Router, r.Filed → r.Numbered → ∀ path watermark, r.NextHopSound path watermark := by
  intro hclaim
  have hreorder : Reordered (forkRouter rootConns)
      { forkRouter rootConns with peers := (forkRouter rootConns).peers.insert 1 rootConns } :=
    ⟨rfl, same₂_insert rfl (HashMap.Same.refl rootConns)⟩
  have hsame := (hclaim _ filed_forkRouter numbered_forkRouter [5, 6] u64Max _ hreorder).1
  exact absurd hsame (by decide +kernel)

theorem next_hop_sound_single :
    (forkRouter ((∅ : HashMap PeerId PeerEntry).insert 1 ⟨1, 1, 1, 0, 1⟩)).NextHopSound [5, 6]
    u64Max := by
  have hfiled : (forkRouter ((∅ : HashMap PeerId PeerEntry).insert 1 ⟨1, 1, 1, 0, 1⟩)).Filed := by
    refine forkRouter_induct (P := fun k id p => p.key = k ∧ p.id = id) (fun id p hp => ?_) ⟨rfl, rfl⟩
    rw [lookup_insert, lookup_empty, ite_none_right_eq_some] at hp
    obtain ⟨rfl, hp⟩ := hp
    cases hp
    exact ⟨rfl, rfl⟩
  refine (next_hop_sound_iff hfiled [5, 6] u64Max).1 fun _ _ => ?_
  have hhops : (forkRouter ((∅ : HashMap PeerId PeerEntry).insert 1 ⟨1, 1, 1, 0, 1⟩)).nextHops [5, 6] =
      [⟨3, 2, 2, 0, 3⟩, ⟨1, 1, 1, 0, 1⟩] := by
    decide +kernel
  refine ⟨⟨3, 2, 2, 0, 3⟩, by rw [hhops]; exact mem_cons_self, fun p hp hne => ?_⟩
  obtain rfl := mem_singleton.mp ((mem_cons.mp hp).resolve_left hne)
  exact ⟨by decide +kernel, by decide +kernel⟩

end Yggdrasil.Router
