import Yggdrasil.Router.Bookkeeping

/-!
# What the peers have been told

`sent[p]` is meant to hold the keys whose stored info the peer `p` knows.
-/

namespace Yggdrasil.FullRouter
open Router List Option HashMap
open HashMap (SameKeys)

/-- In some call `P` happened, and since then the info stored for `k` has been `info`. -/
def Since (log : List Record) (k : PublicKey) (info : RouterInfo) (P : Record → Prop) : Prop :=
  ∃ earlier rec later, log = earlier ++ rec :: later ∧ P rec ∧
    ∀ rec' ∈ rec :: later, rec'.outcome.router.infos.lookup k = some info

variable {k : PublicKey} {rec : Record} {o : Outcome} {call : Call} {env : Env}

theorem Since.snoc {log : List Record} {info : RouterInfo} {P : Record → Prop} (h : Since log k info P)
    (hrec : rec.outcome.router.infos.lookup k = some info) : Since (log ++ [rec]) k info P := by
  obtain ⟨earlier, rec', later, rfl, hP, hsince⟩ := h
  refine ⟨earlier, rec', later ++ [rec], by simp, hP, fun rec'' hmem => ?_⟩
  rw [← cons_append, mem_append, mem_singleton] at hmem
  rcases hmem with hmem | rfl
  · exact hsince rec'' hmem
  · exact hrec

theorem Since.last (log : List Record) {info : RouterInfo} {P : Record → Prop} (hP : P rec)
    (hrec : rec.outcome.router.infos.lookup k = some info) : Since (log ++ [rec]) k info P :=
  ⟨log, rec, [], rfl, hP, fun _ hmem => mem_singleton.mp hmem ▸ hrec⟩

def Received (p : PublicKey) (ann : RouterAnnounce) (rec : Record) : Prop :=
  ∃ id, rec.call.msg = .handleAnnounce id p ann

/-- A connection that is registered, or that an announcement of the peer has just come in on. -/
def Record.connectionOf (rec : Record) (p : PublicKey) (id : PeerId) : Prop :=
  id ∈ rec.before.connections p ∨ ∃ ann, rec.call.msg = .handleAnnounce id p ann

def Emitted (p : PublicKey) (ann : RouterAnnounce) (rec : Record) : Prop :=
  ∃ id, rec.connectionOf p id ∧ .sendAnnounce id ann.toWire ∈ rec.outcome.actions

def Informed (log : List Record) (p k : PublicKey) (info : RouterInfo) : Prop :=
  Since log k info fun rec => Received p (info.getAnnounce k) rec ∨ Emitted p (info.getAnnounce k) rec

/-- A marked key is stored, and its peer is informed. -/
def Truthful (w : Watched) : Prop :=
  ∀ p s k, w.router.sent.lookup p = some s → k ∈ s →
    ∃ info, w.router.infos.lookup k = some info ∧ Informed w.log p k info

/-! ## Marks of one call -/

def Shrinks (r r' : FullRouter) : Prop :=
  ∀ p s', r'.sent.lookup p = some s' →
    ∀ k ∈ s', ∃ s, r.sent.lookup p = some s ∧ k ∈ s ∧ r'.infos.lookup k = r.infos.lookup k

variable {self r r' r'' : FullRouter}

theorem Shrinks.of_eq (hsent : r'.sent = r.sent) (hinfos : r'.infos = r.infos) : Shrinks r r' := by
  intro p s hs k hk
  rw [hsent] at hs
  exact ⟨s, hs, hk, by rw [hinfos]⟩

theorem Shrinks.trans (h : Shrinks r r') (h' : Shrinks r' r'') : Shrinks r r'' := by
  intro p s'' hs'' k hk
  obtain ⟨s', hs', hk', hinfo'⟩ := h' p s'' hs'' k hk
  obtain ⟨s, hs, hk, hinfo⟩ := h p s' hs' k hk'
  exact ⟨s, hs, hk, hinfo'.trans hinfo⟩

theorem Shrinks.erase {key : PublicKey} (hsent : r'.sent = r.sent.mapValues fun _ sent => sent.erase key)
    (hinfos : ∀ k, k ≠ key → r'.infos.lookup k = r.infos.lookup k) : Shrinks r r' := by
  intro p s' hs' k hk
  rw [hsent, lookup_mapValues, map_eq_some_iff] at hs'
  obtain ⟨s, hs, rfl⟩ := hs'
  rw [Finset.mem_erase] at hk
  exact ⟨s, hs, hk.2, hinfos k hk.1⟩

theorem stored_shrinks (self : FullRouter) (ann : RouterAnnounce) (now : Instant) :
    Shrinks self (self.stored ann now) :=
  Shrinks.erase rfl fun k hk => by rw [stored, lookup_insert, if_neg hk]

theorem expire_shrinks (self : FullRouter) (k : PublicKey) : Shrinks self (self.expire k) := by
  rw [FullRouter.expire]
  split
  · exact Shrinks.of_eq rfl rfl
  · exact Shrinks.erase rfl fun k' hk' => by rw [lookup_remove, if_neg hk']

theorem Fixed.shrinks (h : Fixed self o) : Shrinks self o.router := by
  cases h with
  | flag doRoot1 => exact Shrinks.of_eq rfl rfl
  | restarted ho =>
    rw [ho.frame]
    exact Shrinks.of_eq rfl rfl
  | announced now _ ho =>
    rw [ho.frame]
    exact (stored_shrinks self _ now).trans (Shrinks.of_eq rfl rfl)

def Record.Marks (rec : Record) : Prop :=
  ∀ p s' k, rec.outcome.router.sent.lookup p = some s' → k ∈ s' → (∃ s, rec.before.sent.lookup p = some s ∧ k ∈ s ∧
      rec.outcome.router.infos.lookup k = rec.before.infos.lookup k) ∨
    ∃ info, rec.outcome.router.infos.lookup k = some info ∧
      (Received p (info.getAnnounce k) rec ∨ Emitted p (info.getAnnounce k) rec)

theorem Shrinks.marks (h : Shrinks rec.before rec.outcome.router) : rec.Marks :=
  fun p s' k hs' hk => .inl (h p s' hs' k hk)

theorem Truthful.step {w : Watched} (h : Truthful w)
    (hmarks : Record.Marks { before := w.router, call, outcome := o }) :
    Truthful { router := o.router, log := w.log ++ [{ before := w.router, call, outcome := o }] } := by
  intro p s' k hs' hk
  rcases hmarks p s' k hs' hk with ⟨s, hs, hmem, hinfos⟩ | ⟨info, hinfo, hcause⟩
  · obtain ⟨info, hinfo, hinformed⟩ := h p s k hs hmem
    have hnow : o.router.infos.lookup k = some info := hinfos.trans hinfo
    exact ⟨info, hnow, hinformed.snoc hnow⟩
  · exact ⟨info, hinfo, Since.last _ hcause hinfo⟩

theorem handleAnnounce_marks (self : FullRouter) {peerId : PeerId} {peerKey : PublicKey}
    {ann : RouterAnnounce} (now : Instant) (hmsg : call.msg = .handleAnnounce peerId peerKey ann) :
    Record.Marks { before := self, call, outcome := self.handleAnnounce peerId peerKey ann now } := by
  -- a mark that is set by this call
  have hmark : ∀ {r : FullRouter} {p : PublicKey} {s' : Finset PublicKey} {k : PublicKey},
      (r.markSent peerKey ann.key).sent.lookup p = some s' → k ∈ s' →
      (∃ s, r.sent.lookup p = some s ∧ k ∈ s) ∨ p = peerKey ∧ k = ann.key := by
    intro r p s' k hs' hk
    rw [markSent, lookup_modify, map_eq_some_iff] at hs'
    obtain ⟨s, hs, rfl⟩ := hs'
    split at hk
    next hp =>
      rw [Finset.mem_insert] at hk
      exact hk.elim (fun hk => .inr ⟨hp, hk⟩) fun hk => .inl ⟨s, hs, hk⟩
    · exact .inl ⟨s, hs, hk⟩
  intro p s' k hs' hk
  simp only [handleAnnounce] at hs' ⊢
  rcases self.update_cases ann now with hupdate | hupdate
  · simp only [hupdate, if_true] at hs' ⊢
    generalize hr : (if ann.key = (self.stored ann now).crypto.publicKey then
      { self.stored ann now with refresh := true } else self.stored ann now) = r at hs' ⊢
    have hsent : r.sent = (self.stored ann now).sent := by
      rw [← hr]
      split <;> rfl
    have hinfos : r.infos = (self.stored ann now).infos := by
      rw [← hr]
      split <;> rfl
    have hshrinks : Shrinks self r := (stored_shrinks self ann now).trans (Shrinks.of_eq hsent hinfos)
    rcases hmark hs' hk with ⟨s, hs, hmem⟩ | ⟨rfl, rfl⟩
    · exact .inl (hshrinks p s hs k hmem)
    refine .inr ⟨ann.info, ?_, .inl ⟨peerId, hmsg⟩⟩
    show r.infos.lookup ann.key = _
    rw [hinfos, stored, lookup_insert, if_pos rfl]
  simp only [hupdate, Bool.false_eq_true, if_false] at hs' ⊢
  cases hinfo : self.infos.lookup ann.key with
  | none =>
    rw [hinfo] at hs'
    exact .inl ⟨s', hs', hk, rfl⟩
  | some info =>
    rw [hinfo] at hs'
    rcases hmark hs' hk with ⟨s, hs, hmem⟩ | ⟨rfl, rfl⟩
    · exact .inl ⟨s, hs, hmem, rfl⟩
    refine .inr ⟨info, hinfo, ?_⟩
    by_cases hsame : info = ann.info
    · subst hsame
      exact .inl ⟨peerId, hmsg⟩
    refine .inr ⟨peerId, .inr ⟨ann, hmsg⟩, ?_⟩
    simp [hsame]

theorem addPeer_shrinks {entry : PeerEntry} {rand : UInt64} (h : self.addPeer entry rand = some o) :
    Shrinks self o.router := by
  have hadmit : Shrinks self (self.admitKey entry) := by
    rw [admitKey]
    split
    · exact Shrinks.of_eq rfl rfl
    intro p s' hs' k hk
    rw [lookup_insert] at hs'
    split at hs'
    · rw [some.injEq] at hs'
      exact absurd hk (hs' ▸ Finset.notMem_empty k)
    · exact ⟨s', hs', hk, rfl⟩
  have hadded := addPeer_added h
  refine hadmit.trans (Shrinks.of_eq ?_ ?_) <;> rw [hadded.frame]

theorem removePeer_shrinks (self : FullRouter) (peerId : PeerId) (key : PublicKey) (port : PeerPort) :
    Shrinks self (self.removePeer peerId key port).router := by
  simp only [removePeer]
  split
  · exact Shrinks.of_eq rfl rfl
  split
  · intro p s' hs' k hk
    rw [lookup_remove] at hs'
    split at hs'
    · exact absurd hs' (by simp)
    · exact ⟨s', hs', hk, rfl⟩
  · exact Shrinks.of_eq rfl rfl

/-! ## Marks of a maintenance pass -/

/-- The ancestries are marked at every peer. -/
def Told (r : FullRouter) : Prop :=
  ∀ p ∈ r.peers.keys, ∃ s, r.sent.lookup p = some s ∧
    ∀ k, Ancestor r.infos r.crypto.publicKey k ∨ Ancestor r.infos p k → k ∈ s

structure Maintained (r : FullRouter) (o : Outcome) : Prop where
  marks : ∀ p s' k, o.router.sent.lookup p = some s' → k ∈ s' →
    (∃ s, r.sent.lookup p = some s ∧ k ∈ s ∧ o.router.infos.lookup k = r.infos.lookup k) ∨
    ∃ info id, o.router.infos.lookup k = some info ∧ id ∈ r.connections p ∧
      .sendAnnounce id (info.getAnnounce k).toWire ∈ o.actions
  told : o.router.Told

theorem connections_ne_nil (h : self.Bookkept) {p : PublicKey} {s : Finset PublicKey}
    (hs : self.sent.lookup p = some s) :
    ∃ id, id ∈ self.connections p := by
  obtain ⟨peers, hpeers⟩ := h.sent.symm.exists_of_some hs
  have hkeys := h.connected p peers hpeers
  rw [connections, hpeers]
  cases hentries : peers.entries with
  | nil => simp [AList.keys, hentries, List.keys] at hkeys
  | cons e entries => exact ⟨e.2.id, by simp [HashMap.values, hentries]⟩

theorem mem_toAnnounce {self : FullRouter} {p : PublicKey} :
    k ∈ self.toAnnounce (self.getAncestry self.crypto.publicKey) p ↔
      Ancestor self.infos self.crypto.publicKey k ∨ Ancestor self.infos p k := by
  rw [toAnnounce, List.mem_toFinset, mem_append, mem_getAncestry, mem_getAncestry]

theorem Announces.maintained (hbook : self.Bookkept)
    (h : Announces self (self.getAncestry self.crypto.publicKey) self.sent.keys o) : Maintained self o where
  marks p s' k hs' hk := by
    rw [h.sent, map_eq_some_iff] at hs'
    obtain ⟨s, hs, rfl⟩ := hs'
    have hinfos : o.router.infos = self.infos := by rw [h.frame]
    have hp : p ∈ self.sent.keys := mem_keys_iff.mpr ⟨s, hs⟩
    rw [if_pos hp, Finset.mem_union] at hk
    by_cases hold : k ∈ s
    · exact .inl ⟨s, hs, hold, by rw [hinfos]⟩
    have hnew := hk.resolve_left hold
    obtain ⟨info, hinfo⟩ : ∃ info, self.infos.lookup k = some info := by
      rcases mem_toAnnounce.mp hnew with hanc | hanc <;> exact isSome_iff_exists.mp hanc.isSome
    obtain ⟨id, hid⟩ := connections_ne_nil hbook hs
    exact .inr ⟨info, id, by rw [hinfos, hinfo], hid, h.told p hp s hs k hnew hold info hinfo id hid⟩
  told p hp := by
    have hpeers : o.router.peers = self.peers := by rw [h.frame]
    have hinfos : o.router.infos = self.infos := by rw [h.frame]
    have hcrypto : o.router.crypto = self.crypto := by rw [h.frame]
    rw [hpeers] at hp
    obtain ⟨peers, hpeer⟩ := mem_keys_iff.mp hp
    obtain ⟨s, hs⟩ := hbook.sent.exists_of_some hpeer
    refine ⟨_, by rw [h.sent, hs, map_some], fun k hk => ?_⟩
    rw [if_pos (mem_keys_iff.mpr ⟨s, hs⟩), Finset.mem_union]
    rw [hinfos, hcrypto] at hk
    exact .inr (mem_toAnnounce.mpr hk)

theorem Maintained.after (h : Maintained r' o) (hshrinks : Shrinks r r') (hpeers : r'.peers = r.peers) :
    Maintained r o where
  marks p s' k hs' hk := by
    rcases h.marks p s' k hs' hk with ⟨s, hs, hmem, hinfo⟩ | ⟨info, id, hinfo, hid, hsent⟩
    · obtain ⟨s₀, hs₀, hmem₀, hinfo₀⟩ := hshrinks p s hs k hmem
      exact .inl ⟨s₀, hs₀, hmem₀, hinfo.trans hinfo₀⟩
    refine .inr ⟨info, id, hinfo, ?_, hsent⟩
    rwa [connections, hpeers] at hid
  told := h.told

theorem Maintained.before {o' : Outcome} (h : Maintained self o) (hactions : ∀ a ∈ o.actions, a ∈ o'.actions)
    (hsent : o'.router.sent = o.router.sent) (hinfos : o'.router.infos = o.router.infos)
    (hpeers : o'.router.peers = o.router.peers) (hcrypto : o'.router.crypto = o.router.crypto) :
    Maintained self o' where
  marks p s' k hs' hk := by
    rw [hsent] at hs'
    rw [hinfos]
    rcases h.marks p s' k hs' hk with hold | ⟨info, id, hinfo, hid, hmem⟩
    · exact .inl hold
    · exact .inr ⟨info, id, hinfo, hid, hactions _ hmem⟩
  told := by
    have htold := h.told
    rw [Told] at htold ⊢
    rwa [hsent, hinfos, hpeers, hcrypto]

theorem Fixed.peers (h : Fixed self o) : o.router.peers = self.peers := by
  cases h with
  | flag doRoot1 => rfl
  | restarted ho => rw [ho.frame]
  | announced now _ ho => rw [ho.frame]; rfl

theorem doMaintenance_maintained {clk : Clock} {rand : Nat → UInt64} (hbook : self.Bookkept)
    (h : self.doMaintenance env clk rand = some o) : Maintained self o := by
  cases pass_of_doMaintenance h with
  | @mk r fixed announced bloomed hframe hfix hsent hbloom _ _ =>
    have hstart : r.Bookkept := by
      rw [hframe]
      exact hbook.of_same rfl (SameKeys.refl _) (SameKeys.refl _) rfl rfl
    have hshrinks : Shrinks self r := Shrinks.of_eq (by rw [hframe]) (by rw [hframe])
    have hpeers : r.peers = self.peers := by rw [hframe]
    have hmaintained := (hsent.maintained (hstart.fixed hfix)).after (hshrinks.trans hfix.shrinks)
      (hfix.peers.trans hpeers)
    have hpaths := (maintainPaths_acts (m := .forceLookup 0) env clk bloomed.router.toRouter).routed
    refine hmaintained.before (fun a ha => by simp [ha]) ?_ ?_ ?_ ?_
    all_goals
      rw [hpaths.frame, hbloom]

/-! ## Every run -/

structure Honest (w : Watched) : Prop where
  book : w.router.Bookkept
  truthful : Truthful w
  told : ∀ rec ∈ w.log, (rec.call.msg = .forceRefresh ∨ ∃ wallJump, rec.call.msg = .maintenance wallJump) →
    rec.outcome.router.Told

theorem honest_new (crypto : Crypto) (config : FullConfig) (now : Instant) :
    Honest (Watched.new crypto config now) where
  book := bookkept_new crypto config now
  truthful p s k hs := absurd hs (by simp [Watched.new, FullRouter.new, Router.new])
  told rec hrec := absurd hrec (by simp [Watched.new])

theorem maintenance_maintained {clk : Clock} {rand : Nat → UInt64} {wallJump : Bool} (hbook : self.Bookkept)
    (h : self.maintenanceTick env clk rand wallJump = some o) : Maintained self o := by
  simp only [maintenanceTick] at h
  generalize hr : (if wallJump = true then self.forceRefresh clk.now else self) = r at h
  have hstart : r.Bookkept ∧ Shrinks self r ∧ r.peers = self.peers := by
    rw [← hr]
    split
    · exact ⟨hbook.forceRefresh _, Shrinks.of_eq rfl rfl, rfl⟩
    · exact ⟨hbook, Shrinks.of_eq rfl rfl, rfl⟩
  obtain ⟨hexpired, hshrinks, hpeers⟩ := expireInfos_induct
    (P := fun r => r.Bookkept ∧ Shrinks self r ∧ r.peers = self.peers) hstart (fun r k hr => by
      refine ⟨hr.1.expire k, hr.2.1.trans (expire_shrinks r k), ?_⟩
      rw [expire]
      split <;> exact hr.2.2) clk.now
  exact (doMaintenance_maintained hexpired h).after hshrinks hpeers

theorem Maintained.record (h : Maintained self o) : Record.Marks { before := self, call, outcome := o } := by
  intro p s' k hs' hk
  rcases h.marks p s' k hs' hk with hold | ⟨info, id, hinfo, hid, hsent⟩
  · exact .inl hold
  · exact .inr ⟨info, hinfo, .inr ⟨id, .inl hid, hsent⟩⟩

theorem exec_marks (hbook : self.Bookkept) (h : self.exec env call = some o) :
    Record.Marks { before := self, call, outcome := o } ∧
      ((call.msg = .forceRefresh ∨ ∃ wallJump, call.msg = .maintenance wallJump) → o.router.Told) := by
  obtain ⟨clk, rand, msg⟩ := call
  cases msg with
  | addPeer entry => exact ⟨(addPeer_shrinks h).marks, by simp⟩
  | removePeer peerId key port =>
    cases h
    exact ⟨(removePeer_shrinks self peerId key port).marks, by simp⟩
  | handleRequest peerId peerKey req | handleBloom peerKey filter =>
    cases h
    exact ⟨Shrinks.marks (Shrinks.of_eq rfl rfl), by simp⟩
  | handleResponse peerId key res rtt =>
    cases h
    refine ⟨Shrinks.marks ?_, by simp⟩
    obtain ⟨lags, rtts, responded, heq | ⟨-, heq⟩⟩ := self.handleResponse_cases peerId key res rtt <;>
      exact Shrinks.of_eq (by rw [heq]) (by rw [heq])
  | handleAnnounce peerId peerKey ann =>
    cases h
    exact ⟨self.handleAnnounce_marks clk.now rfl, by simp⟩
  | path msg =>
    cases h
    have hrouted := (handlePath_acts env clk self.toRouter msg).routed
    exact ⟨Shrinks.marks (Shrinks.of_eq hrouted.sent hrouted.infos), by simp⟩
  | forceRefresh =>
    have hmaintained := (doMaintenance_maintained (hbook.forceRefresh _) h).after
      (Shrinks.of_eq (r := self) rfl rfl) rfl
    exact ⟨hmaintained.record, fun _ => hmaintained.told⟩
  | maintenance wallJump =>
    have hmaintained := maintenance_maintained hbook h
    exact ⟨hmaintained.record, fun _ => hmaintained.told⟩

theorem Honest.exec {w : Watched} (h : Honest w) (env : Env) (call : Call) :
    ∃ w', w.exec env call = some w' ∧ Honest w' := by
  obtain ⟨o, hexec, hbook⟩ := h.book.exec env call
  obtain ⟨hmarks, htold⟩ := exec_marks h.book hexec
  refine ⟨_, by rw [Watched.exec, hexec, map_some], hbook, h.truthful.step hmarks, fun rec hrec hmsg => ?_⟩
  rcases mem_append.mp hrec with hrec | hrec
  · exact h.told rec hrec hmsg
  rw [mem_singleton.mp hrec] at hmsg ⊢
  exact htold hmsg

/-- **Gossip bookkeeping is exact.** If `k` is marked as sent to `p`, its announcement was received from `p` or sent to
`p` since it is stored; after every maintenance pass the ancestries of the node and of `p` are marked, for every
connected `p`. -/
theorem gossip_exact (env : Env) (crypto : Crypto) (config : FullConfig) (now : Instant) (calls : List Call) :
    ∃ w, (Watched.new crypto config now).execAll env calls = some w ∧
      (∀ p s k, w.router.sent.lookup p = some s → k ∈ s →
        ∃ info, w.router.infos.lookup k = some info ∧ Informed w.log p k info) ∧
      ∀ rec ∈ w.log, (rec.call.msg = .forceRefresh ∨ ∃ wallJump, rec.call.msg = .maintenance wallJump) →
        rec.outcome.router.Told := by
  obtain ⟨w, hw, h⟩ := Lts.exists_foldlM (fun w call (hw : Honest w) => hw.exec env call) calls _
    (honest_new crypto config now)
  exact ⟨w, hw, h.truthful, h.told⟩

end Yggdrasil.FullRouter
