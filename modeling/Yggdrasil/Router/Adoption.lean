import Yggdrasil.Router.SelectionSound

/-!
# The parent that is adopted

`fix` adopts the parent that `select_parent` chose, or becomes root.
-/

namespace Yggdrasil.FullRouter
open Option HashMap UInt64
variable {self r r' : FullRouter} {env : Env} {now : Instant} {rand : Nat → UInt64} {res : SigRes} {root : PublicKey}
  {ks : List PublicKey}

/-! ## The branches of `fix` -/

def Changes (self : FullRouter) : Prop := (self.refresh || self.doRoot1 || self.doRoot2 ||
  decide (self.selfInfoParent ≠ self.selectParent.parent)) = true

/-- `fix` takes the response of the chosen parent. -/
structure Adopts (r : FullRouter) (res : SigRes) (now : Instant) : Prop where
  changes : r.Changes
  response : r.responses.lookup r.selectParent.parent = some res
  root_ne : r.selectParent.root ≠ r.crypto.publicKey
  accepted : (r.useResponse r.selectParent.parent res now).1 = true

/-- `fix` makes the node its own root. -/
structure BecomesRoot (r : FullRouter) (now : Instant) : Prop where
  changes : r.Changes
  declined : ∀ res, ¬ r.Adopts res now
  due : r.doRoot2 = true

theorem fix_of_adopts (h : self.Adopts res now) (rand : Nat → UInt64) : self.fix rand now =
    (self.stored (self.childAnnounce self.selectParent.parent res) now).restart fun i => rand (i + 1) := by
  have haccepted := h.accepted
  have hstored : (self.useResponse self.selectParent.parent res now).2 =
      self.stored (self.childAnnounce self.selectParent.parent res) now := by
    rcases self.update_cases (self.childAnnounce self.selectParent.parent res) now with hupdate | hupdate
    · rw [useResponse, hupdate]
    rw [useResponse, hupdate] at haccepted
    cases haccepted
  have hchanges := h.changes
  unfold Changes at hchanges
  unfold fix
  simp only [hchanges, if_true, h.response, bind_some, if_pos (And.intro h.root_ne h.accepted), hstored]

theorem used_eq_none (h : ∀ res, ¬ self.Adopts res now) (hchanges : self.Changes) :
    ((self.responses.lookup self.selectParent.parent).bind fun res =>
      if self.selectParent.root ≠ self.crypto.publicKey ∧ (self.useResponse self.selectParent.parent res now).1 then
        some (self.useResponse self.selectParent.parent res now).2
      else none) = none := by
  cases hres : self.responses.lookup self.selectParent.parent with
  | none => rfl
  | some res => exact if_neg fun hused => h res ⟨hchanges, hres, hused.1, hused.2⟩

theorem fix_of_becomesRoot (h : self.BecomesRoot now) (rand : Nat → UInt64) : self.fix rand now =
    (self.becomeRoot (rand 0) now).2.restart fun i => rand (i + 1) := by
  have hused := used_eq_none h.declined h.changes
  have hchanges := h.changes
  unfold Changes at hchanges
  unfold fix
  simp only [if_pos hchanges, hused]
  exact if_pos h.due

theorem fix_of_keeps (h : ∀ res, ¬ self.Adopts res now) (h' : ¬ self.BecomesRoot now) (rand : Nat → UInt64) :
    ∃ doRoot1, self.fix rand now = { actions := [], router := { self with doRoot1 } } := by
  by_cases hchanges : self.Changes
  · have hdue : ¬ self.doRoot2 = true := fun hdue => h' ⟨hchanges, h, hdue⟩
    have hused := used_eq_none h hchanges
    unfold Changes at hchanges
    unfold fix
    simp only [hchanges, if_true, hused, if_neg hdue]
    split
    · exact ⟨true, rfl⟩
    · exact ⟨self.doRoot1, rfl⟩
  unfold Changes at hchanges
  unfold fix
  simp only [if_neg hchanges]
  exact ⟨self.doRoot1, rfl⟩

/-! ## Adoption -/

theorem selectParent_ascent (hne : self.selectParent.root ≠ self.crypto.publicKey) :
    ∃ ks, Ascent (parentOf self.infos) self.selectParent.parent ks self.selectParent.root ∧
      self.crypto.publicKey ∉ ks := by
  rcases self.selectParent_leading.mem with heq | hmem
  · have hstart := self.currentParent_start
    rw [← heq] at hstart
    generalize self.selectParent = best at hstart hne ⊢
    cases hstart with
    | own => exact absurd rfl hne
    | @path ks root _ _ hascent hself => exact ⟨ks, hascent, hself⟩
  obtain ⟨ks, hcand, -⟩ := mem_offers_iff.mp hmem
  exact ⟨ks, hcand.2⟩

theorem selectParent_lt (hne : self.selectParent.root ≠ self.crypto.publicKey) :
    self.selectParent.root < self.crypto.publicKey := by
  have hle := BitVec.le_trans self.selectParent_leading.le_cur self.currentParent_start.le_self
  rcases root_cases self.selectParent.root self.crypto.publicKey with hlt | heq | hgt
  · exact hlt
  · exact absurd heq hne
  · exact absurd (root_lt_of_le_of_lt hle hgt) (BitVec.lt_irrefl _)

theorem restart_tree (self : FullRouter) (rand : Nat → UInt64) : (self.restart rand).router.infos = self.infos ∧
    (self.restart rand).router.crypto = self.crypto ∧ (self.restart rand).router.peers = self.peers ∧
    (self.restart rand).router.responses = ∅ := by
  have hframe := (self.restart_restarted rand).frame
  rw [hframe]
  exact ⟨rfl, rfl, rfl, rfl⟩

/-- After an adoption the parents lead to the chosen root. -/
theorem adopted_ascent (h : self.Adopts res now) (rand : Nat → UInt64) : ∃ ks,
    Ascent (parentOf (self.fix rand now).router.infos) self.crypto.publicKey ks self.selectParent.root := by
  obtain ⟨ks, hascent, hself⟩ := selectParent_ascent h.root_ne
  have hne : self.selectParent.parent ≠ self.crypto.publicKey := fun heq => hself (heq ▸ hascent.mem_start)
  have hinfos : (self.fix rand now).router.infos = self.infos.insert self.crypto.publicKey
      (self.childAnnounce self.selectParent.parent res).info := by
    rw [fix_of_adopts h, (restart_tree _ _).1]
    rfl
  rw [hinfos]
  refine ⟨_, Ascent.up ?_ hne (hascent.congr fun x hx => ?_)⟩
  · rw [parentOf, lookup_insert, if_pos rfl]
    rfl
  have hx' : x ≠ self.crypto.publicKey := fun heq => hself (heq ▸ hx)
  rw [parentOf, parentOf, lookup_insert, if_neg hx']

/-! ## Becoming root -/

def Exhausted (self : FullRouter) : Prop :=
  ∃ info, self.infos.lookup self.crypto.publicKey = some info ∧ info.parent ≠ self.crypto.publicKey ∧ info.seq = u64Max

theorem lt_succ_of_ne_max {a : UInt64} (h : a ≠ u64Max) : a < a + 1 := by
  have hmax : u64Max.toNat = 18446744073709551615 := rfl
  have hne : a.toNat ≠ u64Max.toNat := fun heq => h (UInt64.toNat.inj heq)
  have hlt := a.toNat_lt
  have hone : (1 : UInt64).toNat = 1 := rfl
  rw [UInt64.lt_iff_toNat_lt, UInt64.toNat_add, hone, Nat.mod_eq_of_lt] <;> omega

theorem rootAnnounce_supersedes {info : RouterInfo} {n : UInt64}
    (hinfo : self.infos.lookup self.crypto.publicKey = some info) :
    (self.rootAnnounce n).supersedes info = true ↔ info.seq ≠ u64Max := by
  have hseq : (self.rootAnnounce n).seq = info.seq + 1 := by
    unfold rootAnnounce newReq
    rw [hinfo]
    rfl
  unfold RouterAnnounce.supersedes
  rw [hseq]
  by_cases hmax : info.seq = u64Max
  · rw [hmax, if_pos (by decide)]
    simp
  have hlt := lt_succ_of_ne_max hmax
  rw [if_neg (fun hgt => absurd (UInt64.lt_asymm hlt) (not_not.mpr hgt)), if_pos hlt]
  simp [hmax]

theorem becomeRoot_infos (self : FullRouter) (n : UInt64) (now : Instant) : (self.becomeRoot n now).2.infos =
    if ∃ info, self.infos.lookup self.crypto.publicKey = some info ∧ info.seq = u64Max then self.infos
    else self.infos.insert self.crypto.publicKey (self.rootAnnounce n).info := by
  unfold becomeRoot update Router.update
  cases hinfo : self.infos.lookup self.crypto.publicKey with
  | none =>
    rw [show (self.rootAnnounce n).key = self.crypto.publicKey from rfl, hinfo]
    simp
  | some info =>
    rw [show (self.rootAnnounce n).key = self.crypto.publicKey from rfl, hinfo]
    by_cases hmax : info.seq = u64Max
    · have hrefused : ¬ (self.rootAnnounce n).supersedes info = true := fun h =>
        rootAnnounce_supersedes hinfo |>.mp h hmax
      simp [hrefused, hmax]
    have hnewer := (rootAnnounce_supersedes (n := n) hinfo).mpr hmax
    simp [hnewer, hmax]

theorem named_iff (h : self.BecomesRoot now) (rand : Nat → UInt64) :
    parentOf (self.fix rand now).router.infos self.crypto.publicKey = some self.crypto.publicKey ↔
      ¬ self.Exhausted := by
  have hinfos : (self.fix rand now).router.infos = (self.becomeRoot (rand 0) now).2.infos := by
    rw [fix_of_becomesRoot h, (restart_tree _ _).1]
  rw [hinfos, becomeRoot_infos]
  split
  next hlast =>
    obtain ⟨info, hinfo, hmax⟩ := hlast
    rw [parentOf, hinfo, map_some, some.injEq]
    constructor
    · rintro hparent ⟨info', hinfo', hne, -⟩
      obtain rfl := some.inj (hinfo.symm.trans hinfo')
      exact hne hparent
    intro hnot
    by_contra hne
    exact hnot ⟨info, hinfo, hne, hmax⟩
  next hmore =>
    rw [parentOf, lookup_insert, if_pos rfl]
    refine ⟨fun _ => ?_, fun _ => rfl⟩
    rintro ⟨info, hinfo, -, hmax⟩
    exact hmore ⟨info, hinfo, hmax⟩

/-! ## The info of the node itself -/

def Present (self : FullRouter) : Prop := (self.infos.lookup self.crypto.publicKey).isSome

def Seated (self : FullRouter) : Prop := self.doRoot2 = true ∨ self.Present

structure KeepsSelf (r r' : FullRouter) : Prop where
  crypto : r'.crypto = r.crypto
  own : r.Present → r'.Present
  due : r.doRoot2 = true → r'.doRoot2 = true

theorem KeepsSelf.of_eq (hcrypto : r'.crypto = r.crypto) (hinfos : r'.infos = r.infos)
    (hdue : r.doRoot2 = true → r'.doRoot2 = true) : KeepsSelf r r' where
  crypto := hcrypto
  own h := by
    unfold Present at h ⊢
    rw [hcrypto, hinfos]
    exact h
  due := hdue

theorem KeepsSelf.refl (r : FullRouter) : KeepsSelf r r := KeepsSelf.of_eq rfl rfl id

theorem KeepsSelf.trans {r'' : FullRouter} (h : KeepsSelf r r') (h' : KeepsSelf r' r'') : KeepsSelf r r'' :=
  ⟨h'.crypto.trans h.crypto, fun hown => h'.own (h.own hown), fun hdue => h'.due (h.due hdue)⟩

theorem KeepsSelf.seated (h : KeepsSelf r r') (hr : r.Seated) : r'.Seated := hr.imp h.due h.own

theorem present_insert (r : FullRouter) (key : PublicKey) (info : RouterInfo)
    (h : key = r.crypto.publicKey ∨ r.Present) : ((r.infos.insert key info).lookup r.crypto.publicKey).isSome := by
  rw [lookup_insert]
  split
  · rfl
  next hne => exact h.resolve_left fun heq => hne heq.symm

theorem stored_keepsSelf (r : FullRouter) (ann : RouterAnnounce) (now : Instant) : KeepsSelf r (r.stored ann now) :=
  ⟨rfl, fun h => present_insert r ann.key ann.info (.inr h), id⟩

theorem addPeer_keepsSelf {entry : PeerEntry} {n : UInt64} {o : Outcome} (h : self.addPeer entry n = some o) :
    KeepsSelf self o.router := by
  have hadded := addPeer_added h
  refine KeepsSelf.of_eq hadded.untouched.1 hadded.untouched.2.1 fun hdue => ?_
  rw [hadded.frame, admitKey]
  split <;> exact hdue

theorem removePeer_keepsSelf (self : FullRouter) (peerId : PeerId) (key : PublicKey) (port : PeerPort) :
    KeepsSelf self (self.removePeer peerId key port).router := by
  unfold removePeer
  dsimp only
  split
  · exact KeepsSelf.of_eq rfl rfl id
  · split <;> exact KeepsSelf.of_eq rfl rfl id

theorem handleResponse_keepsSelf (self : FullRouter) (peerId : PeerId) (key : PublicKey) (res : SigRes)
    (rtt : Duration) :
    KeepsSelf self (self.handleResponse peerId key res rtt) := by
  obtain ⟨lags, rtts, responded, heq | ⟨-, heq⟩⟩ := self.handleResponse_cases peerId key res rtt <;>
  · rw [heq]
    exact KeepsSelf.of_eq rfl rfl id

theorem handleAnnounce_keepsSelf (self : FullRouter) (peerId : PeerId) (peerKey : PublicKey) (ann : RouterAnnounce)
    (now : Instant) : KeepsSelf self (self.handleAnnounce peerId peerKey ann now).router := by
  unfold handleAnnounce
  rcases self.update_cases ann now with hupdate | hupdate
  · simp only [hupdate, if_true]
    refine (stored_keepsSelf self ann now).trans ?_
    split <;> exact KeepsSelf.of_eq rfl rfl id
  simp only [hupdate, Bool.false_eq_true, if_false]
  split
  · exact KeepsSelf.refl self
  · exact KeepsSelf.of_eq rfl rfl id

theorem expire_keepsSelf (self : FullRouter) (k : PublicKey) : KeepsSelf self (self.expire k) := by
  unfold expire
  split
  · exact KeepsSelf.of_eq rfl rfl id
  next hne =>
    refine ⟨rfl, fun h => ?_, id⟩
    show ((self.infos.remove k).lookup self.crypto.publicKey).isSome
    rw [lookup_remove, if_neg fun heq => hne heq.symm]
    exact h

theorem expireInfos_keepsSelf (self : FullRouter) (now : Instant) : KeepsSelf self (self.expireInfos now) :=
  expireInfos_induct (P := KeepsSelf self) (KeepsSelf.refl self) (fun r k h => h.trans (expire_keepsSelf r k)) now

theorem forceRefresh_keepsSelf (self : FullRouter) (now : Instant) : KeepsSelf self (self.forceRefresh now) :=
  KeepsSelf.of_eq rfl rfl fun _ => rfl

theorem ready_keepsSelf (self : FullRouter) (now : Instant) : KeepsSelf self (self.ready now) := by
  refine KeepsSelf.of_eq ?_ ?_ fun hdue => ?_
  · rw [ready_frame]
  · rw [ready_frame]
  unfold ready updateAncestries refreshTimer
  split <;> exact Bool.or_eq_true_iff.mpr (.inl hdue)

/-! ## A maintenance pass -/

structure SameTables (r r' : FullRouter) : Prop where
  crypto : r'.crypto = r.crypto
  infos : r'.infos = r.infos
  peers : r'.peers = r.peers
  requests : r'.requests = r.requests
  responses : r'.responses = r.responses
  lags : r'.lags = r.lags
  rtts : r'.rtts = r.rtts
  responded : r'.responded = r.responded

theorem afterFix_tables {clk : Clock} {fixed o : Outcome} (h : afterFix env clk fixed = some o) :
    SameTables fixed.router o.router := by
  obtain ⟨announced, hannounced, hsent⟩ := fixed.router.sendAnnounces_announces
  obtain ⟨bloomed, hbloomed, hframe, -, -⟩ := announced.router.bloomsMaintenance_keeps env
  have hrouted := (Router.maintainPaths_acts (m := .forceLookup 0) env clk bloomed.router.toRouter).routed.frame
  unfold afterFix at h
  simp only [hannounced, hbloomed] at h
  cases h
  have hannouncedTables : SameTables fixed.router announced.router := by
    rw [hsent.frame]
    exact ⟨rfl, rfl, rfl, rfl, rfl, rfl, rfl, rfl⟩
  have hbloomedTables : SameTables fixed.router bloomed.router := by
    rw [hframe]
    exact { hannouncedTables with }
  unfold lift
  rw [hrouted]
  exact { hbloomedTables with }

theorem fix_present (h : self.Seated) (rand : Nat → UInt64) (now : Instant) :
    (self.fix rand now).router.crypto = self.crypto ∧ (self.fix rand now).router.Present := by
  by_cases hadopts : ∃ res, self.Adopts res now
  · obtain ⟨res, hadopts⟩ := hadopts
    have htree := restart_tree (self.stored (self.childAnnounce self.selectParent.parent res) now) fun i => rand (i + 1)
    unfold Present
    rw [fix_of_adopts hadopts, htree.1, htree.2.1]
    exact ⟨rfl, present_insert self self.crypto.publicKey _ (.inl rfl)⟩
  rw [not_exists] at hadopts
  by_cases hroot : self.BecomesRoot now
  · have htree := restart_tree (self.becomeRoot (rand 0) now).2 fun i => rand (i + 1)
    have hcrypto : (self.becomeRoot (rand 0) now).2.crypto = self.crypto := by
      unfold becomeRoot
      rcases self.update_cases (self.rootAnnounce (rand 0)) now with hupdate | hupdate
      · rw [hupdate]
        rfl
      · rw [hupdate]
    unfold Present
    rw [fix_of_becomesRoot hroot, htree.1, htree.2.1, hcrypto, becomeRoot_infos]
    refine ⟨rfl, ?_⟩
    split
    next hlast =>
      obtain ⟨info, hinfo, -⟩ := hlast
      rw [hinfo]
      rfl
    · exact present_insert self self.crypto.publicKey _ (.inl rfl)
  obtain ⟨doRoot1, hfix⟩ := fix_of_keeps hadopts hroot rand
  rw [hfix]
  refine ⟨rfl, h.resolve_left fun hdue => hroot ⟨?_, hadopts, hdue⟩⟩
  unfold Changes
  rw [hdue, Bool.or_true, Bool.true_or]

theorem doMaintenance_present {clk : Clock} {o : Outcome} (h : self.Seated)
    (ho : self.doMaintenance env clk rand = some o) : o.router.Present := by
  have hpresent := (fix_present ((self.ready_keepsSelf clk.now).seated h) rand clk.now).2
  have htables := afterFix_tables ho
  unfold Present
  rw [htables.infos, htables.crypto]
  exact hpresent

theorem exec_keepsSelf {call : Call} {o : Outcome} (h : r.exec env call = some o) : KeepsSelf r o.router ∨
    ∃ r', KeepsSelf r r' ∧ r'.doMaintenance env call.clk call.rand = some o := by
  obtain ⟨clk, rand, msg⟩ := call
  cases msg with
  | addPeer entry => exact .inl (addPeer_keepsSelf h)
  | removePeer peerId key port =>
    cases h
    exact .inl (removePeer_keepsSelf r peerId key port)
  | handleRequest peerId peerKey req =>
    cases h
    exact .inl (KeepsSelf.refl r)
  | handleResponse peerId key res rtt =>
    cases h
    exact .inl (handleResponse_keepsSelf r peerId key res rtt)
  | handleAnnounce peerId peerKey ann =>
    cases h
    exact .inl (handleAnnounce_keepsSelf r peerId peerKey ann clk.now)
  | handleBloom peerKey filter =>
    cases h
    exact .inl (KeepsSelf.of_eq rfl rfl id)
  | path msg =>
    cases h
    have hframe := (Router.handlePath_acts env clk r.toRouter msg).routed.frame
    refine .inl ?_
    show KeepsSelf r { r with toRouter := _ }
    rw [hframe]
    exact KeepsSelf.of_eq rfl rfl id
  | forceRefresh => exact .inr ⟨_, forceRefresh_keepsSelf r clk.now, h⟩
  | maintenance wallJump =>
    refine .inr ⟨_, KeepsSelf.trans ?_ (expireInfos_keepsSelf _ clk.now), h⟩
    split
    · exact forceRefresh_keepsSelf r clk.now
    · exact KeepsSelf.refl r

theorem ReachedFrom.keeps {P : FullRouter → Prop} {start : FullRouter} (h : ReachedFrom env start r) (hstart : P start)
    (hkeep : ∀ r r', KeepsSelf r r' → P r → P r')
    (hpass : ∀ r clk rand o, P r → r.doMaintenance env clk rand = some o → P o.router) : P r := by
  induction h with
  | start => exact hstart
  | exec _ ho ih =>
    rcases exec_keepsSelf ho with hstep | ⟨r', hstep, hmaint⟩
    · exact hkeep _ _ hstep ih
    · exact hpass _ _ _ _ (hkeep _ _ hstep ih) hmaint
  | forceRefresh now _ ih => exact hkeep _ _ (forceRefresh_keepsSelf _ now) ih
  | expireInfos now _ ih => exact hkeep _ _ (expireInfos_keepsSelf _ now) ih
  | ready now _ ih => exact hkeep _ _ (ready_keepsSelf _ now) ih

theorem ReachedFrom.present {start : FullRouter} (h : ReachedFrom env start r) (hstart : start.Present) : r.Present :=
  h.keeps hstart (fun _ _ hstep => hstep.own) fun _ _ _ _ hr => doMaintenance_present (.inr hr)

theorem Reached.seated (h : Reached env r) : r.Seated := by
  obtain ⟨crypto, config, now, h⟩ := h
  exact h.keeps (.inl rfl) (fun _ _ hstep => hstep.seated) fun _ _ _ _ hr ho => .inr (doMaintenance_present hr ho)

structure SelfInTree (env : Env) (r : FullRouter) : Prop where
  /-- after an adoption the parents lead from the node to the root that was chosen, which is below it -/
  adopted : ∀ rand now res, r.Adopts res now →
    ∃ ks, Ascent (parentOf (r.fix rand now).router.infos) r.crypto.publicKey ks r.selectParent.root ∧ ks.Nodup ∧
      ((r.fix rand now).router.getRootAndDists r.crypto.publicKey).2.2 = true ∧
      ((r.fix rand now).router.getRootAndDists r.crypto.publicKey).1 = r.selectParent.root ∧
      r.selectParent.root < r.crypto.publicKey
  rooted : ∀ rand now, r.BecomesRoot now →
    (parentOf (r.fix rand now).router.infos r.crypto.publicKey = some r.crypto.publicKey ↔ ¬ r.Exhausted)
  present : ∀ clk rand o, r.doMaintenance env clk rand = some o → ∀ r', ReachedFrom env o.router r' → r'.Present

/-- **No loop of one's own making**, in every state of a router. -/
theorem no_self_loop (h : Reached env r) : SelfInTree env r where
  adopted rand now res hadopts := by
    obtain ⟨ks, hascent⟩ := adopted_ascent hadopts rand
    have hdists : (r.fix rand now).router.getRootAndDists r.crypto.publicKey = _ :=
      Router.getRootAndDists_of_ascent hascent
    rw [hdists]
    exact ⟨ks, hascent, hascent.nodup, rfl, rfl, selectParent_lt hadopts.root_ne⟩
  rooted rand now hroot := named_iff hroot rand
  present clk rand o ho r' hr' := hr'.present (doMaintenance_present h.seated ho)

/-! ## The last sequence number -/

theorem requestEach_seq (rand : Nat → UInt64) (peerKeys : List (PublicKey × List PeerId)) :
    ∀ (self : FullRouter) (k : PublicKey) (req : SigReq),
      (requestEach rand peerKeys self).router.requests.lookup k = some req →
      self.requests.lookup k = some req ∨ req.seq = (self.newReq 0).seq := by
  induction peerKeys with
  | nil => exact fun self k req h => .inl h
  | cons e peerKeys ih =>
    intro self k req h
    rcases ih _ k req h with hold | hseq
    · rw [lookup_insert] at hold
      split at hold
      · cases hold
        exact .inr rfl
      · exact .inl hold
    · exact .inr hseq

theorem restart_seq {k : PublicKey} {req : SigReq} (h : (self.restart rand).router.requests.lookup k = some req) :
    req.seq = (self.newReq 0).seq := by
  rcases requestEach_seq _ _ _ k req h with hold | hseq
  · cases hold
  · exact hseq

theorem handleResponse_first (peerId : PeerId) {key : PublicKey} (hmatch : self.reqMatch key res = true)
    (hnone : self.responses.lookup key = none) : ∃ lags responded, self.handleResponse peerId key res 0 = { self with
        lags, responded, resSeqCtr := self.resSeqCtr + 1, resSeqs := self.resSeqs.insert key (self.resSeqCtr + 1)
        responses := self.responses.insert key res } := by
  unfold handleResponse recordRtt storeResponse recordLag
  simp only [if_true, hmatch, hnone, isNone_none, Bool.and_self]
  split
  · exact ⟨_, _, rfl⟩
  · exact ⟨self.lags, self.responded, rfl⟩

def growNode : FullRouter := FullRouter.new ⟨2, fun _ => 0⟩ ⟨⟨0, 0, none⟩, 0, 0⟩ 0

def rootPeer : PeerEntry := ⟨1, 1, 1, 0, 0⟩

def rootPeerAnnounce : RouterAnnounce := { key := 1, parent := 1, seq := 1, nonce := 0, port := 0, psig := 0, sig := 0 }

structure Grown (n : Nat) (r : FullRouter) : Prop where
  reached : ReachedFrom signingEnv growNode r
  crypto : r.crypto.publicKey = 2
  peers : r.peers = (∅ : HashMap PublicKey (HashMap PeerId PeerEntry)).insert 1
    ((∅ : HashMap PeerId PeerEntry).insert 1 rootPeer)
  root : parentOf r.infos 1 = some 1
  own : n = 0 ∧ r.infos.lookup 2 = none ∨
    ∃ info, r.infos.lookup 2 = some info ∧ info.parent = 1 ∧ info.seq = n.toUInt64
  request : ∃ req, r.requests.lookup 1 = some req ∧ req.seq = (n + 1).toUInt64
  responses : r.responses = ∅

theorem grown_zero : ∃ r, Grown 0 r := by
  obtain ⟨r, hr, -⟩ := (bookkept_new ⟨2, fun _ => 0⟩ ⟨⟨0, 0, none⟩, 0, 0⟩ 0).execAll signingEnv
    [quietCall (.addPeer rootPeer), quietCall (.handleAnnounce 1 1 rootPeerAnnounce)]
  refine ⟨r, ReachedFrom.start.execAll hr, Lts.read_eq (fun r => r.crypto.publicKey) hr rfl,
    Lts.read_eq (fun r => r.peers) hr rfl, Lts.read_eq (fun r => parentOf r.infos 1) hr rfl,
    .inl ⟨rfl, Lts.read_eq (fun r => r.infos.lookup 2) hr rfl⟩,
    ⟨⟨1, 0⟩, Lts.read_eq (fun r => r.requests.lookup 1) hr rfl, rfl⟩, Lts.read_eq (fun r => r.responses) hr rfl⟩

structure Answered (n : Nat) (res : SigRes) (r : FullRouter) : Prop where
  reached : ReachedFrom signingEnv growNode r
  crypto : r.crypto.publicKey = 2
  peers : r.peers = (∅ : HashMap PublicKey (HashMap PeerId PeerEntry)).insert 1
    ((∅ : HashMap PeerId PeerEntry).insert 1 rootPeer)
  root : parentOf r.infos 1 = some 1
  own : n = 0 ∧ r.infos.lookup 2 = none ∨
    ∃ info, r.infos.lookup 2 = some info ∧ info.parent = 1 ∧ info.seq = n.toUInt64
  responses : r.responses = (∅ : HashMap PublicKey SigRes).insert 1 res
  seq : res.seq = (n + 1).toUInt64

variable {n : Nat}

theorem Grown.answered (h : Grown n r) : ∃ r' res, Answered n res r' := by
  obtain ⟨req, hreq, hseq⟩ := h.request
  have hnone : r.responses.lookup 1 = none := by
    rw [h.responses]
    rfl
  have hmatch : r.reqMatch 1 ⟨req.seq, req.nonce, 1, 0⟩ = true := by
    unfold reqMatch
    rw [hreq]
    simp
  obtain ⟨lags, responded, hresponse⟩ := handleResponse_first 1 hmatch hnone
  have hexec : r.exec signingEnv (quietCall (.handleResponse 1 1 ⟨req.seq, req.nonce, 1, 0⟩ 0)) =
      some { actions := [], router := r.handleResponse 1 1 ⟨req.seq, req.nonce, 1, 0⟩ 0 } := rfl
  have hreached := h.reached.exec hexec
  simp only [hresponse] at hreached
  refine ⟨_, ⟨req.seq, req.nonce, 1, 0⟩, hreached, h.crypto, h.peers, h.root, h.own, ?_, hseq⟩
  rw [h.responses]

theorem Answered.pass (h : Answered n res r) : Answered n res ((r.forceRefresh 0).ready 0) := by
  have hreached := (h.reached.forceRefresh 0).ready 0
  rw [ready_frame] at hreached ⊢
  exact ⟨hreached, h.crypto, h.peers, h.root, h.own, h.responses, h.seq⟩

theorem Answered.responder (h : Answered n res r) {pk : PublicKey} (hpk : (r.responses.lookup pk).isSome) : pk = 1 := by
  rw [h.responses, lookup_insert] at hpk
  by_contra hne
  rw [if_neg hne] at hpk
  cases hpk

theorem Answered.ascent_own (h : Answered n res r) (hascent : Ascent (parentOf r.infos) 2 ks root) :
    root = 1 ∧ r.selfInfoParent = 1 := by
  rcases h.own with ⟨-, hnone⟩ | ⟨info, hinfo, hparent, -⟩
  · have hsome := hascent.isSome_of_mem 2 hascent.mem_start
    rw [parentOf, hnone] at hsome
    cases hsome
  have hup : parentOf r.infos 2 = some 1 := by rw [parentOf, hinfo, map_some, hparent]
  refine ⟨(hascent.unique (Ascent.up hup (by decide) (Ascent.root h.root))).2, ?_⟩
  rw [← h.crypto] at hup
  exact parentOf_self hup

theorem Answered.selectParent (h : Answered n res r) : r.selectParent.root = 1 ∧ r.selectParent.parent = 1 := by
  have hcand : r.Candidate 1 [1] 1 := by
    refine ⟨?_, Ascent.root h.root, ?_⟩
    · rw [h.responses, lookup_insert, if_pos rfl]
      rfl
    rw [h.crypto]
    decide
  have hle := (r.selectParent_leading.isLeast r.currentParent_start).2 (.inr (.inr ⟨1, [1], hcand⟩))
  have hne : r.selectParent.root ≠ r.crypto.publicKey := by
    intro heq
    rw [heq, h.crypto] at hle
    exact absurd hle (by decide)
  rcases r.selectParent_leading.mem with heq | hmem
  · have hstart := r.currentParent_start
    rw [← heq] at hstart
    generalize r.selectParent = best at hstart hne ⊢
    cases hstart with
    | own => exact absurd rfl hne
    | path hretained =>
      obtain ⟨-, ks, hascent⟩ := hretained
      rw [h.crypto] at hascent
      exact h.ascent_own hascent
  obtain ⟨ks, ⟨hres, hascent, -⟩, -⟩ := mem_offers_iff.mp hmem
  have hparent := h.responder hres
  rw [hparent] at hascent
  exact ⟨(hascent.unique (Ascent.root h.root)).2, hparent⟩

theorem toUInt64_lt_succ (hn : n + 1 < 2 ^ 64) : n.toUInt64 < (n + 1).toUInt64 := by
  rw [lt_iff_toNat_lt, Nat.toUInt64_eq, Nat.toUInt64_eq, toNat_ofNat_of_lt' hn,
    toNat_ofNat_of_lt' (Nat.lt_trans (Nat.lt_succ_self n) hn)]
  exact Nat.lt_succ_self n

theorem Answered.adopts (h : Answered n res r) (hrefresh : r.refresh = true) (hn : n + 1 < 2 ^ 64) :
    r.Adopts res 0 where
  changes := by
    unfold Changes
    rw [hrefresh, Bool.true_or, Bool.true_or, Bool.true_or]
  response := by rw [h.selectParent.2, h.responses, lookup_insert, if_pos rfl]
  root_ne := by
    rw [h.selectParent.1, h.crypto]
    decide
  accepted := by
    have hkey : (r.childAnnounce r.selectParent.parent res).key = 2 := h.crypto
    have hnewer : (r.infos.lookup 2).all (r.childAnnounce r.selectParent.parent res).supersedes = true := by
      rcases h.own with ⟨-, hnone⟩ | ⟨info, hinfo, -, hseq⟩
      · rw [hnone]
        rfl
      have hlt : info.seq < (r.childAnnounce r.selectParent.parent res).seq := by
        show info.seq < res.seq
        rw [hseq, h.seq]
        exact toUInt64_lt_succ hn
      rw [hinfo, all_some]
      unfold RouterAnnounce.supersedes
      rw [if_neg (UInt64.lt_asymm hlt), if_pos hlt]
    unfold useResponse update Router.update
    rw [hkey, hnewer]
    rfl

theorem Answered.grown (h : Answered n res r) (hn : n + 1 < 2 ^ 64) : ∃ r', Grown (n + 1) r' := by
  obtain ⟨o, ho, -⟩ := (r.forceRefresh 0).doMaintenance_pass signingEnv ⟨0, 0⟩ fun _ => 0
  have hexec : r.exec signingEnv (quietCall .forceRefresh) = some o := ho
  have hreached := h.reached.exec hexec
  have hbook := (hreached.bookkept (bookkept_new _ _ _)).requests 1
  rw [doMaintenance_eq] at ho
  have htables := afterFix_tables ho
  have hpass := h.pass
  rw [fix_of_adopts (hpass.adopts (forced_refresh r) hn), hpass.selectParent.2] at htables
  generalize (r.forceRefresh 0).ready 0 = r₁ at htables hpass
  obtain ⟨hinfos, hcrypto, hpeers, hresponses⟩ := restart_tree (r₁.stored (r₁.childAnnounce 1 res) 0) fun _ => 0
  have hstored : o.router.infos = r₁.infos.insert 2 (r₁.childAnnounce 1 res).info := by
    rw [htables.infos, hinfos, ← hpass.crypto]
    rfl
  have hown : o.router.infos.lookup 2 = some (r₁.childAnnounce 1 res).info := by
    rw [hstored, lookup_insert, if_pos rfl]
  have hpeers' : o.router.peers = r₁.peers := htables.peers.trans hpeers
  obtain ⟨req, hreq⟩ : ∃ req, o.router.requests.lookup 1 = some req := by
    rw [hpeers', hpass.peers, lookup_insert, if_pos rfl] at hbook
    exact isSome_iff_exists.mp hbook.symm
  refine ⟨o.router, hreached, ?_, hpeers'.trans hpass.peers, ?_, .inr ⟨_, hown, rfl, hpass.seq⟩, ⟨req, hreq, ?_⟩,
    htables.responses.trans hresponses⟩
  · rw [htables.crypto, hcrypto]
    exact hpass.crypto
  · rw [parentOf, hstored, lookup_insert, if_neg (by decide)]
    exact hpass.root
  rw [htables.requests] at hreq
  rw [restart_seq hreq]
  unfold newReq
  rw [show (r₁.stored (r₁.childAnnounce 1 res) 0).infos = o.router.infos from (htables.infos.trans hinfos).symm,
    show (r₁.stored (r₁.childAnnounce 1 res) 0).crypto.publicKey = 2 from hpass.crypto, hown]
  show res.seq + 1 = _
  rw [hpass.seq, Nat.toUInt64_eq, Nat.toUInt64_eq, ofNat_add (n + 1) 1]
  rfl

theorem exists_grown (n : Nat) (hn : n < 2 ^ 64) : ∃ r, Grown n r := by
  induction n with
  | zero => exact grown_zero
  | succ n ih =>
    obtain ⟨r, h⟩ := ih (by omega)
    obtain ⟨r', res, h'⟩ := h.answered
    exact h'.grown hn

theorem Grown.abandoned (h : Grown n r) : ∃ r', ReachedFrom signingEnv growNode r' ∧ r'.crypto.publicKey = 2 ∧
    r'.infos = r.infos ∧ r'.peers = ∅ ∧ r'.refresh = true ∧ r'.doRoot2 = true := by
  have hlookup : r.peers.lookup 1 = some ((∅ : HashMap PeerId PeerEntry).insert 1 rootPeer) := by
    rw [h.peers, lookup_insert, if_pos rfl]
  have hexec : r.exec signingEnv (quietCall (.removePeer 1 1 1)) = some (r.removePeer 1 1 1) := rfl
  have hreached := ((h.reached.exec hexec).forceRefresh 0).ready 0
  have hdue := (ready_keepsSelf ((r.removePeer 1 1 1).router.forceRefresh 0) 0).due rfl
  have hrefresh := forced_refresh (r.removePeer 1 1 1).router
  have hkept : (r.removePeer 1 1 1).router.crypto = r.crypto ∧ (r.removePeer 1 1 1).router.infos = r.infos ∧
      (r.removePeer 1 1 1).router.peers = r.peers.remove 1 := by
    unfold removePeer
    simp only [hlookup]
    exact ⟨rfl, rfl, rfl⟩
  refine ⟨_, hreached, ?_, ?_, ?_, hrefresh, hdue⟩
  · rw [ready_frame]
    show (r.removePeer 1 1 1).router.crypto.publicKey = 2
    rw [hkept.1, h.crypto]
  · rw [ready_frame]
    exact hkept.2.1
  rw [ready_frame]
  show (r.removePeer 1 1 1).router.peers = ∅
  rw [hkept.2.2, h.peers]
  rfl

theorem no_self_loop_first : ∃ r res, Reached signingEnv r ∧ r.Adopts res 0 ∧ SelfInTree signingEnv r := by
  obtain ⟨r₀, h₀⟩ := grown_zero
  obtain ⟨r, res, h⟩ := h₀.answered
  have hreached : Reached signingEnv ((r.forceRefresh 0).ready 0) := ⟨_, _, _, h.pass.reached⟩
  exact ⟨_, res, hreached, h.pass.adopts (forced_refresh r) (by decide), no_self_loop hreached⟩

theorem last_seq_stuck : ¬ ∀ env r, Reached env r → ∀ rand now, r.BecomesRoot now →
    parentOf (r.fix rand now).router.infos r.crypto.publicKey = some r.crypto.publicKey := by
  intro hclaim
  obtain ⟨r₀, h₀⟩ := exists_grown (2 ^ 64 - 1) (by decide)
  obtain ⟨r, hreached, hcrypto, hinfos, hpeers, hrefresh, hdue⟩ := h₀.abandoned
  have hbook := hreached.bookkept (bookkept_new _ _ _)
  have hself : r.selectParent.root = r.crypto.publicKey := by
    rcases (r.selectParent_leading.isLeast r.currentParent_start).1 with heq | hretained | ⟨pk, ks, hcand⟩
    · exact heq
    · have hconn := hretained.1
      rw [hpeers] at hconn
      cases hconn
    have hconn := hcand.connected hbook
    rw [hpeers] at hconn
    cases hconn
  have hroot : r.BecomesRoot 0 := by
    refine ⟨?_, fun res hadopts => hadopts.root_ne hself, hdue⟩
    unfold Changes
    rw [hrefresh, Bool.true_or, Bool.true_or, Bool.true_or]
  have hexhausted : r.Exhausted := by
    rcases h₀.own with ⟨hzero, -⟩ | ⟨info, hinfo, hparent, hseq⟩
    · exact absurd hzero (by decide)
    refine ⟨info, ?_, ?_, hseq⟩
    · rw [hcrypto, hinfos, hinfo]
    rw [hcrypto, hparent]
    decide
  exact (named_iff hroot fun _ => 0).mp (hclaim signingEnv r ⟨_, _, _, hreached⟩ (fun _ => 0) 0 hroot) hexhausted

end Yggdrasil.FullRouter
