import Yggdrasil.Router.Bookkeeping
import Yggdrasil.Router.Paths

/-!
# The path cache

Signed notifies and the unsigned coordinates of received packets write the same table.
-/

namespace Yggdrasil
open List Option HashMap

namespace Pathfinder

inductive Op where
  | learnPathFromTraffic (source : PublicKey) (path : List PeerPort) (now : Instant)
  | refreshIfCoordsMatch (key : PublicKey) (fromPath : List PeerPort) (now : Instant)
  | acceptNotify (source xformedSource : PublicKey) (seq : UInt64) (path : List PeerPort) (sig : Sig) (now : Instant)
  | handleBroken (dest : PublicKey)
  | cacheTraffic (dest : PublicKey) (traffic : TrafficPacket)
  | cleanupExpired (pathTimeout : Duration) (now : Instant)
  | markLookupSent (dest : PublicKey) (now : Instant)
  | setRumors (rumors : HashMap PublicKey PathRumor)
  | setInfo (info : OwnPathInfo)

def exec (self : Pathfinder) : Op → Pathfinder
  | .learnPathFromTraffic source path now => self.learnPathFromTraffic source path now
  | .refreshIfCoordsMatch key fromPath now => self.refreshIfCoordsMatch key fromPath now
  | .acceptNotify source xformedSource seq path _ now => (self.acceptNotify source xformedSource seq path now).2.2
  | .handleBroken dest => self.handleBroken dest
  | .cacheTraffic dest traffic => self.cacheTraffic dest traffic
  | .cleanupExpired pathTimeout now => self.cleanupExpired pathTimeout now
  | .markLookupSent dest now => self.markLookupSent dest now
  | .setRumors rumors => { self with rumors }
  | .setInfo info => { self with info }

def run (self : Pathfinder) (ops : List Op) : Pathfinder := ops.foldl exec self

def Op.Verified (env : Env) : Op → Prop
  | .acceptNotify source _ seq path sig _ => env.verify source (bytesForSig seq path) sig = true
  | _ => True

/-! ## One operation -/

inductive Effect (k : PublicKey) : Op → Option PathInfo → Option PathInfo → Prop
  | same (op : Op) (entry : Option PathInfo) : Effect k op entry entry
  | learned (path : List PeerPort) (now : Instant) :
      Effect k (.learnPathFromTraffic k path now) none
        (some { path, seq := 0, reqTime := now, lastRefresh := now, cachedTraffic := none, broken := false })
  | found (x : PublicKey) (seq : UInt64) (path : List PeerPort) (sig : Sig) (now : Instant) :
      Effect k (.acceptNotify k x seq path sig now) none
        (some { path, seq, reqTime := now, lastRefresh := now, cachedTraffic := none, broken := false })
  | updated {info : PathInfo} (x : PublicKey) {seq : UInt64} (path : List PeerPort) (sig : Sig) (now : Instant) :
      info.seq < seq → Effect k (.acceptNotify k x seq path sig now) (some info)
        (some { info with path, seq, broken := false, lastRefresh := now, cachedTraffic := none })
  | refreshed {info : PathInfo} (now : Instant) : info.broken = false →
      Effect k (.refreshIfCoordsMatch k info.path now) (some info) (some { info with lastRefresh := now })
  | broken (info : PathInfo) : Effect k (.handleBroken k) (some info) (some { info with broken := true })
  | cached (info : PathInfo) (traffic : TrafficPacket) :
      Effect k (.cacheTraffic k traffic) (some info) (some { info with cachedTraffic := some traffic })
  | marked (info : PathInfo) (now : Instant) :
      Effect k (.markLookupSent k now) (some info) (some { info with reqTime := now })
  | expired (info : PathInfo) (pathTimeout : Duration) (now : Instant) :
      Effect k (.cleanupExpired pathTimeout now) (some info) none

variable (self : Pathfinder)

theorem effect_modify {k dest : PublicKey} {op : Op} {f : PathInfo → PathInfo}
    (h : ∀ info, self.paths.lookup k = some info → dest = k → Effect k op (some info) (some (f info))) :
    Effect k op (self.paths.lookup k) ((self.paths.modify dest f).lookup k) := by
  rw [lookup_modify]
  cases hinfo : self.paths.lookup k with
  | none => exact Effect.same op none
  | some info =>
    split
    next hk => exact h info hinfo hk.symm
    · exact Effect.same op (some info)

theorem acceptNotify_effect (k source x : PublicKey) (seq : UInt64) (path : List PeerPort)
    (sig : Sig) (now : Instant) :
    Effect k (.acceptNotify source x seq path sig now) (self.paths.lookup k)
      ((self.acceptNotify source x seq path now).2.2.paths.lookup k) := by
  rw [acceptNotify]
  cases hsource : self.paths.lookup source with
  | some info =>
    simp only
    split
    · exact Effect.same _ _
    split
    · exact Effect.same _ _
    next hseq _ =>
      refine self.effect_modify fun info' hinfo' hk => ?_
      subst hk
      rw [hsource, some.injEq] at hinfo'
      subst hinfo'
      exact Effect.updated x path sig now (UInt64.not_le.mp hseq)
  | none =>
    simp only
    split
    · exact Effect.same _ _
    simp only [lookup_insert]
    split
    next hk =>
      subst hk
      rw [hsource]
      exact Effect.found x seq path sig now
    · exact Effect.same _ _

/-- What one call does to an entry. -/
theorem exec_effect (op : Op) (k : PublicKey) :
    Effect k op (self.paths.lookup k) ((self.exec op).paths.lookup k) := by
  cases op with
  | learnPathFromTraffic source path now =>
    rw [exec, learnPathFromTraffic]
    cases hsource : self.paths.lookup source with
    | some info => exact Effect.same _ _
    | none =>
      simp only [lookup_insert]
      split
      next hk =>
        subst hk
        rw [hsource]
        exact Effect.learned path now
      · exact Effect.same _ _
  | refreshIfCoordsMatch key fromPath now =>
    rw [exec, refreshIfCoordsMatch]
    split
    next hmatch =>
      refine self.effect_modify fun info hinfo hk => ?_
      subst hk
      rw [hinfo, any_some, Bool.and_eq_true, Bool.not_eq_true', beq_iff_eq] at hmatch
      rw [if_neg (by rw [hmatch.1]; exact Bool.false_ne_true), ← hmatch.2]
      exact Effect.refreshed now hmatch.1
    · exact Effect.same _ _
  | acceptNotify source x seq path sig now => exact self.acceptNotify_effect k source x seq path sig now
  | handleBroken dest =>
    refine self.effect_modify fun info _ hk => ?_
    subst hk
    exact Effect.broken info
  | cacheTraffic dest traffic =>
    refine self.effect_modify fun info _ hk => ?_
    subst hk
    exact Effect.cached info traffic
  | cleanupExpired pathTimeout now =>
    rw [exec, cleanupExpired, lookup_retain]
    cases self.paths.lookup k with
    | none => exact Effect.same _ none
    | some info =>
      rw [filter_some]
      split
      · exact Effect.same _ _
      · exact Effect.expired info pathTimeout now
  | markLookupSent dest now =>
    refine self.effect_modify fun info _ hk => ?_
    subst hk
    exact Effect.marked info now
  | setRumors rumors | setInfo info => exact Effect.same _ _

/-! ## Integrity -/

structure Faithful (op : Op) (k : PublicKey) (info info' : PathInfo) : Prop where
  seq_le : info.seq ≤ info'.seq
  /-- The path changes, and a broken path is repaired, only by a newer notify. -/
  path : info'.path ≠ info.path ∨ info.broken = true ∧ info'.broken = false →
    ∃ x sig now, op = .acceptNotify k x info'.seq info'.path sig now ∧ info.seq < info'.seq
  /-- The timeout starts again only by a newer notify, or by a packet whose coordinates are those of a working path. -/
  refresh : info'.lastRefresh ≠ info.lastRefresh →
    (∃ x sig now, op = .acceptNotify k x info'.seq info'.path sig now ∧ info.seq < info'.seq) ∨
      ∃ now, op = .refreshIfCoordsMatch k info.path now ∧ info.broken = false

theorem Effect.faithful {op : Op} {k : PublicKey} {info info' : PathInfo} (h : Effect k op (some info) (some info')) :
    Faithful op k info info' := by
  cases h with
  | same | broken | cached | marked => exact ⟨UInt64.le_refl _, by simp, by simp⟩
  | updated x path sig now hlt =>
    exact ⟨UInt64.le_of_lt hlt, fun _ => ⟨x, sig, now, rfl, hlt⟩, fun _ => Or.inl ⟨x, sig, now, rfl, hlt⟩⟩
  | refreshed now hworking => exact ⟨UInt64.le_refl _, by simp [hworking], fun _ => Or.inr ⟨now, rfl, hworking⟩⟩

theorem Filed.exec {self : Pathfinder} (h : self.Filed) (op : Op)
    (hop : ∀ dest traffic, op = .cacheTraffic dest traffic → traffic.dest = dest) : (self.exec op).Filed := by
  intro k info t hinfo ht
  have heffect := self.exec_effect op k
  have hself := h k
  rw [hinfo] at heffect
  generalize self.paths.lookup k = entry at heffect hself
  cases heffect with
  | same => exact hself info t rfl ht
  | cached info' traffic => exact some.inj ht ▸ hop k traffic rfl
  | refreshed | broken | marked => exact hself _ t rfl ht
  | learned | found | updated => cases ht

/-- A positive number is that of a verified notify. -/
def Sourced (env : Env) (ops : List Op) (k : PublicKey) (entry : Option PathInfo) : Prop :=
  ∀ info, entry = some info → 0 < info.seq → ∃ x sig now, Op.acceptNotify k x info.seq info.path sig now ∈ ops ∧
      env.verify k (bytesForSig info.seq info.path) sig = true

theorem Sourced.step {env : Env} {ops : List Op} {op : Op} {k : PublicKey} {entry entry' : Option PathInfo}
    (h : Sourced env ops k entry) (hop : op.Verified env) (heffect : Effect k op entry entry') :
    Sourced env (ops ++ [op]) k entry' := by
  have hkept : ∀ info info' : PathInfo, entry = some info → info'.seq = info.seq → info'.path = info.path →
    0 < info'.seq →
      ∃ x sig now, Op.acceptNotify k x info'.seq info'.path sig now ∈ ops ++ [op] ∧
        env.verify k (bytesForSig info'.seq info'.path) sig = true := by
    intro info info' hentry hseq hpath hpos
    rw [hseq] at hpos
    obtain ⟨x, sig, now, hmem, hverify⟩ := h info hentry hpos
    rw [hseq, hpath]
    exact ⟨x, sig, now, mem_append_left _ hmem, hverify⟩
  intro info' hentry' hpos
  cases heffect with
  | same => exact hkept info' info' hentry' rfl rfl hpos
  | learned => cases hentry'; exact absurd hpos (UInt64.lt_irrefl 0)
  | found x seq path sig now | updated x path sig now _ =>
    cases hentry'
    exact ⟨x, sig, now, mem_append_right _ (mem_singleton_self _), hop⟩
  | refreshed | broken | cached | marked => cases hentry'; exact hkept _ _ rfl rfl rfl hpos
  | expired => cases hentry'

theorem run_append (ops more : List Op) : self.run (ops ++ more) = (self.run ops).run more :=
  foldl_append

theorem run_sourced (env : Env) (crypto : Crypto) (k : PublicKey) (ops : List Op) :
    (∀ op ∈ ops, op.Verified env) → Sourced env ops k (((new crypto).run ops).paths.lookup k) := by
  induction ops using List.reverseRecOn with
  | nil =>
    intro _ info hinfo
    exact absurd hinfo (by simp [run, new])
  | append_singleton ops op ih =>
    intro hops
    rw [run_append]
    refine (ih fun op' hop' => hops op' (mem_append_left _ hop')).step ?_ (exec_effect _ op k)
    exact hops op (mem_append_right _ (mem_singleton_self op))

/-- Sequence numbers do not decrease in a run. -/
theorem run_seq_le {k : PublicKey} (more : List Op) : ∀ (self : Pathfinder) {info info' : PathInfo},
    self.paths.lookup k = some info → (∀ ops, ops <+: more → ((self.run ops).paths.lookup k).isSome) →
      (self.run more).paths.lookup k = some info' → info.seq ≤ info'.seq := by
  induction more with
  | nil =>
    intro self info info' hinfo _ hinfo'
    rw [run, foldl_nil, hinfo, some.injEq] at hinfo'
    rw [hinfo']
    exact UInt64.le_refl _
  | cons op more ih =>
    intro self info info' hinfo hpresent hinfo'
    obtain ⟨next, hnext⟩ := isSome_iff_exists.mp (hpresent [op] (prefix_append [op] more))
    have heffect := self.exec_effect op k
    rw [hinfo] at heffect
    have hstep : (self.exec op).paths.lookup k = some next := hnext
    rw [hstep] at heffect
    refine UInt64.le_trans heffect.faithful.seq_le (ih (self.exec op) hstep (fun ops hops => ?_) hinfo')
    exact hpresent (op :: ops) ((prefix_cons_inj op).mpr hops)

/-- **Path-cache integrity.** If every notify was verified, an entry with a positive sequence number holds the path of a
verified notify of that number, changes only as `Faithful` says, and its number does not decrease. -/
theorem path_cache_integrity (env : Env) (crypto : Crypto) (ops : List Op) (hops : ∀ op ∈ ops, op.Verified env)
    (k : PublicKey) {info : PathInfo} (hinfo : ((new crypto).run ops).paths.lookup k = some info) :
    (0 < info.seq → ∃ x sig now, Op.acceptNotify k x info.seq info.path sig now ∈ ops ∧
      env.verify k (bytesForSig info.seq info.path) sig = true) ∧
    (∀ op info', (((new crypto).run ops).exec op).paths.lookup k = some info' → Faithful op k info info') ∧
    ∀ more info', (∀ pre, pre <+: more → (((new crypto).run (ops ++ pre)).paths.lookup k).isSome) →
      ((new crypto).run (ops ++ more)).paths.lookup k = some info' → info.seq ≤ info'.seq := by
  refine ⟨run_sourced env crypto k ops hops info hinfo, fun op info' hinfo' => ?_, fun more info' hpresent hinfo' => ?_⟩
  · have heffect := ((new crypto).run ops).exec_effect op k
    rw [hinfo, hinfo'] at heffect
    exact heffect.faithful
  simp only [run_append] at hpresent hinfo'
  exact run_seq_le more _ hinfo hpresent hinfo'

def mixedOps : List Op :=
  [.setRumors ((∅ : HashMap PublicKey PathRumor).insert 1
      { traffic := none, sendTime := none, retryTime := none, created := 0 }),
    .acceptNotify 1 1 5 [3] 0 10, .learnPathFromTraffic 1 [9] 11, .handleBroken 1, .refreshIfCoordsMatch 1 [3] 12,
    .acceptNotify 1 1 6 [4] 0 13]

theorem path_cache_integrity_mixed :
    ∃ info, ((new ⟨7, fun _ => 0⟩).run mixedOps).paths.lookup 1 = some info ∧ info.path = [4] ∧ info.seq = 6 ∧
      ∃ x sig now, Op.acceptNotify 1 x info.seq info.path sig now ∈ mixedOps ∧
        Env.verify ⟨fun _ _ _ => true, fun _ => 0⟩ 1 (bytesForSig info.seq info.path) sig = true := by
  have hverified : ∀ op ∈ mixedOps, op.Verified ⟨fun _ _ _ => true, fun _ => 0⟩ := by simp [mixedOps, Op.Verified]
  have hinfo : ((new ⟨7, fun _ => 0⟩).run mixedOps).paths.lookup 1 = some
      { path := [4], seq := 6, reqTime := 10, lastRefresh := 13, cachedTraffic := none, broken := false } := by
    decide
  have hintegrity := path_cache_integrity _ ⟨7, fun _ => 0⟩ mixedOps hverified 1 hinfo
  exact ⟨_, hinfo, rfl, rfl, hintegrity.1 (by decide)⟩

end Pathfinder

/-! ## The router -/

namespace FullRouter
variable {env : Env} {self : FullRouter} {I : Pathfinder → Prop}

theorem Pass.pathfinder (hI : ∀ c, Router.PathRules env c (fun _ => True) I) {clk : Clock} {o : Outcome}
    (hpass : Pass env clk self o) (h : I self.pathfinder) : I o.router.pathfinder := by
  cases hpass with
  | @mk r fixed announced bloomed hframe hfix hsent hbloom _ _ =>
    have hpathfinder : bloomed.router.pathfinder = self.pathfinder := by
      rw [hbloom, hsent.frame]
      exact hfix.pathfinder.trans (by rw [hframe])
    exact Router.maintainPaths_keeps env clk (hI _) (hpathfinder ▸ h)

theorem exec_pathfinder (hI : ∀ c, Router.PathRules env c (fun _ => True) I) {call : Call} {o : Outcome}
    (ho : self.exec env call = some o) (h : I self.pathfinder) : I o.router.pathfinder := by
  obtain ⟨clk, rand, msg⟩ := call
  cases msg with
  | addPeer entry =>
    obtain ⟨-, -, -, hpathfinder⟩ := (addPeer_added ho).untouched
    rw [hpathfinder]
    exact h
  | removePeer peerId key port =>
    cases ho
    simp only [removePeer]
    split
    · exact h
    · split <;> exact h
  | handleRequest peerId peerKey req | handleBloom peerKey filter =>
    cases ho
    exact h
  | handleResponse peerId key res rtt =>
    cases ho
    obtain ⟨lags, rtts, responded, heq | ⟨-, heq⟩⟩ := self.handleResponse_cases peerId key res rtt <;>
    · rw [heq]
      exact h
  | handleAnnounce peerId peerKey ann =>
    cases ho
    simp only [handleAnnounce]
    rcases self.update_cases ann clk.now with hupdate | hupdate
    · simp only [hupdate, if_true]
      split <;> exact h
    simp only [hupdate, Bool.false_eq_true, if_false]
    split <;> exact h
  | path m =>
    cases ho
    refine Router.handlePath_keeps env clk (hI _) m h ?_
    cases m <;> trivial
  | forceRefresh => exact (pass_of_doMaintenance ho).pathfinder hI h
  | maintenance wallJump =>
    have hstart : I (if wallJump then self.forceRefresh clk.now else self).pathfinder := by
      split <;> exact h
    refine (pass_of_doMaintenance ho).pathfinder hI ?_
    exact expireInfos_induct (P := fun r => I r.pathfinder) hstart
      (fun r k hr => by rw [expire_pathfinder]; exact hr) clk.now

end FullRouter

def Pathfinder.Reached (env : Env) (start p : Pathfinder) : Prop :=
  ∃ ops : List Op, (∀ op ∈ ops, op.Verified env) ∧ p = start.run ops

theorem Pathfinder.Reached.exec {env : Env} {start p : Pathfinder} (h : Reached env start p) (op : Op)
    (hop : op.Verified env) : Reached env start (p.exec op) := by
  obtain ⟨ops, hops, rfl⟩ := h
  refine ⟨ops ++ [op], fun op' hop' => ?_, by rw [run_append]; rfl⟩
  rcases mem_append.mp hop' with hop' | hop'
  · exact hops op' hop'
  · rwa [mem_singleton.mp hop']

open Pathfinder (Reached Op) in
theorem reached_rules (env : Env) (start : Pathfinder) (c : List PeerPort) :
    Router.PathRules env c (fun _ => True) (Reached env start) where
  own := trivial
  sign _ seq sig h := h.exec (.setInfo { seq, path := c, sig }) trivial
  markLookupSent _ dest now h := h.exec (.markLookupSent dest now) trivial
  handleBroken _ dest h := h.exec (.handleBroken dest) trivial
  acceptNotify _ source x seq path sig now h _ hverify := h.exec (.acceptNotify source x seq path sig now) hverify
  learn _ source path now h _ := h.exec (.learnPathFromTraffic source path now) trivial
  refresh _ source path now h := h.exec (.refreshIfCoordsMatch source path now) trivial
  rumors _ rumors h := h.exec (.setRumors rumors) trivial
  cacheTraffic _ tr h := h.exec (.cacheTraffic tr.dest tr) trivial
  cleanupExpired _ timeout now h := h.exec (.cleanupExpired timeout now) trivial

theorem filed_rules (env : Env) (c : List PeerPort) : Router.PathRules env c (fun _ => True) Pathfinder.Filed where
  own := trivial
  sign _ seq sig h := h.exec (.setInfo { seq, path := c, sig }) (by simp)
  markLookupSent _ dest now h := h.exec (.markLookupSent dest now) (by simp)
  handleBroken _ dest h := h.exec (.handleBroken dest) (by simp)
  acceptNotify _ source x seq path sig now h _ _ := h.exec (.acceptNotify source x seq path sig now) (by simp)
  learn _ source path now h _ := h.exec (.learnPathFromTraffic source path now) (by simp)
  refresh _ source path now h := h.exec (.refreshIfCoordsMatch source path now) (by simp)
  rumors _ rumors h := h.exec (.setRumors rumors) (by simp)
  cacheTraffic _ tr h := h.exec (.cacheTraffic tr.dest tr) (by simp)
  cleanupExpired _ timeout now h := h.exec (.cleanupExpired timeout now) (by simp)

/-- In every run, a path kept with a positive sequence number is that of a verified notify. -/
theorem FullRouter.execAll_sourced (env : Env) (crypto : Crypto) (config : FullConfig) (now : Instant)
    (calls : List Call) :
    ∃ r ops, (FullRouter.new crypto config now).execAll env calls = some r ∧
      r.pathfinder = (Pathfinder.new crypto).run ops ∧
        ∀ k, Pathfinder.Sourced env ops k (r.pathfinder.paths.lookup k) := by
  obtain ⟨r, hr, -⟩ := (bookkept_new crypto config now).execAll env calls
  have hreached : Pathfinder.Reached env (Pathfinder.new crypto) r.pathfinder := by
    refine (Lts.run_of_foldlM hr).invariant (I := fun r => Pathfinder.Reached env _ r.pathfinder)
      ⟨[], by simp, rfl⟩ fun r call r' hr hcall => ?_
    obtain ⟨o, ho, rfl⟩ := map_eq_some_iff.mp hcall
    exact exec_pathfinder (reached_rules env _) ho hr
  obtain ⟨ops, hops, hrun⟩ := hreached
  exact ⟨r, ops, hr, hrun, fun k => hrun ▸ Pathfinder.run_sourced env crypto k ops hops⟩

end Yggdrasil
