import Yggdrasil.Router.ActLog
import Yggdrasil.Router.PeerIds

/-!
# Packets that wait for a path

A rumor has one slot for a packet. What takes a packet out of it, over every run of the router task.
-/

namespace Yggdrasil
open Option
open Pathfinder (Act Setting Doing perform slotAfter slot_perform slot_of_perform)

namespace Pathfinder

/-- A packet of the application: neither a keepalive packet nor one that only starts a lookup. -/
def App (t : TrafficPacket) : Prop := t.payload ≠ [] ∧ t.keepalive = false

instance (t : TrafficPacket) : Decidable (App t) := inferInstanceAs (Decidable (_ ∧ _))

variable (s : Setting) (clk : Clock) (p : Pathfinder)

/-- What becomes of a packet that waits. -/
inductive Fate (x : PublicKey) (t : TrafficPacket) : Act → Prop
  | waits {a : Act} (h : (perform s clk p a).slot x = some t) : Fate x t a
  | routed {source : PublicKey} {seq : UInt64} {path coords : List PeerPort}
      (h : (p.acceptNotify source (s.xKey source) seq path clk.now).2.1 = some t) :
      Fate x t (.accept source seq path coords)
  | replaced {tr : TrafficPacket} (htr : App tr) (h : (perform s clk p (.buffer tr)).slot x = some tr) :
      Fate x t (.buffer tr)
  | expired (h : (perform s clk p .cleanup).rumors.lookup x = none) : Fate x t .cleanup

/-- A packet that only starts a lookup finds no packet of the application in the slot. -/
def Spares (a : Act) : Prop :=
  ∀ tr, a = .buffer tr → tr.payload = [] → tr.keepalive = false → ∀ t, p.slot (s.xKey tr.dest) = some t → ¬ App t

variable {s clk p} {x : PublicKey} {t tr : TrafficPacket}

theorem slot_buffer (s : Setting) (clk : Clock) (p : Pathfinder) (tr : TrafficPacket) (x : PublicKey) :
    (perform s clk p (.buffer tr)).slot x =
      if s.xKey tr.dest = x then if tr.keepalive && (p.slot x).isSome then p.slot x else some tr else p.slot x :=
  slot_perform s clk p (.buffer tr) x

theorem fate_buffer (happ : App t) (ht : p.slot x = some t) :
    Fate s clk p x t (.buffer tr) ↔ s.xKey tr.dest = x → tr.payload = [] → tr.keepalive = true := by
  have hslot := slot_buffer s clk p tr x
  rw [ht, isSome_some, Bool.and_true] at hslot
  constructor
  · intro hfate hx hempty
    by_contra hkeepalive
    rw [if_pos hx, if_neg hkeepalive] at hslot
    cases hfate with
    | waits h =>
      obtain rfl := some.inj (hslot.symm.trans h)
      exact happ.1 hempty
    | replaced htr _ => exact htr.1 hempty
  intro hspares
  by_cases hx : s.xKey tr.dest = x
  · rw [if_pos hx] at hslot
    by_cases hkeepalive : tr.keepalive = true
    · rw [if_pos hkeepalive] at hslot
      exact Fate.waits hslot
    rw [if_neg hkeepalive] at hslot
    exact Fate.replaced ⟨fun hempty => hkeepalive (hspares hx hempty), by simpa using hkeepalive⟩ hslot
  rw [if_neg hx] at hslot
  exact Fate.waits hslot

theorem acceptNotify_released {source x : PublicKey} {seq : UInt64} {path : List PeerPort} {now : Instant}
    (hunknown : p.paths.lookup source = none) (ht : p.slot x = some t) (hdest : t.dest = source) :
    (p.acceptNotify source x seq path now).1 = true ∧ (p.acceptNotify source x seq path now).2.1 = some t := by
  obtain ⟨rumor, hrumor, htraffic⟩ := slot_eq_some.mp ht
  simp only [acceptNotify, hunknown, hrumor, htraffic, any_some, hdest, beq_self_eq_true, if_true, and_self]

theorem fate_of_spares (happ : App t) (ht : p.slot x = some t) {a : Act} (h : Spares s p a) : Fate s clk p x t a := by
  have hslot := slot_perform s clk p a x
  cases a with
  | buffer tr =>
    rw [fate_buffer happ ht]
    intro hx hempty
    by_contra hkeepalive
    rw [Bool.not_eq_true] at hkeepalive
    exact h tr rfl hempty hkeepalive t (by rw [hx, ht]) happ
  | accept source seq path coords =>
    simp only [slotAfter, ht] at hslot
    split at hslot
    next hdrain =>
      obtain ⟨rfl, hunknown⟩ := hdrain
      by_cases hdest : t.dest = source
      · rw [isSome_eq_false_iff, isNone_iff_eq_none] at hunknown
        exact Fate.routed (acceptNotify_released hunknown ht hdest).2
      rw [filter_some, if_pos (by simpa using hdest)] at hslot
      exact Fate.waits hslot
    · exact Fate.waits hslot
  | cleanup =>
    simp only [slotAfter, ht] at hslot
    split at hslot
    · exact Fate.waits hslot
    next hexpired =>
      refine Fate.expired ?_
      rw [perform_rumors]
      simp only [rumorAfter]
      obtain ⟨rumor, hrumor, -⟩ := slot_eq_some.mp ht
      rw [hrumor, any_some] at hexpired
      rw [hrumor, filter_some, if_neg hexpired]
  | ensureRumor dest | forgetSent dest | search why dest sent | answer coords | markBroken dest | arrive source path
  | cacheTraffic tr => exact Fate.waits (hslot.trans ht)

/-- The one way in which a packet of the application is lost. -/
theorem fate_iff_spares (s : Setting) (clk : Clock) (p : Pathfinder) (a : Act) :
    (∀ x t, App t → p.slot x = some t → Fate s clk p x t a) ↔ Spares s p a := by
  constructor
  · rintro hfate tr rfl hempty hkeepalive t ht happ
    have hcontra := (fate_buffer happ ht).mp (hfate _ t happ ht) rfl hempty
    rw [hkeepalive] at hcontra
    cases hcontra
  · exact fun hspares x t happ ht => fate_of_spares happ ht hspares

/-! ## What the acts of `route_traffic` keep -/

theorem slot_none_of_routing {p' : Pathfinder} {acts : List Act}
    (hrun : Lts.Run (Doing s clk (·.routing = true)) p acts p') (h : p.slot x = none) : p'.slot x = none := by
  refine hrun.invariant (I := fun p => p.slot x = none) h fun p a p' hp ⟨⟨_, hperform⟩, hrouting⟩ => ?_
  by_contra hsome
  obtain ⟨t, ht⟩ := ne_none_iff_exists'.mp hsome
  rw [hperform] at ht
  rcases slot_of_perform ht with hslot | ⟨rfl, -⟩
  · rw [hp] at hslot
    cases hslot
  · cases hrouting

theorem slot_of_routing {p' : Pathfinder} {acts : List Act} (hrun : Lts.Run (Doing s clk (·.routing = true)) p acts p')
    (ht : p.slot x = some t) (hknown : (p.paths.lookup t.dest).isSome) : p'.slot x = some t := by
  refine (hrun.invariant (I := fun p => p.slot x = some t ∧ (p.paths.lookup t.dest).isSome) ⟨ht, hknown⟩
    fun p a p' ⟨hslot, hknown⟩ ⟨⟨_, hperform⟩, hrouting⟩ => ?_).1
  rw [hperform]
  refine ⟨?_, paths_isSome_perform (Act.handling_of_routing hrouting False).1 hknown⟩
  rw [slot_perform]
  cases a with
  | accept source seq path coords =>
    simp only [slotAfter]
    split
    next hdrain =>
      rw [hslot, filter_some, if_pos]
      rw [bne_iff_ne]
      rintro rfl
      rw [hknown] at hdrain
      cases hdrain.2
    · exact hslot
  | search why dest sent | answer coords | markBroken dest | arrive source path => exact hslot
  | ensureRumor dest | buffer tr | forgetSent dest | cacheTraffic tr | cleanup => cases hrouting

end Pathfinder

/-! ## The notify handler -/

namespace Router
variable {env : Env} {clk : Clock} {self : Router} {notify : PathNotify} {t : TrafficPacket}

def released (clk : Clock) (self : Router) (notify : PathNotify) : Option TrafficPacket :=
  (self.pathfinder.acceptNotify notify.source (self.setting.xKey notify.source) notify.info.seq notify.info.path
    clk.now).2.1

def resend (clk : Clock) (route : Router → TrafficPacket → Outcome) (self : Router) (notify : PathNotify)
    (t : TrafficPacket) : Outcome :=
  let self := (self.lookup notify.path notify.watermark).router
  let accept := self.pathfinder.acceptNotify notify.source (self.setting.xKey notify.source) notify.info.seq
    notify.info.path clk.now
  let self := { self with pathfinder := accept.2.2 }
  let coords := self.cachedCoords self.crypto.publicKey
  let sent := route coords.2 { t with path := notify.info.path, fromPath := coords.1 }
  { sent with actions := sent.actions ++ [.pathNotifyCallback notify.source] }

theorem handleNotifyInternal_resend (env : Env) (route : Router → TrafficPacket → Outcome)
    (haccepts : acceptsNotify env clk self notify = true) (ht : released clk self notify = some t) :
    handleNotifyInternal env clk route self notify = resend clk route self notify t := by
  have hfound := self.lookup_caches notify.path notify.watermark
  unfold released at ht
  rw [← hfound.pathfinder, ← hfound.setting] at ht
  simp only [acceptsNotify, Bool.and_eq_true, isNone_iff_eq_none, beq_iff_eq] at haccepts
  obtain ⟨⟨⟨hid, hdest⟩, hverify⟩, haccept⟩ := haccepts
  simp only [handleNotifyInternal, resend, hid]
  generalize (self.lookup notify.path notify.watermark).router = r at ht hdest haccept ⊢
  rw [if_neg (not_not_intro hdest), if_neg (by simp [hverify])]
  rw [show Blooms.xKey notify.source r.bloomTransform = r.setting.xKey notify.source from rfl] at haccept ⊢
  simp only [ht, haccept, if_true]

theorem slot_resend (env : Env) (hunknown : self.pathfinder.paths.lookup notify.source = none)
    (ht : self.pathfinder.slot (self.setting.xKey notify.source) = some t) (hdest : t.dest = notify.source) :
    (resend clk (routeTraffic env clk) self notify t).router.pathfinder.slot (self.setting.xKey notify.source) =
      none := by
  have hfound := self.lookup_caches notify.path notify.watermark
  rw [← hfound.pathfinder] at hunknown ht
  rw [← hfound.setting] at ht ⊢
  simp only [resend]
  generalize (self.lookup notify.path notify.watermark).router = r at hunknown ht ⊢
  have hslot := slot_perform r.setting clk r.pathfinder (.accept notify.source notify.info.seq notify.info.path [])
    (r.setting.xKey notify.source)
  simp only [perform, slotAfter, hunknown, isSome_none, and_self, if_true, ht, filter_some, hdest,
    bne_self_eq_false, Bool.false_eq_true, if_false] at hslot
  generalize (r.pathfinder.acceptNotify notify.source (r.setting.xKey notify.source) notify.info.seq notify.info.path
    clk.now).2.2 = p at hslot ⊢
  have hcoords := cachedCoords_caches { r with pathfinder := p } r.crypto.publicKey
  rw [← show _ = p from hcoords.pathfinder] at hslot
  exact Pathfinder.slot_none_of_routing
    (routeTraffic_routing env clk r.setting _ _ _ hcoords.setting rfl trivial).run hslot

theorem handleNotify_releases_iff (haccepts : acceptsNotify env clk self notify = true)
    (ht : self.pathfinder.slot (self.setting.xKey notify.source) = some t) (hdest : t.dest = notify.source) :
    handleNotify env clk self notify = resend clk (routeTraffic env clk) self notify t ∧
        (handleNotify env clk self notify).router.pathfinder.slot (self.setting.xKey notify.source) ≠ some t ↔
      self.pathfinder.paths.lookup notify.source = none := by
  constructor
  · rintro ⟨-, hleft⟩
    by_contra hknown
    rw [← hdest] at hknown
    have htells := handleNotifyInternal_tells self (fun _ h (_ : Sound env _ _ _) => h) trivial
      (routeTraffic_routing env clk self.setting _) rfl rfl notify trivial
    exact hleft (Pathfinder.slot_of_routing htells.run ht (isSome_iff_ne_none.mpr hknown))
  intro hunknown
  have hreleased : released clk self notify = some t := (Pathfinder.acceptNotify_released hunknown ht hdest).2
  have hresend : handleNotify env clk self notify = _ :=
    handleNotifyInternal_resend env (routeTraffic env clk) haccepts hreleased
  rw [hresend, slot_resend env hunknown ht hdest]
  simp

end Router

/-! ## Runs of the router task -/

namespace FullRouter
open Pathfinder (App Fate Spares slot)
variable {env : Env} {crypto : Crypto} {config : FullConfig} {now : Instant} {calls : List Call} {w : Watched}

def Accepts (s : Setting) (source : PublicKey) (p : Pathfinder) (e : Stamped) : Prop :=
  ∃ seq path coords, e.2 = .accept source seq path coords ∧
    (p.acceptNotify source (s.xKey source) seq path e.1.now).1 = true

/-- If a packet waits for the source of a notify that is accepted, there is no path to the source yet. -/
def Unknown (s : Setting) (p : Pathfinder) (e : Stamped) : Prop :=
  ∀ source, Accepts s source p e → ∀ t, p.slot (s.xKey source) = some t → t.dest = source →
    p.paths.lookup source = none

theorem slot_step {s : Setting} {p p' : Pathfinder} {e : Stamped} {t : TrafficPacket}
    (hstep : Lts.Guarded (StampedStep s) (Unknown s) p e p') (ht : p'.slot (s.xKey t.dest) = some t) :
    e.2 = .buffer t ∨ p.slot (s.xKey t.dest) = some t ∧ ¬ Accepts s t.dest p e := by
  obtain ⟨⟨-, rfl⟩, hunknown⟩ := hstep
  rcases slot_of_perform ht with hslot | ⟨hbuffer, -⟩
  · refine Or.inr ⟨hslot, fun haccepts => ?_⟩
    have hpath := hunknown t.dest haccepts t hslot rfl
    obtain ⟨seq, path, coords, he, -⟩ := haccepts
    rw [he, slot_perform] at ht
    simp [slotAfter, hslot, hpath, filter_some] at ht
  · exact Or.inl hbuffer

/-- **A waiting packet is released when the path becomes known, exactly if there is none yet.** If this is so at every
accepted notify, none from the destination of a waiting packet has been accepted since the packet was buffered. -/
theorem released_iff_unknown (h : (Watched.new crypto config now).execAll env calls = some w) :
    (∀ clk notify t, Router.acceptsNotify env clk w.router.toRouter notify = true →
      w.router.pathfinder.slot (w.router.setting.xKey notify.source) = some t → t.dest = notify.source →
      (Router.handleNotify env clk w.router.toRouter notify =
            Router.resend clk (Router.routeTraffic env clk) w.router.toRouter notify t ∧
          (Router.handleNotify env clk w.router.toRouter notify).router.pathfinder.slot
            (w.router.setting.xKey notify.source) ≠ some t ↔
        w.router.pathfinder.paths.lookup notify.source = none)) ∧
    (Lts.Run (Lts.Guarded (StampedStep (settingOf crypto config)) (Unknown (settingOf crypto config)))
        (Pathfinder.new crypto) (w.acts env) w.router.pathfinder →
      ∀ x t, w.router.pathfinder.slot x = some t → ∃ pre clk post p, w.acts env = pre ++ (clk, .buffer t) :: post ∧
        Lts.Run (StampedStep (settingOf crypto config)) (Pathfinder.new crypto) (pre ++ [(clk, .buffer t)]) p ∧
        Lts.Run (Lts.Guarded (StampedStep (settingOf crypto config))
          fun p e => ¬ Accepts (settingOf crypto config) t.dest p e) p post w.router.pathfinder) := by
  refine ⟨fun clk notify t haccepts ht hdest => Router.handleNotify_releases_iff haccepts ht hdest, ?_⟩
  intro hrun x t ht
  obtain rfl := slotted_of_run (slotted_new _ crypto) (Watched.acted h).run x t ht
  obtain ⟨pre, e, post, p, hacts, hbuffer, hpre, hpost⟩ := hrun.since
    (J := fun p => p.slot ((settingOf crypto config).xKey t.dest) = some t) (by simp [slot, Pathfinder.new]) ht
    fun p e p' hstep hslot => slot_step hstep hslot
  obtain ⟨clk, a⟩ := e
  obtain rfl : a = .buffer t := hbuffer
  exact ⟨pre, clk, post, p, hacts, hpre.mono fun _ _ _ hstep => hstep.1,
    hpost.mono fun _ _ _ hstep => ⟨hstep.1.1, hstep.2⟩⟩

def firstPacket : TrafficPacket := TrafficPacket.new 9 5 [1]

def answerOf5 : PathNotify := { path := [], watermark := 0, source := 5, dest := 9, info := ⟨1, [3], 0⟩ }

def lonelyNode : Watched := Watched.new ⟨9, fun _ => 0⟩ ⟨⟨0, 0, none⟩, 0, 0⟩ 0

def lonelySetting : Setting := settingOf ⟨9, fun _ => 0⟩ ⟨⟨0, 0, none⟩, 0, 0⟩

def slotView (w : Watched) : Bool × Option TrafficPacket × Option PathInfo × List Act :=
  (Router.acceptsNotify signingEnv ⟨0, 0⟩ w.router.toRouter answerOf5, w.router.pathfinder.slot 5,
    w.router.pathfinder.paths.lookup 5, (w.acts signingEnv).map Prod.snd)

theorem released_iff_unknown_first : ∃ w, lonelyNode.execAll signingEnv [quietCall (.path (.sendTraffic firstPacket))] =
      some w ∧ w.router.pathfinder.slot 5 = some firstPacket ∧
    (Router.handleNotify signingEnv ⟨0, 0⟩ w.router.toRouter answerOf5).router.pathfinder.slot 5 ≠ some firstPacket ∧
    ∃ pre clk post, w.acts signingEnv = pre ++ (clk, .buffer firstPacket) :: post := by
  have hview : (lonelyNode.execAll signingEnv [quietCall (.path (.sendTraffic firstPacket))]).map slotView =
      some (true, some firstPacket, none, [.buffer firstPacket, .search .send 5 true]) := by decide +kernel
  obtain ⟨w, hw, heq⟩ := map_eq_some_iff.mp hview
  obtain ⟨haccepts, hslot, hpath, hacts⟩ : _ ∧ _ ∧ _ ∧ _ := by simpa [slotView] using heq
  have hguarded : Lts.Run (Lts.Guarded (StampedStep lonelySetting) (Unknown lonelySetting)) _ _ _ :=
    (Watched.acted hw).run.guarded <| by
      rintro p e he source ⟨seq, path, coords, hact, -⟩
      have hmem := List.mem_map_of_mem (f := Prod.snd) he
      rw [hact, hacts] at hmem
      simp at hmem
  obtain ⟨hstep, hrun⟩ := released_iff_unknown hw
  simp only [(Watched.acted hw).setting] at hstep
  refine ⟨w, hw, hslot, ((hstep _ answerOf5 firstPacket haccepts hslot rfl).mpr hpath).2, ?_⟩
  obtain ⟨pre, clk, post, p, hsplit, -⟩ := hrun hguarded 5 firstPacket hslot
  exact ⟨pre, clk, post, hsplit⟩

def brokenCalls : List Call :=
  [.handleTraffic { TrafficPacket.new 5 9 [1] with fromPath := [2] }, .handleBroken ⟨[], u64Max, 9, 5⟩,
    .sendTraffic firstPacket].map fun m => quietCall (.path m)

def wedged (w : Watched) : Bool :=
  let after := Router.handleNotify signingEnv ⟨0, 0⟩ w.router.toRouter answerOf5
  Router.acceptsNotify signingEnv
    ⟨0, 0⟩ w.router.toRouter answerOf5 && w.router.pathfinder.slot 5 == some firstPacket &&
    after.router.pathfinder.slot 5 == some firstPacket && after.router.pathfinder.getPath 5 == some [3] &&
    after.actions == [.pathNotifyCallback 5] && after.router.pathfinder.rumorsNeedingRetry.isEmpty

/-- **A packet is left in its rumor next to a live path**, which was broken when the packet was buffered: the notify
that repairs it does not release the packet, and maintenance looks for no path. -/
theorem rumor_wedged : ∃ w, lonelyNode.execAll signingEnv brokenCalls = some w ∧
    Router.acceptsNotify signingEnv ⟨0, 0⟩ w.router.toRouter answerOf5 = true ∧
    w.router.pathfinder.slot 5 = some firstPacket ∧ firstPacket.dest = answerOf5.source ∧
    (Router.handleNotify signingEnv ⟨0, 0⟩ w.router.toRouter answerOf5).router.pathfinder.slot 5 = some firstPacket ∧
    (Router.handleNotify signingEnv ⟨0, 0⟩ w.router.toRouter answerOf5).router.pathfinder.getPath 5 = some [3] ∧
    (Router.handleNotify signingEnv ⟨0, 0⟩ w.router.toRouter answerOf5).actions = [.pathNotifyCallback 5] ∧
    (Router.handleNotify signingEnv ⟨0, 0⟩ w.router.toRouter answerOf5).router.pathfinder.rumorsNeedingRetry = [] := by
  have hview : (lonelyNode.execAll signingEnv brokenCalls).map wedged = some true := by decide +kernel
  obtain ⟨w, hw, heq⟩ := map_eq_some_iff.mp hview
  simp only [wedged, Bool.and_eq_true, beq_iff_eq, List.isEmpty_iff] at heq
  obtain ⟨⟨⟨⟨⟨haccepts, hslot⟩, hafter⟩, hpath⟩, hactions⟩, hretry⟩ := heq
  exact ⟨w, hw, haccepts, hslot, rfl, hafter, hpath, hactions, hretry⟩

/-- **Waiting packets of the application**: at every act each stays, goes to the notify handler to be routed, gives way
to a newer one or expires with its rumor, exactly if no packet that only starts a lookup takes its place. -/
theorem waiting_app_iff (h : (Watched.new crypto config now).execAll env calls = some w) {pre post : List Stamped}
    {clk : Clock} {a : Act} (hacts : w.acts env = pre ++ (clk, a) :: post) :
    (∃ p, Lts.Run (StampedStep (settingOf crypto config)) (Pathfinder.new crypto) pre p ∧
      Lts.Run (StampedStep (settingOf crypto config)) (perform (settingOf crypto config) clk p a) post
        w.router.pathfinder ∧
      ((∀ x t, App t → p.slot x = some t → Fate (settingOf crypto config) clk p x t a) ↔
        Spares (settingOf crypto config) p a)) ∧
    ∀ clk route r notify t, Router.acceptsNotify env clk r notify = true → Router.released clk r notify = some t →
      Router.handleNotifyInternal env clk route r notify = Router.resend clk route r notify t := by
  have hrun := (Watched.acted h).run
  rw [hacts] at hrun
  obtain ⟨p, p', hpre, ⟨-, rfl⟩, hpost⟩ := hrun.exists_step
  exact ⟨⟨p, hpre, hpost, Pathfinder.fate_iff_spares _ clk p a⟩,
    fun clk route r notify t haccepts ht => Router.handleNotifyInternal_resend env route haccepts ht⟩

def lookupCalls : List Call := [.sendTraffic firstPacket, .sendLookup 5].map fun m => quietCall (.path m)

def lookupPre : List Stamped :=
  [.buffer firstPacket, .search .send 5 true, .ensureRumor 5].map fun a => (⟨0, 0⟩, a)

theorem lookup_acts : ∃ w post, lonelyNode.execAll signingEnv lookupCalls = some w ∧
    w.acts signingEnv = lookupPre ++ (⟨0, 0⟩, .buffer (TrafficPacket.new 9 5 [])) :: post := by
  have hview : (lonelyNode.execAll signingEnv lookupCalls).map (fun w => w.acts signingEnv) =
      some (lookupPre ++ (⟨0, 0⟩, .buffer (TrafficPacket.new 9 5 [])) :: [(⟨0, 0⟩, .search .send 5 true)]) := by
    decide +kernel
  obtain ⟨w, hw, heq⟩ := map_eq_some_iff.mp hview
  exact ⟨w, _, hw, heq⟩

/-- **A lookup displaces a waiting packet**: the packet of `SendLookup` is put into the slot in its place. -/
theorem app_displaced : ∃ w pre post clk a p, lonelyNode.execAll signingEnv lookupCalls = some w ∧
    w.acts signingEnv = pre ++ (clk, a) :: post ∧
    Lts.Run (StampedStep lonelySetting) (Pathfinder.new ⟨9, fun _ => 0⟩) pre p ∧
    App firstPacket ∧ p.slot 5 = some firstPacket ∧ ¬ Fate lonelySetting clk p 5 firstPacket a := by
  obtain ⟨w, post, hw, hacts⟩ := lookup_acts
  have hrun := (Watched.acted hw).run
  rw [hacts] at hrun
  obtain ⟨p, -, hpre, -⟩ := hrun.exists_step
  have hslot : p.slot 5 = some firstPacket := by
    rw [run_eq_foldl hpre]
    decide +kernel
  refine ⟨w, _, post, _, _, p, hw, hacts, hpre, by decide, hslot, fun hfate => ?_⟩
  have hkeepalive := (Pathfinder.fate_buffer (by decide) hslot).mp hfate rfl rfl
  cases hkeepalive

def newerPacket : TrafficPacket := TrafficPacket.new 9 5 [2]

def newerCalls : List Call := [.sendTraffic firstPacket, .sendTraffic newerPacket].map fun m => quietCall (.path m)

/-- The second packet of the application takes the place of the first one, which still waits. -/
theorem waiting_app_iff_newer : ∃ w pre post p, lonelyNode.execAll signingEnv newerCalls = some w ∧
    w.acts signingEnv = pre ++ (⟨0, 0⟩, .buffer newerPacket) :: post ∧
    Lts.Run (StampedStep lonelySetting) (Pathfinder.new ⟨9, fun _ => 0⟩) pre p ∧ App firstPacket ∧
    p.slot 5 = some firstPacket ∧ Fate lonelySetting ⟨0, 0⟩ p 5 firstPacket (.buffer newerPacket) := by
  have hview : (lonelyNode.execAll signingEnv newerCalls).map (fun w => w.acts signingEnv) =
      some ([(⟨0, 0⟩, .buffer firstPacket), (⟨0, 0⟩, .search .send 5 true)] ++
        (⟨0, 0⟩, .buffer newerPacket) :: [(⟨0, 0⟩, .search .send 5 true)]) := by
    decide +kernel
  obtain ⟨w, hw, hacts⟩ := map_eq_some_iff.mp hview
  obtain ⟨⟨p, hpre, -, hiff⟩, -⟩ := waiting_app_iff hw hacts
  have hslot : p.slot 5 = some firstPacket := by
    rw [run_eq_foldl hpre]
    decide +kernel
  refine ⟨w, _, _, p, hw, hacts, hpre, by decide, hslot, hiff.mpr ?_ 5 firstPacket (by decide) hslot⟩
  rintro tr heq hempty
  cases heq
  cases hempty

end FullRouter

end Yggdrasil
