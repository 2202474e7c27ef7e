import Yggdrasil.Router.Selection

/-!
# The acts of the router task
-/

namespace Yggdrasil
open List Option Router
open Pathfinder (Act Setting Acted Doing perform Slotted)

namespace FullRouter
variable {env : Env} {r r' r'' : FullRouter} {call : Call} {o : Outcome}

def maintenanceActs (env : Env) (self : FullRouter) (clk : Clock) (rand : Nat → UInt64) : List Act :=
  match ((self.ready clk.now).fix rand clk.now).router.sendAnnounces with
  | none => []
  | some announced =>
    match announced.router.bloomsMaintenance env with
    | none => []
    | some bloomed => maintainActs env clk bloomed.router.toRouter

def execActs (env : Env) (self : FullRouter) (call : Call) : List Act :=
  match call.msg with
  | .path msg => handlePathActs env call.clk self.toRouter msg
  | .forceRefresh => (self.forceRefresh call.clk.now).maintenanceActs env call.clk call.rand
  | .maintenance wallJump =>
    let self := if wallJump then self.forceRefresh call.clk.now else self
    (self.expireInfos call.clk.now).maintenanceActs env call.clk call.rand
  | _ => []

structure SamePaths (r r' : FullRouter) : Prop where
  pathfinder : r'.pathfinder = r.pathfinder
  setting : r'.setting = r.setting

theorem SamePaths.refl (r : FullRouter) : SamePaths r r := ⟨rfl, rfl⟩

theorem SamePaths.trans (h : SamePaths r r') (h' : SamePaths r' r'') : SamePaths r r'' :=
  ⟨h'.pathfinder.trans h.pathfinder, h'.setting.trans h.setting⟩

theorem Fixed.samePaths (h : Fixed r o) : SamePaths r o.router := by
  refine ⟨h.pathfinder, ?_⟩
  cases h with
  | flag doRoot1 => rfl
  | restarted ho => rw [ho.frame]
  | announced now _ ho =>
    rw [ho.frame]
    rfl

variable (self : FullRouter)

theorem expireInfos_samePaths (now : Instant) : SamePaths self (self.expireInfos now) := by
  refine expireInfos_induct (P := SamePaths self) (SamePaths.refl self) (fun r k h => h.trans ?_) now
  unfold expire
  split <;> exact ⟨rfl, rfl⟩

theorem addPeer_samePaths {entry : PeerEntry} {n : UInt64} (h : r.addPeer entry n = some o) : SamePaths r o.router := by
  rw [(addPeer_added h).frame]
  unfold admitKey
  split <;> exact ⟨rfl, rfl⟩

theorem removePeer_samePaths (peerId : PeerId) (key : PublicKey) (port : PeerPort) :
    SamePaths self (self.removePeer peerId key port).router := by
  unfold removePeer
  dsimp only
  split
  · exact ⟨rfl, rfl⟩
  · split <;> exact ⟨rfl, rfl⟩

theorem handleAnnounce_samePaths (peerId : PeerId) (peerKey : PublicKey) (ann : RouterAnnounce)
    (now : Instant) : SamePaths self (self.handleAnnounce peerId peerKey ann now).router := by
  unfold handleAnnounce
  rcases self.update_cases ann now with hupdate | hupdate
  · simp only [hupdate, if_true]
    split <;> exact ⟨rfl, rfl⟩
  simp only [hupdate, Bool.false_eq_true, if_false]
  split <;> exact ⟨rfl, rfl⟩

structure Logged (env : Env) (r : FullRouter) (call : Call) (o : Outcome) : Prop where
  run : Lts.Run (Doing r.setting call.clk fun a => a.forced = true → ∃ dest, call.msg = .path (.forceLookup dest))
    r.pathfinder (r.execActs env call) o.router.pathfinder
  setting : o.router.setting = r.setting
  searched : ∀ id l, .sendPathLookup id l ∈ o.actions →
    (∃ peerKey, call.msg = .path (.handleLookup peerKey l)) ∨ Router.Searched l.dest (r.execActs env call)

theorem SamePaths.logged (h : SamePaths r o.router) (hacts : r.execActs env call = [])
    (hactions : ∀ id l, .sendPathLookup id l ∉ o.actions) : Logged env r call o where
  run := by
    rw [hacts, h.pathfinder]
    exact Lts.Run.nil _
  setting := h.setting
  searched id l hmem := absurd hmem (hactions id l)

theorem doMaintenance_logged {clk : Clock} {rand : Nat → UInt64} (hslotted : Slotted r.setting r.pathfinder)
    (hr : SamePaths r r') (ho : r'.doMaintenance env clk rand = some o) :
    Lts.Run (Doing r.setting clk fun a => a.forced = false) r.pathfinder (r'.maintenanceActs env clk rand)
      o.router.pathfinder ∧ o.router.setting = r.setting ∧
      ∀ id l, .sendPathLookup id l ∈ o.actions → Router.Searched l.dest (r'.maintenanceActs env clk rand) := by
  rw [doMaintenance_eq] at ho
  have hready : SamePaths r' (r'.ready clk.now) := by
    rw [ready_frame]
    exact ⟨rfl, rfl⟩
  have hfix := fix_fixed (r'.ready clk.now) rand clk.now
  unfold maintenanceActs
  generalize (r'.ready clk.now).fix rand clk.now = fixed at ho hfix ⊢
  obtain ⟨announced, hannounced, hsent⟩ := fixed.router.sendAnnounces_announces
  obtain ⟨bloomed, hbloomed, hframe, -, hblooms⟩ := announced.router.bloomsMaintenance_keeps env
  have hmid : SamePaths fixed.router bloomed.router := by
    rw [hframe, hsent.frame]
    exact ⟨rfl, rfl⟩
  have hsame := ((hr.trans hready).trans hfix.samePaths).trans hmid
  unfold afterFix at ho
  simp only [hannounced, hbloomed] at ho ⊢
  cases ho
  rw [← hsame.pathfinder, ← hsame.setting] at hslotted
  have htells := maintainPaths_tells env clk bloomed.router.toRouter hslotted
  rw [hsame.pathfinder, hsame.setting] at htells
  have hacts := maintainPaths_acts (m := .forceLookup 0) env clk bloomed.router.toRouter
  refine ⟨htells.run, ?_, fun id l hmem => ?_⟩
  · refine Eq.trans ?_ hsame.setting
    show Router.setting (maintainPaths env clk bloomed.router.toRouter).router = _
    rw [hacts.routed.frame]
    rfl
  simp only [mem_append] at hmem
  rcases hmem with ((hmem | hmem) | hmem) | hmem
  · obtain ⟨_, _, h⟩ := hfix.actions _ hmem
    cases h
  · obtain ⟨_, _, -, _, _, -, h⟩ := hsent.actions _ hmem
    cases h
  · obtain ⟨_, _, h⟩ := hblooms _ hmem
    cases h
  · exact (htells.searched id l hmem).resolve_left not_false

theorem exec_logged (hslotted : Slotted r.setting r.pathfinder) (h : r.exec env call = some o) :
    Logged env r call o := by
  obtain ⟨clk, rand, msg⟩ := call
  have hunforced {q : Prop} : ∀ a : Act, a.forced = false → a.forced = true → q := by simp +contextual
  cases msg with
  | addPeer entry =>
    refine (addPeer_samePaths h).logged rfl fun id l hmem => ?_
    rcases (addPeer_added h).actions _ hmem with hmem | ⟨_, h⟩ | ⟨_, h⟩
    · unfold resend at hmem
      split at hmem
      · obtain ⟨_, -, h⟩ := mem_map.mp hmem
        cases h
      · cases hmem
    · cases h
    · cases h
  | removePeer peerId key port =>
    cases h
    refine (r.removePeer_samePaths peerId key port).logged rfl fun id l hmem => ?_
    unfold removePeer at hmem
    dsimp only at hmem
    split at hmem
    · cases hmem
    split at hmem
    · cases hmem
    obtain ⟨_, -, hmem⟩ := mem_flatMap.mp hmem
    obtain ⟨_, -, h⟩ := mem_map.mp hmem
    cases h
  | handleRequest peerId peerKey req =>
    cases h
    refine (SamePaths.refl r).logged rfl fun id l hmem => ?_
    unfold handleRequest at hmem
    split at hmem
    · cases mem_singleton.mp hmem
    · cases hmem
  | handleResponse peerId key res rtt =>
    cases h
    refine SamePaths.logged ?_ rfl fun id l => not_mem_nil
    obtain ⟨lags, rtts, responded, heq | ⟨-, heq⟩⟩ := r.handleResponse_cases peerId key res rtt <;>
    · rw [heq]
      exact ⟨rfl, rfl⟩
  | handleAnnounce peerId peerKey ann =>
    cases h
    refine (r.handleAnnounce_samePaths peerId peerKey ann clk.now).logged rfl fun id l hmem => ?_
    unfold handleAnnounce at hmem
    rcases r.update_cases ann clk.now with hupdate | hupdate
    · simp only [hupdate, if_true] at hmem
      cases hmem
    simp only [hupdate, Bool.false_eq_true, if_false] at hmem
    split at hmem
    · cases hmem
    split at hmem
    · cases mem_singleton.mp hmem
    · cases hmem
  | handleBloom peerKey filter =>
    cases h
    exact SamePaths.logged ⟨rfl, rfl⟩ rfl fun id l => not_mem_nil
  | path msg =>
    cases h
    have hacts := handlePath_acts env clk r.toRouter msg
    have htells := handlePath_tells env clk r.toRouter (fun _ => True) trivial msg (by cases msg <;> trivial)
    refine ⟨Doing.mono htells.run fun a ha hforced => ?_, ?_, fun id l hmem => ?_⟩
    · exact (ha.1.2 hforced).imp fun dest heq => congrArg Msg.path heq
    · show Router.setting (handlePath env clk r.toRouter msg).router = _
      rw [hacts.routed.frame]
      rfl
    · exact (htells.searched id l hmem).imp_left fun ⟨peerKey, heq⟩ => ⟨peerKey, congrArg Msg.path heq⟩
  | forceRefresh =>
    have hforced : SamePaths r (r.forceRefresh clk.now) := ⟨rfl, rfl⟩
    obtain ⟨hrun, hsetting, hsearched⟩ := doMaintenance_logged hslotted hforced h
    exact ⟨Doing.mono hrun hunforced, hsetting, fun id l hmem => Or.inr (hsearched id l hmem)⟩
  | maintenance wallJump =>
    have hforced : SamePaths r (if wallJump then r.forceRefresh clk.now else r) := by
      split
      · exact ⟨rfl, rfl⟩
      · exact SamePaths.refl r
    obtain ⟨hrun, hsetting, hsearched⟩ :=
      doMaintenance_logged hslotted (hforced.trans (expireInfos_samePaths _ clk.now)) h
    exact ⟨Doing.mono hrun hunforced, hsetting, fun id l hmem => Or.inr (hsearched id l hmem)⟩

abbrev Stamped := Clock × Act

def StampedStep (s : Setting) (p : Pathfinder) (e : Stamped) (p' : Pathfinder) : Prop := Acted s e.1 p e.2 p'

def performAt (s : Setting) (p : Pathfinder) (e : Stamped) : Pathfinder := perform s e.1 p e.2

def Watched.acts (env : Env) (w : Watched) : List Stamped :=
  w.log.flatMap fun rec => (rec.before.execActs env rec.call).map fun a => (rec.call.clk, a)

theorem run_stamped {s : Setting} {clk : Clock} {P : Act → Prop} {p p' : Pathfinder} {acts : List Act}
    (h : Lts.Run (Doing s clk P) p acts p') : Lts.Run (StampedStep s) p (acts.map fun a => (clk, a)) p' := by
  induction h with
  | nil => exact Lts.Run.nil _
  | snoc _ he ih =>
    rw [map_append]
    exact ih.snoc he.1

theorem run_eq_foldl {s : Setting} {p p' : Pathfinder} {es : List Stamped} (h : Lts.Run (StampedStep s) p es p') :
    p' = es.foldl (performAt s) p := by
  induction h with
  | nil => rfl
  | snoc _ he ih =>
    rw [foldl_append, ← ih]
    exact he.2

def settingOf (crypto : Crypto) (config : FullConfig) : Setting := (new crypto config 0).setting

theorem slotted_of_run {s : Setting} {p p' : Pathfinder} {acts : List Stamped} (h : Slotted s p)
    (hrun : Lts.Run (StampedStep s) p acts p') : Slotted s p' := by
  refine hrun.invariant (I := Slotted s) h fun p e p' hp hstep => ?_
  rw [hstep.2]
  exact hp.perform e.1 e.2

theorem slotted_new (s : Setting) (crypto : Crypto) : Slotted s (Pathfinder.new crypto) := by
  intro x t ht
  cases ht

structure Watched.Acted (env : Env) (crypto : Crypto) (config : FullConfig) (w : Watched) : Prop where
  setting : w.router.setting = settingOf crypto config
  run : Lts.Run (StampedStep (settingOf crypto config)) (Pathfinder.new crypto) (w.acts env) w.router.pathfinder
  logged : ∀ rec ∈ w.log, Logged env rec.before rec.call rec.outcome

/-- The acts of a run lead to its pathfinder, and every lookup that is sent is forwarded or one of them. -/
theorem Watched.acted {crypto : Crypto} {config : FullConfig} {now : Instant} {calls : List Call} {w : Watched}
    (h : (Watched.new crypto config now).execAll env calls = some w) : w.Acted env crypto config := by
  refine (Lts.run_of_foldlM h).invariant (I := Watched.Acted env crypto config)
    ⟨rfl, Lts.Run.nil _, fun _ hmem => absurd hmem not_mem_nil⟩ fun w call w' hw hstep => ?_
  obtain ⟨o, ho, rfl⟩ := map_eq_some_iff.mp hstep
  have hslotted := slotted_of_run (slotted_new _ crypto) hw.run
  rw [← hw.setting] at hslotted
  have hlogged := exec_logged hslotted ho
  refine ⟨hlogged.setting.trans hw.setting, ?_, fun rec hmem => ?_⟩
  · simp only [Watched.acts, flatMap_append, flatMap_singleton]
    have hrun := hw.run
    rw [← hw.setting] at hrun ⊢
    exact hrun.append (run_stamped hlogged.run)
  rcases mem_append.mp hmem with hmem | hmem
  · exact hw.logged rec hmem
  rw [mem_singleton.mp hmem]
  exact hlogged

section Times
variable {crypto : Crypto} {config : FullConfig} {now : Instant} {calls : List Call} {w : Watched}

theorem Watched.mem_acts {e : Stamped} :
    e ∈ w.acts env ↔ ∃ rec ∈ w.log, e.1 = rec.call.clk ∧ e.2 ∈ rec.before.execActs env rec.call := by
  simp only [Watched.acts, List.mem_flatMap, List.mem_map]
  constructor
  · rintro ⟨rec, hrec, a, ha, rfl⟩
    exact ⟨rec, hrec, rfl, ha⟩
  rintro ⟨rec, hrec, hclk, ha⟩
  exact ⟨rec, hrec, e.2, ha, Prod.ext hclk.symm rfl⟩

theorem Watched.acts_sorted {τ : Type*} [Preorder τ] (time : Clock → τ)
    (h : (Watched.new crypto config now).execAll env calls = some w)
    (hcalls : calls.Pairwise fun c d => time c.clk ≤ time d.clk) :
    (w.acts env).Pairwise fun d e => time d.1 ≤ time e.1 := by
  rw [← show w.log.map Record.call = calls from Watched.execAll_log h, pairwise_map] at hcalls
  refine pairwise_flatMap.mpr ⟨fun rec _ => ?_, hcalls.imp fun hle => ?_⟩
  · exact List.pairwise_map.mpr (List.pairwise_of_forall fun _ _ => le_refl _)
  simp only [List.mem_map]
  rintro _ ⟨a, -, rfl⟩ _ ⟨b, -, rfl⟩
  exact hle

theorem Watched.unforced (h : (Watched.new crypto config now).execAll env calls = some w)
    (hforce : ∀ call ∈ calls, ∀ dest, call.msg ≠ .path (.forceLookup dest)) : ∀ e ∈ w.acts env, e.2.forced = false := by
  intro e he
  obtain ⟨rec, hrec, -, ha⟩ := Watched.mem_acts.mp he
  have hcall : rec.call ∈ calls := by
    rw [← show w.log.map Record.call = calls from Watched.execAll_log h]
    exact mem_map_of_mem hrec
  refine Bool.eq_false_of_not_eq_true fun hforced => ?_
  obtain ⟨dest, hmsg⟩ := ((Watched.acted h).logged rec hrec).run.forall_of_guarded e.2 ha hforced
  exact hforce _ hcall dest hmsg

end Times

end FullRouter

end Yggdrasil
