import Yggdrasil.Router.Advertising
import Yggdrasil.Router.Answers
import Yggdrasil.Router.RumorSlot

/-!
# How often a destination is looked up

A lookup writes its time, and before it the router compares the times with `path_throttle`, with three gaps:

* a broken path without an entry writes no time;
* a packet is not held back by the time of a retry, as a retry is by both;
* `cleanup_expired` drops entries that hold a time that counts.
-/

namespace Yggdrasil
open Option

namespace Pathfinder
variable {s : Setting} {clk : Clock} {p : Pathfinder} {a : Act} {dest : PublicKey} {t u : Nat}

/-- The times of the last lookups of a destination, kept with its path, or if there is none with its rumor. -/
def noted (s : Setting) (p : Pathfinder) (dest : PublicKey) : List Instant :=
  match p.paths.lookup dest with
  | some info => [info.reqTime]
  | none =>
    match p.rumors.lookup (s.xKey dest) with
    | some rumor => rumor.sendTime.toList ++ rumor.retryTime.toList
    | none => []

/-- The act is none of the three gaps. -/
structure Recorded (s : Setting) (clk : Clock) (p : Pathfinder) (a : Act) : Prop where
  broken : ∀ dest, a = .search .broken dest true → (p.paths.lookup dest).isSome
  send : ∀ dest, a = .search .send dest true → p.paths.lookup dest = none →
    p.shouldThrottleRumorRetry (s.xKey dest) s.throttle clk.now = false
  path : a = .cleanup → ∀ k info, p.paths.lookup k = some info → p.shouldThrottleLookup k s.throttle clk.now = true →
    elapsed clk.now info.lastRefresh < s.timeout
  rumor : a = .cleanup → ∀ x rumor, p.rumors.lookup x = some rumor →
    p.shouldThrottleRumorRetry x s.throttle clk.now = true →
    elapsed clk.now (rumor.sendTime.getD rumor.created) < s.timeout

theorem add_le_of_not_recent {now throttle : Nat} (h : recent now throttle (some u) = false) (htu : t ≤ u)
    (hnow : t ≤ now) : t + throttle ≤ now := by
  have hle : ¬ now - u < throttle := of_decide_eq_false h
  omega

theorem mem_noted_path {info : PathInfo} (h : p.paths.lookup dest = some info) :
    t ∈ noted s p dest ↔ t = info.reqTime := by
  rw [noted, h, List.mem_singleton]

theorem mem_noted_rumor (h : p.paths.lookup dest = none) : t ∈ noted s p dest ↔
      ∃ rumor, p.rumors.lookup (s.xKey dest) = some rumor ∧ (rumor.sendTime = some t ∨ rumor.retryTime = some t) := by
  rw [noted, h]
  cases hrumor : p.rumors.lookup (s.xKey dest) with
  | none => simp
  | some rumor => simp [List.mem_append, mem_toList]

theorem shouldThrottleLookup_eq {info : PathInfo} (h : p.paths.lookup dest = some info) (throttle : Duration)
    (now : Instant) : p.shouldThrottleLookup dest throttle now = recent now throttle (some info.reqTime) := by
  rw [shouldThrottleLookup, h, map_some]

theorem shouldThrottleRumorRetry_eq {rumor : PathRumor} {x : PublicKey} (h : p.rumors.lookup x = some rumor)
    (throttle : Duration) (now : Instant) : p.shouldThrottleRumorRetry x throttle now =
      (recent now throttle rumor.sendTime || recent now throttle rumor.retryTime) := by
  rw [shouldThrottleRumorRetry, h]

theorem recent_of_retry {rumor : PathRumor} {x : PublicKey} {now : Instant} {throttle : Duration}
    (h : p.shouldThrottleRumorRetry x throttle now = false) (hrumor : p.rumors.lookup x = some rumor)
    (ht : rumor.sendTime = some t ∨ rumor.retryTime = some t) : recent now throttle (some t) = false := by
  rw [shouldThrottleRumorRetry_eq hrumor, Bool.or_eq_false_iff] at h
  rcases ht with ht | ht
  · rw [← ht, h.1]
  · rw [← ht, h.2]

/-! ## One act -/

theorem pathAfter_reqTime {asked : Bool} {e : Option PathInfo} {info' : PathInfo}
    (h : pathAfter s clk asked dest e a = some info') :
    info'.reqTime = clk.now ∨ ∃ info, e = some info ∧ info'.reqTime = info.reqTime := by
  cases a with
  | search why dest sent =>
    simp only [pathAfter] at h
    split at h
    · obtain ⟨info, -, rfl⟩ := map_eq_some_iff.mp h
      exact .inl rfl
    · exact .inr ⟨info', h, rfl⟩
  | accept source seq path coords =>
    simp only [pathAfter] at h
    split at h
    · split at h
      next info =>
        refine .inr ⟨info, rfl, ?_⟩
        split at h
        · cases h
          rfl
        · split at h <;> (cases h; rfl)
      split at h
      · cases h
        exact .inl rfl
      · cases h
    · exact .inr ⟨info', h, rfl⟩
  | arrive source path =>
    simp only [pathAfter] at h
    split at h
    · split at h
      next info =>
        refine .inr ⟨info, rfl, ?_⟩
        cases h
        split <;> rfl
      cases h
      exact .inl rfl
    · exact .inr ⟨info', h, rfl⟩
  | markBroken dest | cacheTraffic tr =>
    simp only [pathAfter] at h
    split at h
    · obtain ⟨info, hinfo, rfl⟩ := map_eq_some_iff.mp h
      exact .inr ⟨info, hinfo, rfl⟩
    · exact .inr ⟨info', h, rfl⟩
  | cleanup => exact .inr ⟨info', eq_some_of_filter_eq_some h, rfl⟩
  | ensureRumor dest | buffer tr | forgetSent dest | answer coords => exact .inr ⟨info', h, rfl⟩

theorem rumorAfter_times (s : Setting) (clk : Clock) (known : PublicKey → Bool) (x : PublicKey) (rumor : PathRumor)
    (hcleanup : a ≠ .cleanup) (hforced : a.forced = false) :
    ∃ rumor', rumorAfter s clk known x (some rumor) a = some rumor' ∧
      (rumor'.sendTime = some clk.now ∨ rumor'.sendTime = rumor.sendTime) ∧
      (rumor'.retryTime = some clk.now ∨ rumor'.retryTime = rumor.retryTime) := by
  cases a with
  | search why dest sent =>
    simp only [rumorAfter]
    split
    · refine ⟨_, rfl, ?_⟩
      cases why with
      | send => exact ⟨.inl rfl, .inr rfl⟩
      | retry => exact ⟨.inr rfl, .inl rfl⟩
      | broken | force => exact ⟨.inr rfl, .inr rfl⟩
    · exact ⟨rumor, rfl, .inr rfl, .inr rfl⟩
  | accept source seq path coords =>
    simp only [rumorAfter]
    split
    · refine ⟨_, rfl, ?_⟩
      unfold takeFor
      split <;> exact ⟨.inr rfl, .inr rfl⟩
    · exact ⟨rumor, rfl, .inr rfl, .inr rfl⟩
  | ensureRumor dest | buffer tr =>
    simp only [rumorAfter]
    split <;> exact ⟨_, rfl, .inr rfl, .inr rfl⟩
  | answer coords | markBroken dest | arrive source path | cacheTraffic tr =>
    exact ⟨rumor, rfl, .inr rfl, .inr rfl⟩
  | forgetSent dest => cases hforced
  | cleanup => exact absurd rfl hcleanup

theorem noted_perform (hrecorded : Recorded s clk p a) (hforced : a.forced = false) (hu : u ∈ noted s p dest)
    (htu : t ≤ u) (hnow : t ≤ clk.now) :
    t + s.throttle ≤ clk.now ∨ ∃ u ∈ noted s (perform s clk p a) dest, t ≤ u := by
  cases hpath' : (perform s clk p a).paths.lookup dest with
  | some info' =>
    refine .inr ⟨info'.reqTime, (mem_noted_path hpath').mpr rfl, ?_⟩
    rw [perform_paths] at hpath'
    obtain hreq | ⟨info, hinfo, hreq⟩ := pathAfter_reqTime hpath'
    · rwa [hreq]
    · rwa [hreq, ← (mem_noted_path hinfo).mp hu]
  | none =>
    cases hpath : p.paths.lookup dest with
    | some info =>
      -- only `cleanup_expired` drops a path
      obtain rfl : a = .cleanup := by
        by_contra ha
        have hsome : ((perform s clk p a).paths.lookup dest).isSome := paths_isSome_perform ha (by rw [hpath]; rfl)
        rw [hpath'] at hsome
        cases hsome
      rw [perform_paths, hpath, pathAfter, filter_eq_none_iff] at hpath'
      refine .inl (add_le_of_not_recent ?_ htu hnow)
      rw [(mem_noted_path hpath).mp hu, ← shouldThrottleLookup_eq hpath, ← Bool.not_eq_true]
      exact fun hthrottled => hpath' info rfl (decide_eq_true (hrecorded.path rfl dest info hpath hthrottled))
    | none =>
      obtain ⟨rumor, hrumor, htime⟩ := (mem_noted_rumor hpath).mp hu
      by_cases ha : a = .cleanup
      · subst ha
        by_cases hlt : elapsed clk.now (rumor.sendTime.getD rumor.created) < s.timeout
        · refine .inr ⟨u, (mem_noted_rumor hpath').mpr ⟨rumor, ?_, htime⟩, htu⟩
          rw [perform_rumors, hrumor]
          rw [rumorAfter, filter_some, if_pos (decide_eq_true hlt)]
        refine .inl (add_le_of_not_recent (recent_of_retry ?_ hrumor htime) htu hnow)
        rw [← Bool.not_eq_true]
        exact fun hthrottled => hlt (hrecorded.rumor rfl _ rumor hrumor hthrottled)
      obtain ⟨rumor', hrumor', hsend, hretry⟩ :=
        rumorAfter_times s clk (fun k => (p.paths.lookup k).isSome) (s.xKey dest) rumor ha hforced
      rw [← hrumor, ← perform_rumors] at hrumor'
      have hmem : ∀ u, rumor'.sendTime = some u ∨ rumor'.retryTime = some u → u ∈ noted s (perform s clk p a) dest :=
        fun u hu => (mem_noted_rumor hpath').mpr ⟨rumor', hrumor', hu⟩
      rcases htime with htime | htime
      · rcases hsend with hsend | hsend
        · exact .inr ⟨clk.now, hmem _ (.inl hsend), hnow⟩
        · exact .inr ⟨u, hmem _ (.inl (hsend.trans htime)), htu⟩
      rcases hretry with hretry | hretry
      · exact .inr ⟨clk.now, hmem _ (.inr hretry), hnow⟩
      · exact .inr ⟨u, hmem _ (.inr (hretry.trans htime)), htu⟩

theorem noted_search {why : Trigger} (hrecorded : Recorded s clk p (.search why dest true))
    (hallowed : Allowed s clk p (.search why dest true)) (hforced : (Act.search why dest true).forced = false) :
    clk.now ∈ noted s (perform s clk p (.search why dest true)) dest := by
  cases hpath : p.paths.lookup dest with
  | some info =>
    have hpath' : (perform s clk p (.search why dest true)).paths.lookup dest =
        some { info with reqTime := clk.now } := by
      rw [perform_paths, hpath]
      simp [pathAfter]
    exact (mem_noted_path hpath').mpr rfl
  | none =>
    have hpath' : (perform s clk p (.search why dest true)).paths.lookup dest = none := by
      rw [perform_paths, hpath]
      simp [pathAfter]
    have hnote : ∀ rumor, p.rumors.lookup (s.xKey dest) = some rumor →
        (perform s clk p (.search why dest true)).rumors.lookup (s.xKey dest) = some (why.note clk.now rumor) := by
      intro rumor hrumor
      rw [perform_rumors, hrumor]
      simp [rumorAfter]
    cases why with
    | send =>
      obtain ⟨rumor, hrumor⟩ := isSome_iff_exists.mp hallowed.1.1
      exact (mem_noted_rumor hpath').mpr ⟨_, hnote rumor hrumor, .inl rfl⟩
    | retry =>
      obtain ⟨rumor, hrumor⟩ := isSome_iff_exists.mp hallowed.1.1
      exact (mem_noted_rumor hpath').mpr ⟨_, hnote rumor hrumor, .inr rfl⟩
    | broken =>
      have hsome := hrecorded.broken dest rfl
      rw [hpath] at hsome
      cases hsome
    | force => cases hforced

theorem not_recent {why : Trigger} (hrecorded : Recorded s clk p (.search why dest true))
    (hallowed : Allowed s clk p (.search why dest true)) (hforced : (Act.search why dest true).forced = false)
    (ht : t ∈ noted s p dest) : recent clk.now s.throttle (some t) = false := by
  cases hpath : p.paths.lookup dest with
  | some info =>
    rw [(mem_noted_path hpath).mp ht, ← shouldThrottleLookup_eq hpath]
    simpa using hallowed.2
  | none =>
    obtain ⟨rumor, hrumor, htime⟩ := (mem_noted_rumor hpath).mp ht
    cases why with
    | send => exact recent_of_retry (hrecorded.send dest rfl hpath) hrumor htime
    | retry => exact recent_of_retry hallowed.1.2 hrumor htime
    | broken =>
      have hsome := hrecorded.broken dest rfl
      rw [hpath] at hsome
      cases hsome
    | force => cases hforced

end Pathfinder

/-! ## Runs -/

namespace FullRouter
open Pathfinder

def Stamped.started (e : Stamped) : Option PublicKey :=
  match e.2 with
  | .search _ dest true => some dest
  | .search _ _ false | .ensureRumor _ | .buffer _ | .forgetSent _ | .answer _ | .accept _ _ _ _ | .markBroken _
  | .arrive _ _ | .cacheTraffic _ | .cleanup => none

/-- Two lookups of a destination are `throttle` apart. -/
def Spaced (throttle : Duration) (d e : Stamped) : Prop :=
  (Stamped.started d).isSome → Stamped.started d = Stamped.started e → d.1.now + throttle ≤ e.1.now
deriving Decidable

def Counts (s : Setting) (d : Stamped) (st : Pathfinder × Instant) : Prop :=
  d.1.now ≤ st.2 ∧ ∀ dest, Stamped.started d = some dest →
    d.1.now + s.throttle ≤ st.2 ∨ ∃ u ∈ noted s st.1 dest, d.1.now ≤ u

theorem started_eq_some {e : Stamped} {dest : PublicKey} (h : Stamped.started e = some dest) :
    ∃ why, e.2 = .search why dest true := by
  unfold Stamped.started at h
  split at h
  next why k heq => exact ⟨why, by rw [heq, some.inj h]⟩
  all_goals cases h

variable {s : Setting} {d e : Stamped} {st st' : Pathfinder × Instant}

theorem Counts.step (hstep : Lts.Timed (fun e : Stamped => e.1.now) (StampedStep s) st e st')
    (hrecorded : Recorded s e.1 st.1 e.2) (hforced : e.2.forced = false) (h : Counts s d st) :
    Counts s d st' ∧ Spaced s.throttle d e := by
  obtain ⟨⟨hallowed, hperform⟩, hle, htime⟩ := hstep
  have hnow : d.1.now ≤ e.1.now := le_trans h.1 hle
  constructor
  · refine ⟨by rwa [htime], fun dest hdest => ?_⟩
    rw [htime, hperform]
    obtain hold | ⟨u, hu, hdu⟩ := h.2 dest hdest
    · exact .inl (le_trans hold hle)
    · exact noted_perform hrecorded hforced hu hdu hnow
  intro hsome heq
  obtain ⟨dest, hdest⟩ := isSome_iff_exists.mp hsome
  obtain ⟨why, hwhy⟩ := started_eq_some (heq.symm.trans hdest)
  rw [hwhy] at hallowed hrecorded hforced
  obtain hold | ⟨u, hu, hdu⟩ := h.2 dest hdest
  · exact le_trans hold hle
  · exact add_le_of_not_recent (not_recent hrecorded hallowed hforced hu) hdu hnow

theorem counts_of_step (hstep : Lts.Timed (fun e : Stamped => e.1.now) (StampedStep s) st e st')
    (hrecorded : Recorded s e.1 st.1 e.2) (hforced : e.2.forced = false) : Counts s e st' := by
  obtain ⟨⟨hallowed, hperform⟩, -, htime⟩ := hstep
  refine ⟨htime.ge, fun dest hdest => .inr ⟨e.1.now, ?_, le_refl _⟩⟩
  obtain ⟨why, hwhy⟩ := started_eq_some hdest
  rw [hwhy] at hallowed hrecorded hforced hperform
  rw [hperform]
  exact noted_search hrecorded hallowed hforced

variable {env : Env} {crypto : Crypto} {config : FullConfig} {now : Instant} {calls : List Call} {w : Watched}

/-- **At most one lookup of a destination in `path_throttle`.** -/
theorem lookups_spaced (h : (Watched.new crypto config now).execAll env calls = some w)
    (hforce : ∀ call ∈ calls, ∀ dest, call.msg ≠ .path (.forceLookup dest))
    (hclock : calls.Pairwise fun c d => c.clk.now ≤ d.clk.now)
    (hrecorded : Lts.Admitted (performAt (settingOf crypto config))
      (fun p e => Recorded (settingOf crypto config) e.1 p e.2) (Pathfinder.new crypto) (w.acts env)) :
    (w.acts env).Pairwise (Spaced config.pathThrottle) ∧
      ∀ rec ∈ w.log, ∀ id l, .sendPathLookup id l ∈ rec.outcome.actions →
        (∃ peerKey, rec.call.msg = .path (.handleLookup peerKey l)) ∨
          ∃ e ∈ w.acts env, e.1 = rec.call.clk ∧ Stamped.started e = some l.dest := by
  have hacted := Watched.acted h
  constructor
  · have hunforced := Watched.unforced h hforce
    have hrun := hrecorded.guarded (fun _ _ _ hstep => hstep.2) hacted.run
    have hrun : Lts.Run (Lts.Guarded _ fun _ (e : Stamped) => e.2.forced = false) _ _ _ :=
      hrun.guarded fun _ e he => hunforced e he
    obtain ⟨t₁, htimed, -⟩ := hrun.timed (fun e _ => Nat.zero_le e.1.now)
      (Watched.acts_sorted Clock.now h hclock)
    refine htimed.pairwise (I := fun _ => True)
      (M := Counts (settingOf crypto config)) trivial fun st e st' _ hstep => ?_
    obtain ⟨⟨⟨hstep, hrecorded⟩, hforced⟩, htime⟩ := hstep
    exact ⟨trivial, counts_of_step ⟨hstep, htime⟩ hrecorded hforced,
      fun d hd => hd.step ⟨hstep, htime⟩ hrecorded hforced⟩
  intro rec hrec id l hl
  refine ((hacted.logged rec hrec).searched id l hl).imp_right ?_
  rintro ⟨why, hwhy⟩
  exact ⟨(rec.call.clk, .search why l.dest true), Watched.mem_acts.mpr ⟨rec, hrec, rfl, hwhy⟩, rfl, rfl⟩

/-! ## A retry and a packet -/

def callAt (now : Instant) (msg : Msg) : Call := ⟨⟨now, 0⟩, fun _ => 0, msg⟩

def hastyNode : Watched := Watched.new ⟨9, fun _ => 0⟩ ⟨⟨60, 10, none⟩, 1000, 1000⟩ 0

def lookupTimes (dest : PublicKey) (w : Watched) : List Instant :=
  (w.log.filter fun rec => rec.outcome.actions.any fun a => a.lookup?.any fun l => l.2.dest == dest).map
    fun rec => rec.call.clk.now

def hastyCalls : List Call :=
  [callAt 0 (.addPeer (twin 1)), callAt 0 twinChild, callAt 0 (.maintenance false),
    callAt 0 (.handleBloom 7 (BloomFilter.new.add signingEnv (keyBytes 5))),
    callAt 0 (.path (.sendTraffic firstPacket)), callAt 10 (.maintenance false),
    callAt 11 (.path (.sendTraffic firstPacket))]

theorem lookups_close : ∃ w, hastyNode.execAll signingEnv hastyCalls = some w ∧
    (∀ call ∈ hastyCalls, ∀ dest, call.msg ≠ .path (.forceLookup dest)) ∧
    (hastyCalls.Pairwise fun c d => c.clk.now ≤ d.clk.now) ∧
    ¬ (w.acts signingEnv).Pairwise (Spaced 10) ∧ lookupTimes 5 w = [0, 10, 11] := by
  have hview : (hastyNode.execAll signingEnv hastyCalls).map (fun w =>
      (decide ((w.acts signingEnv).Pairwise (Spaced 10)), lookupTimes 5 w)) = some (false, [0, 10, 11]) := by
    decide +kernel
  obtain ⟨w, hw, hread⟩ := map_eq_some_iff.mp hview
  obtain ⟨hclose, htimes⟩ := Prod.mk.inj hread
  exact ⟨w, hw, by simp [hastyCalls, callAt, twinChild], by simp [hastyCalls, callAt],
    of_decide_eq_false hclose, htimes⟩

def patientCalls : List Call := [0, 10].map fun now => callAt now (.path (.sendTraffic firstPacket))

theorem lookups_spaced_patient : ∃ w, hastyNode.execAll signingEnv patientCalls = some w ∧
    w.acts signingEnv = [(⟨0, 0⟩, .buffer firstPacket), (⟨0, 0⟩, .search .send 5 true), (⟨10, 0⟩, .buffer firstPacket),
      (⟨10, 0⟩, .search .send 5 true)] ∧ (w.acts signingEnv).Pairwise (Spaced 10) := by
  have hview : (hastyNode.execAll signingEnv patientCalls).map (fun w => w.acts signingEnv) =
      some [(⟨0, 0⟩, .buffer firstPacket), (⟨0, 0⟩, .search .send 5 true), (⟨10, 0⟩, .buffer firstPacket),
        (⟨10, 0⟩, .search .send 5 true)] := by
    decide +kernel
  obtain ⟨w, hw, hacts⟩ := map_eq_some_iff.mp hview
  have hbuffer : ∀ s clk p, Recorded s clk p (.buffer firstPacket) :=
    fun s clk p => ⟨by simp, by simp, by simp, by simp⟩
  refine ⟨w, hw, hacts, (lookups_spaced hw (by simp [patientCalls, callAt]) (by simp [patientCalls, callAt]) ?_).1⟩
  rw [hacts]
  refine ⟨hbuffer _ _ _, ⟨by simp, ?_, by simp, by simp⟩, hbuffer _ _ _, ⟨by simp, ?_, by simp, by simp⟩, trivial⟩
  · rintro dest heq -
    cases heq
    decide +kernel
  rintro dest heq -
  cases heq
  decide +kernel

end FullRouter

end Yggdrasil
