import Mathlib.Logic.Function.Basic
import Yggdrasil.Peer.Timeout

/-!
# The liveness state of a peer over its connections

The connections of a peer share the entry of the registry: the average answer time, the penalty and the floor. Each has
its own epoch and deadline. The arithmetic is on 64-bit words.
-/

namespace Yggdrasil
open Nat PeerTimeoutCtrl UInt64

namespace Duration

def millis (d : Duration) : Nat := d / 1000000

theorem millis_le {d d' : Duration} (h : d ≤ d') : d.millis ≤ d'.millis := Nat.div_le_div_right h

theorem millis_lt {d : Duration} {n : Nat} (h : d < fromMillis n) : d.millis < n :=
    Nat.div_lt_of_lt_mul (by rwa [Nat.mul_comm])

theorem fromMillis_millis_le (d : Duration) : fromMillis d.millis ≤ d := Nat.div_mul_le_self d 1000000

theorem toNat_asMillis {d : Duration} (h : d < fromMillis (2 ^ 50)) : (asMillis d).toNat = d.millis := by
  apply toNat_ofNat_of_lt'
  exact lt_trans (millis_lt h) (by decide)

end Duration

namespace PeerLiveness
open AdaptiveTimeoutConfig (clamp)
variable (a b : UInt64)

theorem toNat_min : (min a b).toNat = min a.toNat b.toNat := by
  show (if a ≤ b then a else b).toNat = _
  split <;> simp_all only [le_iff_toNat_le] <;> omega

theorem toNat_max : (max a b).toNat = max a.toNat b.toNat := by
  show (if a ≤ b then b else a).toNat = _
  split <;> simp_all only [le_iff_toNat_le] <;> omega

theorem toNat_saturatingMul : (saturatingMul a b).toNat = min (a.toNat * b.toNat) u64Max.toNat := by
  have hmax : u64Max.toNat = UInt64.size - 1 := rfl
  rw [saturatingMul]
  split
  next h =>
    rw [UInt64.toNat_mul, mod_eq_of_lt h]
    omega
  next h => omega

theorem toNat_saturatingAdd :
    (AdaptiveTimeoutConfig.saturatingAdd a b).toNat = min (a.toNat + b.toNat) u64Max.toNat := by
  have hmax : u64Max.toNat = UInt64.size - 1 := rfl
  rw [AdaptiveTimeoutConfig.saturatingAdd]
  split
  next h =>
    rw [UInt64.toNat_add, mod_eq_of_lt h]
    omega
  next h => omega

theorem toNat_clamp {a low high : UInt64} (h : low.toNat ≤ high.toNat) :
    (clamp a low high).toNat = max low.toNat (min a.toNat high.toNat) := by
  simp only [clamp, GT.gt, lt_iff_toNat_lt]
  split
  · omega
  · split <;> omega

variable {cfg : AdaptiveTimeoutConfig}

def floorOf (cfg : AdaptiveTimeoutConfig) (floorMs : UInt64) : Nat :=
  min (max floorMs.toNat cfg.min.asMillis.toNat) cfg.max.asMillis.toNat

def fromRttOf (cfg : AdaptiveTimeoutConfig) (ewmaMs floorMs : UInt64) : Nat :=
  if ewmaMs = 0 then floorOf cfg floorMs
  else min (cfg.base.asMillis.toNat + min (cfg.rttMult.toNat * ewmaMs.toNat) u64Max.toNat) u64Max.toNat

/-- The interval in natural numbers. -/
theorem compute_eq (h : cfg.adaptive = true) (ewmaMs penaltyMs floorMs : UInt64) :
    cfg.compute ewmaMs penaltyMs floorMs = Duration.fromMillis (max (floorOf cfg floorMs)
      (min (min (fromRttOf cfg ewmaMs floorMs + penaltyMs.toNat) u64Max.toNat) cfg.max.asMillis.toNat)) := by
  have hfloor : (min (max floorMs cfg.min.asMillis) cfg.max.asMillis).toNat = floorOf cfg floorMs := by
    rw [toNat_min, toNat_max, floorOf]
  have hle : floorOf cfg floorMs ≤ cfg.max.asMillis.toNat := Nat.min_le_right _ _
  simp only [AdaptiveTimeoutConfig.compute, h]
  rw [if_neg (by simp), toNat_clamp (hfloor ▸ hle), toNat_saturatingAdd, hfloor, fromRttOf]
  split
  · rw [hfloor]
  · rw [toNat_saturatingAdd, toNat_saturatingMul, UInt32.toNat_toUInt64]

theorem compute_mono (h : cfg.adaptive = true) {e p f e' p' f' : UInt64} (he : e ≤ e') (hp : p ≤ p') (hf : f ≤ f')
    (hcold : e = 0 → e' = 0 ∨ p = 0) : cfg.compute e p f ≤ cfg.compute e' p' f' := by
  rw [compute_eq h, compute_eq h]
  rw [le_iff_toNat_le] at he hp hf
  apply Nat.mul_le_mul_right
  have hfloor : floorOf cfg f ≤ floorOf cfg f' := by
    simp only [floorOf]
    omega
  have hmult := mul_le_mul_left cfg.rttMult.toNat he
  rw [fromRttOf, fromRttOf]
  by_cases hz : e = 0
  · obtain hz' | hz' := hcold hz
    · rw [if_pos hz, if_pos hz']
      omega
    rw [if_pos hz, hz', UInt64.toNat_zero]
    omega
  have hz' : e' ≠ 0 := by
    intro h0
    apply hz
    rw [h0] at he
    exact UInt64.toNat_inj.mp (le_zero.mp he)
  rw [if_neg hz, if_neg hz']
  omega

theorem validate_ok {debug : Duration → String} (h : cfg.validate debug = .ok ()) :
    cfg.min ≤ cfg.max ∧ (cfg.adaptive = true → cfg.min ≤ cfg.problemMin ∧ cfg.problemMin ≤ cfg.max) := by
  simp only [AdaptiveTimeoutConfig.validate] at h
  split at h
  · simp at h
  split at h
  · simp at h
  split at h
  · simp at h
  split at h
  · simp at h
  next hmin hproblem hlow =>
    refine ⟨not_lt.mp hmin, fun had => ?_⟩
    simp only [had, Bool.true_and, decide_eq_true_eq, not_lt] at hproblem hlow
    exact ⟨hlow, hproblem⟩

end PeerLiveness

def DurableLiveness.new (floorMs : UInt64) : DurableLiveness := { ewmaMs := 0, penaltyMs := 0, floorMs }

/-- The entry that `ctrl_for` shares among the connections of a peer, and for each its epoch and deadline. -/
structure PeerLiveness where
  durable : DurableLiveness
  conns : Nat → Option ArmEpoch × Option Instant

inductive LivenessEvent where
  | connect (conn : Nat)
  | arm (conn : Nat) (now : Instant)
  | clearOnReply (conn : Nat) (now : Instant)
  | onTimeout (conn : Nat)

namespace PeerLiveness

section Run
variable (cfg : AdaptiveTimeoutConfig)

def start : PeerLiveness := { durable := DurableLiveness.new cfg.min.asMillis, conns := fun _ => (none, none) }

def ctrl (peer : PeerLiveness) (conn : Nat) : PeerTimeoutCtrl :=
    { durable := peer.durable, epoch := (peer.conns conn).1 }

def put (peer : PeerLiveness) (conn : Nat) (r : PeerTimeoutCtrl × Option Instant) : PeerLiveness :=
  { durable := r.1.durable, conns := Function.update peer.conns conn (r.1.epoch, r.2) }

def exec (peer : PeerLiveness) : LivenessEvent → PeerLiveness
  | .connect conn => { peer with conns := Function.update peer.conns conn (none, none) }
  | .arm conn now => peer.put conn ((peer.ctrl conn).arm cfg (peer.conns conn).2 now)
  | .clearOnReply conn now => peer.put conn ((peer.ctrl conn).clearOnReply cfg now)
  | .onTimeout conn => peer.put conn ((peer.ctrl conn).onTimeout cfg, (peer.conns conn).2)

def run (events : List LivenessEvent) : PeerLiveness := events.foldl (exec cfg) (start cfg)

end Run

variable {cfg : AdaptiveTimeoutConfig} {debug : Duration → String} {s : PeerLiveness} {d : DurableLiveness}

structure Within (cfg : AdaptiveTimeoutConfig) (d : DurableLiveness) : Prop where
  floor : d.floorMs.toNat = cfg.min.millis ∨ cfg.adaptive = true ∧ d.floorMs.toNat = cfg.problemMin.millis
  ewma : d.ewmaMs.toNat ≤ cfg.max.millis
  penalty : d.penaltyMs.toNat ≤ cfg.max.millis

theorem Within.average (h : Within cfg d) (hmax : cfg.max < Duration.fromMillis (2 ^ 50)) (sample : Duration) :
    d.ewmaMs.toNat * 7 + min sample.millis cfg.max.millis < 2 ^ 64 := by
  have hewma := h.ewma
  have hlt := Duration.millis_lt hmax
  omega

theorem observeSample_cases (cfg : AdaptiveTimeoutConfig) (d : DurableLiveness) (sample : Duration) :
    observeSample cfg d sample = d ∨
    ∃ m, m = UInt64.ofNat (min sample.millis cfg.max.millis) ∧ observeSample cfg d sample = { d with
        ewmaMs := if d.ewmaMs = 0 then m else (d.ewmaMs * 7 + m) / 8
        penaltyMs := saturatingSub d.penaltyMs cfg.penaltyDecay.asMillis } := by
  rw [observeSample]
  by_cases had : (!cfg.adaptive) = true
  · exact .inl (if_pos had)
  rw [if_neg had]
  by_cases hm : ofNat (min sample.millis cfg.max.millis) = 0
  · exact .inl (if_pos hm)
  · exact .inr ⟨_, rfl, if_neg hm⟩

theorem Within.observeSample (h : Within cfg d) (hmax : cfg.max < Duration.fromMillis (2 ^ 50)) (sample : Duration) :
    Within cfg (observeSample cfg d sample) ∧ (observeSample cfg d sample).floorMs = d.floorMs := by
  obtain heq | ⟨m, rfl, heq⟩ := observeSample_cases cfg d sample <;> rw [heq]
  · exact ⟨h, rfl⟩
  have hsum := h.average hmax sample
  have hewma := h.ewma
  have hpenalty := h.penalty
  have hsample : (ofNat (min sample.millis cfg.max.millis)).toNat = min sample.millis cfg.max.millis := by
    apply toNat_ofNat_of_lt'
    show _ < 18446744073709551616
    omega
  refine ⟨⟨h.floor, ?_, ?_⟩, rfl⟩
  · dsimp only
    split
    · omega
    have hmul : (d.ewmaMs * 7).toNat = d.ewmaMs.toNat * 7 := by
      rw [UInt64.toNat_mul]
      apply mod_eq_of_lt
      show d.ewmaMs.toNat * 7 < _
      omega
    rw [UInt64.toNat_div, UInt64.toNat_add, hmul, hsample, mod_eq_of_lt hsum]
    show _ / 8 ≤ _
    omega
  rw [toNat_saturatingSub]
  omega

theorem Within.onTimeout (hvalid : cfg.validate debug = .ok ()) (hmax : cfg.max < Duration.fromMillis (2 ^ 50))
    {c : PeerTimeoutCtrl} (h : Within cfg c.durable) :
    Within cfg (c.onTimeout cfg).durable ∧ c.durable.floorMs ≤ (c.onTimeout cfg).durable.floorMs := by
  rw [PeerTimeoutCtrl.onTimeout]
  split
  next had =>
    obtain ⟨hmin, hproblem⟩ := (validate_ok hvalid).2 had
    have hms := Duration.millis_le hmin
    have hfloor : (max c.durable.floorMs cfg.problemMin.asMillis).toNat =
        max c.durable.floorMs.toNat cfg.problemMin.millis := by
      rw [toNat_max, Duration.toNat_asMillis (lt_of_le_of_lt hproblem hmax)]
    refine ⟨⟨.inr ⟨had, hfloor.trans ?_⟩, h.ewma, ?_⟩, ?_⟩
    · obtain hold | ⟨-, hold⟩ := h.floor <;> omega
    · rw [toNat_min, Duration.toNat_asMillis hmax]
      exact Nat.min_le_right _ _
    rw [le_iff_toNat_le, hfloor]
    exact le_max_left _ _
  · exact ⟨h, UInt64.le_refl _⟩

theorem exec_durable (cfg : AdaptiveTimeoutConfig) (s : PeerLiveness) (e : LivenessEvent) :
    (s.exec cfg e).durable = s.durable ∨ (∃ sample, (s.exec cfg e).durable = observeSample cfg s.durable sample) ∨
    ∃ conn, (s.exec cfg e).durable = ((s.ctrl conn).onTimeout cfg).durable := by
  cases e with
  | connect => exact .inl rfl
  | arm conn now =>
    left
    simp only [exec, put, PeerTimeoutCtrl.arm]
    split <;> rfl
  | clearOnReply conn now =>
    simp only [exec, put, clearOnReply]
    split
    · exact .inr (.inl ⟨_, rfl⟩)
    · exact .inl rfl
  | onTimeout conn => exact .inr (.inr ⟨conn, rfl⟩)

section
variable (hvalid : cfg.validate debug = .ok ()) (hmax : cfg.max < Duration.fromMillis (2 ^ 50))
include hvalid hmax

theorem exec_within (h : Within cfg s.durable) (e : LivenessEvent) :
    Within cfg (s.exec cfg e).durable ∧ s.durable.floorMs ≤ (s.exec cfg e).durable.floorMs := by
  obtain heq | ⟨sample, heq⟩ | ⟨conn, heq⟩ := exec_durable cfg s e <;> rw [heq]
  · exact ⟨h, UInt64.le_refl _⟩
  · obtain ⟨hw, hfloor⟩ := h.observeSample hmax sample
    rw [hfloor]
    exact ⟨hw, UInt64.le_refl _⟩
  · exact Within.onTimeout hvalid hmax (c := s.ctrl conn) h

theorem foldl_within
    (events : List LivenessEvent) (h : Within cfg s.durable) : Within cfg (events.foldl (exec cfg) s).durable ∧
      s.durable.floorMs ≤ (events.foldl (exec cfg) s).durable.floorMs := by
  induction events generalizing s with
  | nil => exact ⟨h, UInt64.le_refl _⟩
  | cons e events ih =>
    obtain ⟨hw, hle⟩ := exec_within hvalid hmax h e
    obtain ⟨hw', hle'⟩ := ih hw
    exact ⟨hw', UInt64.le_trans hle hle'⟩

theorem start_within : Within cfg (start cfg).durable := by
  have hmin := (validate_ok hvalid).1
  exact ⟨.inl (Duration.toNat_asMillis (lt_of_le_of_lt hmin hmax)), zero_le _, zero_le _⟩

end

theorem foldl_fixed (hfixed : cfg.adaptive = false) (events : List LivenessEvent) :
    (events.foldl (exec cfg) s).durable = s.durable := by
  induction events generalizing s with
  | nil => rfl
  | cons e events ih =>
    rw [List.foldl_cons, ih]
    obtain heq | ⟨sample, heq⟩ | ⟨conn, heq⟩ := exec_durable cfg s e <;> rw [heq]
    · simp [observeSample, hfixed]
    · simp [onTimeout, hfixed, ctrl]

theorem current_within (hvalid : cfg.validate debug = .ok ()) (hmax : cfg.max < Duration.fromMillis (2 ^ 50))
    (had : cfg.adaptive = true) (h : Within cfg s.durable) (conn : Nat) :
    Duration.fromMillis s.durable.floorMs.toNat ≤ (s.ctrl conn).current cfg ∧ (s.ctrl conn).current cfg ≤ cfg.max := by
  obtain ⟨hmin, hadaptive⟩ := validate_ok hvalid
  obtain ⟨hlow, hproblem⟩ := hadaptive had
  have hfloor : floorOf cfg s.durable.floorMs = s.durable.floorMs.toNat := by
    have h₁ := Duration.millis_le hlow
    have h₂ := Duration.millis_le hproblem
    rw [floorOf, Duration.toNat_asMillis hmax, Duration.toNat_asMillis (lt_of_le_of_lt hmin hmax)]
    obtain hf | ⟨-, hf⟩ := h.floor <;> omega
  have hle : floorOf cfg s.durable.floorMs ≤ cfg.max.millis := by
    rw [floorOf, Duration.toNat_asMillis hmax]
    exact Nat.min_le_right _ _
  rw [PeerTimeoutCtrl.current, compute_eq had, Duration.toNat_asMillis hmax, ← hfloor]
  constructor
  · exact Nat.mul_le_mul_right _ (le_max_left _ _)
  refine Nat.le_trans (Nat.mul_le_mul_right _ ?_) (Duration.fromMillis_millis_le cfg.max)
  exact Nat.max_le.mpr ⟨hle, Nat.min_le_right _ _⟩

def INSTANT_MAX : Instant := 2 ^ 63 * 1000000000 - 1

structure Bounded (cfg : AdaptiveTimeoutConfig) (s t : PeerLiveness) : Prop where
  floor_le : s.durable.floorMs ≤ t.durable.floorMs
  within : Within cfg t.durable
  average : ∀ sample : Duration, t.durable.ewmaMs.toNat * 7 + min sample.millis cfg.max.millis < 2 ^ 64
  deadline : ∀ conn now, (cfg.adaptive = false → cfg.fixedOrInitial < Duration.fromMillis (2 ^ 50)) →
    now + Duration.fromMillis (2 ^ 50) ≤ INSTANT_MAX → now + (t.ctrl conn).current cfg ≤ INSTANT_MAX
  interval : cfg.adaptive = true → ∀ conn, Duration.fromMillis t.durable.floorMs.toNat ≤ (t.ctrl conn).current cfg ∧
    (t.ctrl conn).current cfg ≤ cfg.max
  monotone : cfg.adaptive = true → ∀ e p f e' p' f', e ≤ e' → p ≤ p' → f ≤ f' → (e = 0 → e' = 0 ∨ p = 0) →
    cfg.compute e p f ≤ cfg.compute e' p' f'
  fixed : cfg.adaptive = false → t.durable = s.durable ∧ ∀ conn, (t.ctrl conn).current cfg = cfg.fixedOrInitial

/-- The bounds of the interval hold in every run of the connections of a peer. -/
theorem liveness_bounded {cfg : AdaptiveTimeoutConfig} {debug : Duration → String}
    (hvalid : cfg.validate debug = .ok ())
    (hmax : cfg.max < Duration.fromMillis (2 ^ 50)) (before after : List LivenessEvent) :
    Bounded cfg (run cfg before) (run cfg (before ++ after)) := by
  obtain ⟨hs, -⟩ := foldl_within hvalid hmax before (start_within hvalid hmax)
  obtain ⟨ht, hfloor⟩ := foldl_within hvalid hmax after hs
  rw [run, run, List.foldl_append]
  have hinterval := fun had => current_within hvalid hmax had ht
  refine ⟨hfloor, ht, ht.average hmax, ?_, hinterval, ?_, ?_⟩
  · intro conn now hfixed hnow
    refine Nat.le_trans (Nat.add_le_add_left ?_ now) hnow
    cases had : cfg.adaptive with
    | true => exact Nat.le_trans (hinterval had conn).2 (le_of_lt hmax)
    | false =>
      rw [current_fixed had]
      exact le_of_lt (hfixed had)
  · intro had e p f e' p' f' he hp hf hcold
    exact compute_mono had he hp hf hcold
  intro hfixed
  exact ⟨foldl_fixed hfixed after, fun conn => current_fixed hfixed _⟩

def adaptiveDefault : AdaptiveTimeoutConfig := { AdaptiveTimeoutConfig.default with adaptive := true }

theorem liveness_bounded_default : Bounded adaptiveDefault (run adaptiveDefault [.connect 0, .onTimeout 0])
    (run adaptiveDefault [.connect 0, .onTimeout 0, .connect 1, .arm 1 0, .clearOnReply 1 100000000]) := by
  have hvalid : adaptiveDefault.validate (fun _ => "") = .ok () := rfl
  exact liveness_bounded hvalid (by decide) [.connect 0, .onTimeout 0] [.connect 1, .arm 1 0, .clearOnReply 1 100000000]

/-- After a timeout without samples the interval is 20 s; with one of 100 ms it is 15 s. In fixed mode a deadline can
lie beyond the last `Instant`. -/
theorem short_sample_lowers_interval :
    (run adaptiveDefault [.connect 0, .onTimeout 0]).durable = { ewmaMs := 0, penaltyMs := 5000, floorMs := 15000 } ∧
    adaptiveDefault.compute 0 5000 15000 = Duration.fromSecs 20 ∧
    adaptiveDefault.compute 100 5000 15000 = Duration.fromSecs 15 ∧
    (let cfg := { AdaptiveTimeoutConfig.default with fixedOrInitial := Duration.fromSecs (2 ^ 63) }
    cfg.validate (fun _ => "") = .ok () ∧ INSTANT_MAX < 0 + ((start cfg).ctrl 0).current cfg) := by
  decide

end PeerLiveness

end Yggdrasil
