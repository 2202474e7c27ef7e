import Yggdrasil.Router.Tree

/-!
# The liveness interval of a peer

`peer_timeout.rs`: how long a peer may be silent. The interval is fixed, or it follows the time between a frame and the
answer, with a floor that rises for good at a timeout.
-/

namespace Yggdrasil
open Duration

def Duration.asMillis (d : Duration) : UInt64 := UInt64.ofNat (d / 1000000)

structure AdaptiveTimeoutConfig where
  fixedOrInitial : Duration
  adaptive : Bool
  min : Duration
  problemMin : Duration
  max : Duration
  base : Duration
  rttMult : UInt32
  penaltyStep : Duration
  penaltyDecay : Duration

/-- Durable state shared across reconnects for one peer public key. -/
structure DurableLiveness where
  ewmaMs : UInt64
  penaltyMs : UInt64
  floorMs : UInt64
deriving DecidableEq

namespace AdaptiveTimeoutConfig

def saturatingAdd (a b : UInt64) : UInt64 := if a.toNat + b.toNat < UInt64.size then a + b else u64Max

def clamp (a low high : UInt64) : UInt64 := if a < low then low else if a > high then high else a

def default : AdaptiveTimeoutConfig :=
  { fixedOrInitial := fromSecs 15
    adaptive := false
    min := fromSecs 5
    problemMin := fromSecs 15
    max := fromSecs 30
    base := fromSecs 2
    rttMult := 8
    penaltyStep := fromSecs 5
    penaltyDecay := fromMillis 500 }

def compute (self : AdaptiveTimeoutConfig) (ewmaMs penaltyMs floorMs : UInt64) : Duration :=
  if !self.adaptive then self.fixedOrInitial
  else
    let floorMs := Min.min (Max.max floorMs (asMillis self.min)) (asMillis self.max)
    let maxMs := asMillis self.max
    let baseMs := asMillis self.base
    let mult := self.rttMult.toUInt64
    let fromRtt := if ewmaMs = 0 then floorMs else saturatingAdd baseMs (saturatingMul mult ewmaMs)
    let total := saturatingAdd fromRtt penaltyMs
    fromMillis (clamp total floorMs maxMs).toNat

def validate (debug : Duration → String) (self : AdaptiveTimeoutConfig) : Except String Unit :=
  if self.rttMult = 0 then .error "peer_timeout_rtt_mult must be >= 1"
  else if self.max < self.min then
    .error ("peer_timeout_max (" ++ debug self.max ++ ") < peer_timeout_min (" ++ debug self.min ++ ")")
  else if self.adaptive && self.max < self.problemMin then
    .error ("peer_timeout_max (" ++ debug self.max ++ ") < problem_min/peer_timeout_secs (" ++
      debug self.problemMin ++ ")")
  else if self.adaptive && self.problemMin < self.min then
    .error ("problem_min/peer_timeout_secs (" ++ debug self.problemMin ++ ") < peer_timeout_min (" ++
      debug self.min ++ ")")
  else if !self.adaptive && self.fixedOrInitial = 0 then .error "peer_timeout_secs must be > 0 in fixed mode"
  else if self.min = 0 then .error "peer_timeout_min must be > 0"
  else .ok ()

end AdaptiveTimeoutConfig

structure ArmEpoch where
  armed : Instant
  timeout : Duration
deriving DecidableEq

structure PeerTimeoutCtrl where
  durable : DurableLiveness
  epoch : Option ArmEpoch
deriving DecidableEq

namespace PeerTimeoutCtrl
variable (cfg : AdaptiveTimeoutConfig)
variable (self : PeerTimeoutCtrl)

def lastArmedTimeout : Option Duration := self.epoch.map ArmEpoch.timeout

def current : Duration :=
  cfg.compute self.durable.ewmaMs self.durable.penaltyMs self.durable.floorMs

theorem current_fixed {cfg : AdaptiveTimeoutConfig} (h : cfg.adaptive = false) (self : PeerTimeoutCtrl) :
    self.current cfg = cfg.fixedOrInitial := by
  rw [current, AdaptiveTimeoutConfig.compute, h]
  rfl

def arm (slot : Option Instant) (now : Instant) : PeerTimeoutCtrl × Option Instant :=
  match slot with
  | some existing => (self, some existing)
  | none =>
    let t := self.current cfg
    ({ self with epoch := some { armed := now, timeout := t } }, some (now + t))

def observeSample (self : DurableLiveness) (sample : Duration) : DurableLiveness :=
  if !cfg.adaptive then self
  else
    let sampleMs := UInt64.ofNat (Min.min (sample / 1000000) (cfg.max / 1000000))
    if sampleMs = 0 then self
    else
      { self with
        ewmaMs := if self.ewmaMs = 0 then sampleMs else (self.ewmaMs * 7 + sampleMs) / 8
        penaltyMs := saturatingSub self.penaltyMs (asMillis cfg.penaltyDecay) }

def clearOnReply (now : Instant) : PeerTimeoutCtrl × Option Instant :=
  match self.epoch with
  | some e => ({ durable := observeSample cfg self.durable (elapsed now e.armed), epoch := none }, none)
  | none => (self, none)

def onTimeout : PeerTimeoutCtrl :=
  if cfg.adaptive then
    { durable :=
        { self.durable with
          floorMs := Max.max self.durable.floorMs (asMillis cfg.problemMin)
          penaltyMs := Min.min (AdaptiveTimeoutConfig.saturatingAdd self.durable.penaltyMs (asMillis cfg.penaltyStep))
            (asMillis cfg.max) }
      epoch := none }
  else { self with epoch := none }

end PeerTimeoutCtrl

end Yggdrasil
