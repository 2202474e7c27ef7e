import Yggdrasil.Router.Types

/-!
# `Pathfinder`

The path discovery state machine of `pathfinder.rs`: known paths, pending lookups (rumors), and the packets cached in
either. `now` is the reading of `Instant::now()`.
-/

namespace Yggdrasil
open List Option HashMap

structure PathInfo where
  path : List PeerPort
  seq : UInt64
  reqTime : Instant
  lastRefresh : Instant
  cachedTraffic : Option TrafficPacket
  broken : Bool
deriving DecidableEq

/-- A path that is looked for, and the packet that waits for it. -/
structure PathRumor where
  traffic : Option TrafficPacket
  sendTime : Option Instant
  retryTime : Option Instant
  created : Instant
deriving DecidableEq

@[ext] structure OwnPathInfo where
  seq : UInt64
  path : List PeerPort
  sig : Sig
deriving DecidableEq

namespace OwnPathInfo

def new : OwnPathInfo := { seq := 0, path := [], sig := 0 }

def sign (self : OwnPathInfo) (crypto : Crypto) : OwnPathInfo :=
  { self with sig := crypto.sign (bytesForSig self.seq self.path) }

def contentEqual (self other : OwnPathInfo) : Bool := self.seq == other.seq && self.path == other.path

end OwnPathInfo

structure Pathfinder where
  info : OwnPathInfo
  paths : HashMap PublicKey PathInfo
  rumors : HashMap PublicKey PathRumor

namespace Pathfinder

def new (crypto : Crypto) : Pathfinder := { info := OwnPathInfo.new.sign crypto, paths := ∅, rumors := ∅ }

def recent (now : Instant) (throttle : Duration) : Option Instant → Bool
  | some t => elapsed now t < throttle
  | none => false

variable (self : Pathfinder)

def shouldThrottleLookup (dest : PublicKey) (throttle : Duration) (now : Instant) : Bool :=
  recent now throttle ((self.paths.lookup dest).map PathInfo.reqTime)

def markLookupSent (dest : PublicKey) (now : Instant) : Pathfinder :=
  { self with paths := self.paths.modify dest fun info => { info with reqTime := now } }

def shouldThrottleRumor (xformedDest : PublicKey) (throttle : Duration) (now : Instant) : Bool :=
  match self.rumors.lookup xformedDest with
  | some rumor => recent now throttle rumor.sendTime
  | none => false

def ensureRumor (xformedDest : PublicKey) (now : Instant) : Pathfinder :=
  match self.rumors.lookup xformedDest with
  | some _ => self
  | none =>
    { self with
      rumors := self.rumors.insert xformedDest
        { traffic := none, sendTime := none, retryTime := none, created := now } }

def markRumorSent (xformedDest : PublicKey) (now : Instant) : Pathfinder :=
  { self with rumors := self.rumors.modify xformedDest fun rumor => { rumor with sendTime := some now } }

def shouldThrottleRumorRetry (xformedDest : PublicKey) (throttle : Duration) (now : Instant) :
    Bool :=
  match self.rumors.lookup xformedDest with
  | some rumor => recent now throttle rumor.sendTime || recent now throttle rumor.retryTime
  | none => false

def markRumorRetry (xformedDest : PublicKey) (now : Instant) : Pathfinder :=
  { self with rumors := self.rumors.modify xformedDest fun rumor => { rumor with retryTime := some now } }

def cacheRumorTraffic (xformedDest : PublicKey) (traffic : TrafficPacket) : Pathfinder :=
  { self with rumors := self.rumors.modify xformedDest fun rumor => { rumor with traffic := some traffic } }

def cacheRumorTrafficIfAbsent (xformedDest : PublicKey) (traffic : TrafficPacket) : Pathfinder :=
  { self with
    rumors := self.rumors.modify xformedDest fun rumor =>
      if rumor.traffic.isNone then { rumor with traffic := some traffic } else rumor }

def acceptNotify (source xformedSource : PublicKey) (notifySeq : UInt64)
    (notifyPath : List PeerPort) (now : Instant) : Bool × Option TrafficPacket × Pathfinder :=
  match self.paths.lookup source with
  | some info =>
    if notifySeq ≤ info.seq then (false, none, self)
    else if !info.broken && info.path == notifyPath then (false, none, self) -- working path, coords unchanged
    else
      (true, info.cachedTraffic, { self with
          paths := self.paths.modify source fun info =>
            { info with path := notifyPath, seq := notifySeq, broken := false, lastRefresh := now
                        cachedTraffic := none } })
  | none =>
    match self.rumors.lookup xformedSource with
    | none => (false, none, self)
    | some rumor =>
      let forSource := rumor.traffic.any fun t => t.dest == source
      (true, if forSource then rumor.traffic else none, { self with
          rumors :=
            if forSource then self.rumors.modify xformedSource fun rumor => { rumor with traffic := none }
            else self.rumors
          paths := self.paths.insert source
            { path := notifyPath, seq := notifySeq, reqTime := now, lastRefresh := now, cachedTraffic := none
              broken := false } })

def handleBroken (dest : PublicKey) : Pathfinder :=
  { self with paths := self.paths.modify dest fun info => { info with broken := true } }

def learnPathFromTraffic (source : PublicKey) (path : List PeerPort) (now : Instant) :
    Pathfinder :=
  match self.paths.lookup source with
  | some _ => self
  | none =>
    { self with
      paths := self.paths.insert source
        { path, seq := 0, reqTime := now, lastRefresh := now, cachedTraffic := none, broken := false } }

def resetTimeout (key : PublicKey) (now : Instant) : Pathfinder :=
  { self with
    paths := self.paths.modify key fun info => if info.broken then info else { info with lastRefresh := now } }

def refreshIfCoordsMatch (key : PublicKey) (fromPath : List PeerPort) (now : Instant) :
    Pathfinder :=
  if (self.paths.lookup key).any fun info => !info.broken && info.path == fromPath then self.resetTimeout key now
  else self

def getPath (dest : PublicKey) : Option (List PeerPort) :=
  ((self.paths.lookup dest).filter fun info => !info.broken).map PathInfo.path

def needsTrafficCache (dest : PublicKey) : Bool :=
  (self.paths.lookup dest).any fun info => info.cachedTraffic.isNone

def cacheTraffic (dest : PublicKey) (traffic : TrafficPacket) : Pathfinder :=
  { self with paths := self.paths.modify dest fun info => { info with cachedTraffic := some traffic } }

def cleanupExpired (pathTimeout : Duration) (now : Instant) : Pathfinder :=
  { self with
    paths := self.paths.retain fun _ info => elapsed now info.lastRefresh < pathTimeout
    rumors := self.rumors.retain fun _ rumor => elapsed now (rumor.sendTime.getD rumor.created) < pathTimeout }

def rumorsNeedingRetry : List PublicKey :=
  (self.rumors.values.filterMap fun rumor => rumor.traffic.map TrafficPacket.dest).filter fun dest =>
    match self.paths.lookup dest with
    | some info => info.broken
    | none => true

/-! ## Waiting packets -/

def waiting : List TrafficPacket :=
  self.paths.values.filterMap PathInfo.cachedTraffic ++ self.rumors.values.filterMap PathRumor.traffic

variable {t traffic : TrafficPacket}

theorem mem_waiting {self : Pathfinder} :
    t ∈ self.waiting ↔ (∃ k info, self.paths.lookup k = some info ∧ info.cachedTraffic = some t) ∨
      ∃ k rumor, self.rumors.lookup k = some rumor ∧ rumor.traffic = some t := by
  simp only [waiting, mem_append, mem_filterMap, mem_values]
  grind

variable (self : Pathfinder) (key : PublicKey) (now : Instant)

theorem waiting_modify_paths {f : PathInfo → PathInfo} (h : ∀ info, (f info).cachedTraffic = info.cachedTraffic) :
    waiting { self with paths := self.paths.modify key f } = self.waiting := by
  rw [waiting, waiting, filterMap_values_modify _ _ _ h]

theorem waiting_modify_rumors {f : PathRumor → PathRumor} (h : ∀ rumor, (f rumor).traffic = rumor.traffic) :
    waiting { self with rumors := self.rumors.modify key f } = self.waiting := by
  rw [waiting, waiting, filterMap_values_modify _ _ _ h]

@[simp] theorem waiting_markLookupSent : (self.markLookupSent key now).waiting = self.waiting :=
  self.waiting_modify_paths key fun _ => rfl

@[simp] theorem waiting_handleBroken : (self.handleBroken key).waiting = self.waiting :=
  self.waiting_modify_paths key fun _ => rfl

@[simp] theorem waiting_markRumorSent : (self.markRumorSent key now).waiting = self.waiting :=
  self.waiting_modify_rumors key fun _ => rfl

@[simp] theorem waiting_markRumorRetry : (self.markRumorRetry key now).waiting = self.waiting :=
  self.waiting_modify_rumors key fun _ => rfl

@[simp] theorem waiting_ensureRumor : (self.ensureRumor key now).waiting = self.waiting := by
  rw [ensureRumor]
  cases h : self.rumors.lookup key with
  | some rumor => rfl
  | none => simp only [waiting, values_insert h, filterMap_cons_none]

@[simp] theorem waiting_learnPathFromTraffic (path : List PeerPort) :
    (self.learnPathFromTraffic key path now).waiting = self.waiting := by
  rw [learnPathFromTraffic]
  cases h : self.paths.lookup key with
  | some info => rfl
  | none => simp only [waiting, values_insert h, filterMap_cons_none]

@[simp] theorem waiting_refreshIfCoordsMatch (path : List PeerPort) :
    (self.refreshIfCoordsMatch key path now).waiting = self.waiting := by
  rw [refreshIfCoordsMatch]
  split
  · refine self.waiting_modify_paths key fun info => ?_
    split <;> rfl
  · rfl

variable {self key}

theorem mem_waiting_cacheTraffic (h : t ∈ (self.cacheTraffic key traffic).waiting) :
    t = traffic ∨ t ∈ self.waiting := by
  rw [mem_waiting] at h ⊢
  simp only [cacheTraffic, lookup_modify, map_eq_some_iff] at h
  grind

theorem mem_waiting_cacheRumorTraffic (h : t ∈ (self.cacheRumorTraffic key traffic).waiting) :
    t = traffic ∨ t ∈ self.waiting := by
  rw [mem_waiting] at h ⊢
  simp only [cacheRumorTraffic, lookup_modify, map_eq_some_iff] at h
  grind

theorem mem_waiting_cacheRumorTrafficIfAbsent (h : t ∈ (self.cacheRumorTrafficIfAbsent key traffic).waiting) :
    t = traffic ∨ t ∈ self.waiting := by
  rw [mem_waiting] at h ⊢
  simp only [cacheRumorTrafficIfAbsent, lookup_modify, map_eq_some_iff] at h
  grind

theorem mem_waiting_cleanupExpired {pathTimeout : Duration} (h : t ∈ (self.cleanupExpired pathTimeout now).waiting) :
    t ∈ self.waiting := by
  rw [mem_waiting] at h ⊢
  simp only [cleanupExpired, lookup_retain, filter_eq_some_iff] at h
  grind

def Filed (self : Pathfinder) : Prop :=
  ∀ k info t, self.paths.lookup k = some info → info.cachedTraffic = some t → t.dest = k

theorem Filed.acceptNotify_dest (h : self.Filed) {source xformedSource : PublicKey} {seq : UInt64}
    {path : List PeerPort} (ht : (self.acceptNotify source xformedSource seq path now).2.1 = some t) :
    t.dest = source := by
  rw [acceptNotify] at ht
  cases hpath : self.paths.lookup source with
  | some info =>
    simp only [hpath] at ht
    split at ht
    · cases ht
    split at ht
    · cases ht
    exact h source info t hpath ht
  | none =>
    simp only [hpath] at ht
    split at ht
    · cases ht
    next rumor _ =>
      simp only at ht
      split at ht
      next hsource =>
        rw [ht, any_some, beq_iff_eq] at hsource
        exact hsource
      · cases ht

theorem waiting_acceptNotify (self : Pathfinder) (source xformedSource : PublicKey) (seq : UInt64)
    (path : List PeerPort) (now : Instant) : ((self.acceptNotify source xformedSource seq path now).2.1.toList ++
      (self.acceptNotify source xformedSource seq path now).2.2.waiting).Perm self.waiting := by
  rw [acceptNotify]
  cases hpath : self.paths.lookup source with
  | some info =>
    simp only
    split
    · exact List.Perm.refl _
    split
    · exact List.Perm.refl _
    rw [waiting, waiting, ← append_assoc]
    exact (filterMap_values_take hpath PathInfo.cachedTraffic rfl).append_right _
  | none =>
    cases hrumor : self.rumors.lookup xformedSource with
    | none => exact List.Perm.refl _
    | some rumor =>
      simp only [waiting, values_insert hpath, filterMap_cons_none]
      split
      · refine (perm_append_comm_assoc _ _ _).trans (List.Perm.append_left _ ?_)
        exact filterMap_values_take hrumor PathRumor.traffic rfl
      · exact List.Perm.refl _

end Pathfinder

end Yggdrasil
