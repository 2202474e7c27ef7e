import Yggdrasil.Base.Run
import Yggdrasil.Router.Bloom
import Yggdrasil.Router.Pathfinder

/-!
# The acts of the pathfinder

The calls of `pathfinder.rs` that the router makes, as far as they change something.
-/

namespace Yggdrasil
open Option HashMap

namespace Pathfinder

/-- Why a lookup is started: by a packet without a path, by maintenance, by a broken path, or on demand. -/
inductive Trigger where
  | send
  | retry
  | broken
  | force
deriving DecidableEq

def Trigger.mark (p : Pathfinder) (x : PublicKey) (now : Instant) : Trigger → Pathfinder
  | .send => p.markRumorSent x now
  | .retry => p.markRumorRetry x now
  | .broken => p
  | .force => p

/-- A call that changes something. -/
inductive Act where
  | ensureRumor (dest : PublicKey)
  /-- A packet without a path waits in the rumor of its destination. -/
  | buffer (traffic : TrafficPacket)
  | forgetSent (dest : PublicKey)
  | search (why : Trigger) (dest : PublicKey) (sent : Bool)
  | answer (coords : List PeerPort)
  /-- A verified notify reaches the node, which has the coordinates `coords`. -/
  | accept (source : PublicKey) (seq : UInt64) (path coords : List PeerPort)
  | markBroken (dest : PublicKey)
  | arrive (source : PublicKey) (path : List PeerPort)
  | cacheTraffic (traffic : TrafficPacket)
  | cleanup
deriving DecidableEq

structure Setting where
  crypto : Crypto
  throttle : Duration
  timeout : Duration
  transform : Option (PublicKey → PublicKey)

def Setting.xKey (s : Setting) (key : PublicKey) : PublicKey := Blooms.xKey key s.transform

variable (s : Setting) (clk : Clock)

/-- The info of an answer: the node's coordinates and the time, signed anew unless both are those of the last one. -/
def answerInfo (crypto : Crypto) (p : Pathfinder) (coords : List PeerPort) : OwnPathInfo :=
  let notifyInfo : OwnPathInfo := { seq := clk.unixSecs, path := coords, sig := 0 }
  if !p.info.contentEqual notifyInfo then notifyInfo.sign crypto else p.info

/-- What the act does. -/
def perform (p : Pathfinder) : Act → Pathfinder
  | .ensureRumor dest => p.ensureRumor (s.xKey dest) clk.now
  | .buffer tr =>
    let p := p.ensureRumor (s.xKey tr.dest) clk.now
    if tr.keepalive then p.cacheRumorTrafficIfAbsent (s.xKey tr.dest) tr else p.cacheRumorTraffic (s.xKey tr.dest) tr
  | .forgetSent dest =>
    match p.rumors.lookup (s.xKey dest) with
    | some _ => { p with rumors := p.rumors.modify (s.xKey dest) fun rumor => { rumor with sendTime := none } }
    | none => p.ensureRumor (s.xKey dest) clk.now
  | .search why dest sent =>
    let p := why.mark p (s.xKey dest) clk.now
    if sent then p.markLookupSent dest clk.now else p
  | .answer coords => { p with info := answerInfo clk s.crypto p coords }
  | .accept source seq path _ => (p.acceptNotify source (s.xKey source) seq path clk.now).2.2
  | .markBroken dest => p.handleBroken dest
  | .arrive source path => (p.learnPathFromTraffic source path clk.now).refreshIfCoordsMatch source path clk.now
  | .cacheTraffic tr => p.cacheTraffic tr.dest tr
  | .cleanup => p.cleanupExpired s.timeout clk.now

def Trigger.Passed (p : Pathfinder) (dest : PublicKey) : Trigger → Prop
  | .send => (p.rumors.lookup (s.xKey dest)).isSome ∧ p.shouldThrottleRumor (s.xKey dest) s.throttle clk.now = false
  | .retry =>
    (p.rumors.lookup (s.xKey dest)).isSome ∧ p.shouldThrottleRumorRetry (s.xKey dest) s.throttle clk.now = false
  | .broken => True
  | .force => True

def Allowed (p : Pathfinder) : Act → Prop
  | .search why dest sent => why.Passed s clk p dest ∧ sent = !p.shouldThrottleLookup dest s.throttle clk.now
  | _ => True

/-- An act before which the router has made its checks. -/
def Acted (p : Pathfinder) (a : Act) (p' : Pathfinder) : Prop := Allowed s clk p a ∧ p' = perform s clk p a

def Doing (P : Act → Prop) : Pathfinder → Act → Pathfinder → Prop := Lts.Guarded (Acted s clk) fun _ a => P a

def Act.routing : Act → Bool
  | .search why _ _ => why = .broken
  | .answer _ | .accept _ _ _ _ | .markBroken _ | .arrive _ _ => true
  | .ensureRumor _ | .buffer _ | .forgetSent _ | .cacheTraffic _ | .cleanup => false

def Act.forced : Act → Bool
  | .search why _ _ => why = .force
  | .forgetSent _ => true
  | .ensureRumor _ | .buffer _ | .answer _ | .accept _ _ _ _ | .markBroken _ | .arrive _ _ | .cacheTraffic _
  | .cleanup => false

/-- The acts of a message, or of maintenance after it has cleaned up; `force` says whether it may be `force_lookup`. -/
def Act.Handling (force : Prop) (a : Act) : Prop := a ≠ .cleanup ∧ (a.forced = true → force)

/-! ## One rumor, one path -/

def freshRumor (now : Instant) : PathRumor := { traffic := none, sendTime := none, retryTime := none, created := now }

def Trigger.note (now : Instant) (rumor : PathRumor) : Trigger → PathRumor
  | .send => { rumor with sendTime := some now }
  | .retry => { rumor with retryTime := some now }
  | .broken => rumor
  | .force => rumor

def put (tr : TrafficPacket) (rumor : PathRumor) : PathRumor :=
  { rumor with traffic := if tr.keepalive && rumor.traffic.isSome then rumor.traffic else some tr }

def takeFor (source : PublicKey) (rumor : PathRumor) : PathRumor :=
  if rumor.traffic.any fun t => t.dest == source then { rumor with traffic := none } else rumor

def rumorAfter (known : PublicKey → Bool) (x : PublicKey) (e : Option PathRumor) : Act → Option PathRumor
  | .ensureRumor dest => if s.xKey dest = x then some (e.getD (freshRumor clk.now)) else e
  | .buffer tr => if s.xKey tr.dest = x then some (put tr (e.getD (freshRumor clk.now))) else e
  | .forgetSent dest =>
    if s.xKey dest = x then
      some ((e.map fun rumor => { rumor with sendTime := none }).getD (freshRumor clk.now))
    else e
  | .search why dest _ => if s.xKey dest = x then e.map fun rumor => why.note clk.now rumor else e
  | .accept source _ _ _ => if s.xKey source = x ∧ known source = false then e.map (takeFor source) else e
  | .cleanup => e.filter fun rumor => elapsed clk.now (rumor.sendTime.getD rumor.created) < s.timeout
  | .answer _ | .markBroken _ | .arrive _ _ | .cacheTraffic _ => e

def pathAfter (asked : Bool) (k : PublicKey) (e : Option PathInfo) : Act → Option PathInfo
  | .search _ dest sent => if dest = k && sent then e.map fun info => { info with reqTime := clk.now } else e
  | .accept source seq path _ =>
    if source = k then
      match e with
      | some info =>
        if seq ≤ info.seq then some info
        else if !info.broken && info.path == path then some info
        else some { info with path, seq, broken := false, lastRefresh := clk.now, cachedTraffic := none }
      | none =>
        if asked then
          some { path, seq, reqTime := clk.now, lastRefresh := clk.now, cachedTraffic := none, broken := false }
        else none
    else e
  | .markBroken dest => if dest = k then e.map fun info => { info with broken := true } else e
  | .arrive source path =>
    if source = k then
      match e with
      | some info =>
        some (if !info.broken && info.path == path then { info with lastRefresh := clk.now } else info)
      | none =>
        some { path, seq := 0, reqTime := clk.now, lastRefresh := clk.now, cachedTraffic := none, broken := false }
    else e
  | .cacheTraffic tr => if tr.dest = k then e.map fun info => { info with cachedTraffic := some tr } else e
  | .cleanup => e.filter fun info => elapsed clk.now info.lastRefresh < s.timeout
  | .ensureRumor _ | .buffer _ | .forgetSent _ | .answer _ => e

variable {s clk} {p p' : Pathfinder}

theorem answerInfo_content (clk : Clock) (crypto : Crypto) (p : Pathfinder) (coords : List PeerPort) :
    (answerInfo clk crypto p coords).seq = clk.unixSecs ∧ (answerInfo clk crypto p coords).path = coords := by
  unfold answerInfo
  dsimp only
  split
  · exact ⟨rfl, rfl⟩
  next hequal =>
    simp only [OwnPathInfo.contentEqual, Bool.not_eq_true, Bool.not_eq_false', Bool.and_eq_true, beq_iff_eq] at hequal
    exact hequal

theorem Act.handling_of_routing {a : Act} (h : a.routing = true) (force : Prop) : a.Handling force := by
  cases a with
  | search why dest sent =>
    obtain rfl : why = .broken := of_decide_eq_true h
    exact ⟨by simp, by simp [Act.forced]⟩
  | answer coords | accept source seq path coords | markBroken dest | arrive source path =>
    exact ⟨by simp, by simp [Act.forced]⟩
  | ensureRumor dest | buffer tr | forgetSent dest | cacheTraffic tr | cleanup => cases h

theorem Doing.mono {P Q : Act → Prop} {acts : List Act} (h : Lts.Run (Doing s clk P) p acts p') (hPQ : ∀ a, P a → Q a) :
    Lts.Run (Doing s clk Q) p acts p' := Lts.Run.mono h fun _ _ _ hstep => ⟨hstep.1, hPQ _ hstep.2⟩

theorem lookup_ensureRumor (p : Pathfinder) (x y : PublicKey) (now : Instant) :
    (p.ensureRumor x now).rumors.lookup y =
      if x = y then some ((p.rumors.lookup y).getD (freshRumor now)) else p.rumors.lookup y := by
  unfold ensureRumor
  by_cases hxy : x = y
  · subst hxy
    rw [if_pos rfl]
    split
    next rumor hrumor => rw [hrumor, getD_some]
    next hnone =>
      rw [lookup_insert, if_pos rfl, hnone]
      rfl
  rw [if_neg hxy]
  split
  · rfl
  · rw [lookup_insert, if_neg (Ne.symm hxy)]

theorem lookup_modify_rumor (p : Pathfinder) (x y : PublicKey) (f : PathRumor → PathRumor) :
    (p.rumors.modify x f).lookup y = if x = y then (p.rumors.lookup y).map f else p.rumors.lookup y := by
  rw [lookup_modify]
  by_cases hxy : x = y
  · simp [hxy]
  · simp [hxy, Ne.symm hxy]

theorem lookup_modify_path (p : Pathfinder) (x y : PublicKey) (f : PathInfo → PathInfo) :
    (p.paths.modify x f).lookup y = if x = y then (p.paths.lookup y).map f else p.paths.lookup y := by
  rw [lookup_modify]
  by_cases hxy : x = y
  · simp [hxy]
  · simp [hxy, Ne.symm hxy]

theorem learnPathFromTraffic_rumors (p : Pathfinder) (source : PublicKey) (path : List PeerPort) (now : Instant) :
    (p.learnPathFromTraffic source path now).rumors = p.rumors := by
  unfold learnPathFromTraffic
  split <;> rfl

theorem refreshIfCoordsMatch_rumors (p : Pathfinder) (source : PublicKey) (path : List PeerPort) (now : Instant) :
    (p.refreshIfCoordsMatch source path now).rumors = p.rumors := by
  unfold refreshIfCoordsMatch
  split <;> rfl

theorem lookup_acceptNotify_rumors (p : Pathfinder) (source x y : PublicKey) (seq : UInt64) (path : List PeerPort)
    (now : Instant) : (p.acceptNotify source x seq path now).2.2.rumors.lookup y =
      if x = y ∧ (p.paths.lookup source).isSome = false then (p.rumors.lookup y).map (takeFor source)
      else p.rumors.lookup y := by
  unfold acceptNotify
  cases hpath : p.paths.lookup source with
  | some info =>
    rw [if_neg (by simp)]
    dsimp only
    split
    · rfl
    · split <;> rfl
  | none =>
    simp only [isSome_none, and_true]
    cases hrumor : p.rumors.lookup x with
    | none =>
      dsimp only
      split
      next hx =>
        subst hx
        rw [hrumor]
        rfl
      · rfl
    | some rumor =>
      dsimp only
      by_cases htake : (rumor.traffic.any fun t => t.dest == source) = true
      · rw [if_pos htake, lookup_modify_rumor]
        split
        next hx =>
          subst hx
          rw [hrumor, map_some, map_some, takeFor, if_pos htake]
        · rfl
      rw [if_neg htake]
      split
      next hx =>
        subst hx
        rw [hrumor, map_some, takeFor, if_neg htake]
      · rfl

theorem perform_rumors (s : Setting) (clk : Clock) (p : Pathfinder) (a : Act) (x : PublicKey) :
    (perform s clk p a).rumors.lookup x =
      rumorAfter s clk (fun k => (p.paths.lookup k).isSome) x (p.rumors.lookup x) a := by
  cases a with
  | ensureRumor dest =>
    exact lookup_ensureRumor p _ x clk.now
  | buffer tr =>
    simp only [perform, rumorAfter]
    have hmodify : ∀ f : PathRumor → PathRumor, (∀ rumor, f rumor = put tr rumor) →
        ((p.ensureRumor (s.xKey tr.dest) clk.now).rumors.modify (s.xKey tr.dest) f).lookup x =
          if s.xKey tr.dest = x then some (put tr ((p.rumors.lookup x).getD (freshRumor clk.now)))
          else p.rumors.lookup x := by
      intro f hf
      rw [lookup_modify_rumor, lookup_ensureRumor]
      split
      · rw [map_some, hf]
      · rfl
    split
    next hkeepalive =>
      refine hmodify _ fun rumor => ?_
      cases ht : rumor.traffic with
      | none => simp [put, ht]
      | some t =>
        simp only [put, ht, hkeepalive, isNone_some, isSome_some, Bool.and_self, if_true,
          Bool.false_eq_true, if_false]
        rw [← ht]
    next hkeepalive => exact hmodify _ fun rumor => by simp [put, hkeepalive]
  | forgetSent dest =>
    simp only [perform, rumorAfter]
    split
    next rumor hrumor =>
      rw [lookup_modify_rumor]
      split
      next hx =>
        subst hx
        rw [hrumor]
        rfl
      · rfl
    next hnone =>
      rw [lookup_ensureRumor]
      split
      next hx =>
        subst hx
        rw [hnone]
        rfl
      · rfl
  | search why dest sent =>
    have hmark : (perform s clk p (.search why dest sent)).rumors = (why.mark p (s.xKey dest) clk.now).rumors := by
      simp only [perform]
      split <;> rfl
    rw [hmark]
    cases why with
    | send =>
      exact lookup_modify_rumor p _ x _
    | retry =>
      exact lookup_modify_rumor p _ x _
    | broken | force => simp [rumorAfter, Trigger.mark, Trigger.note]
  | accept source seq path coords =>
    exact p.lookup_acceptNotify_rumors source _ x seq path clk.now
  | cleanup =>
    exact lookup_retain ..
  | answer coords => simp only [perform, rumorAfter]
  | markBroken dest => simp only [perform, rumorAfter, handleBroken]
  | arrive source path =>
    simp only [perform, rumorAfter]
    rw [refreshIfCoordsMatch_rumors, learnPathFromTraffic_rumors]
  | cacheTraffic tr => simp only [perform, rumorAfter, cacheTraffic]

theorem lookup_arrive (p : Pathfinder) (source k : PublicKey) (path : List PeerPort) (now : Instant) :
    ((p.learnPathFromTraffic source path now).refreshIfCoordsMatch source path now).paths.lookup k =
      if source = k then
        match p.paths.lookup k with
        | some info => some (if !info.broken && info.path == path then { info with lastRefresh := now } else info)
        | none => some { path, seq := 0, reqTime := now, lastRefresh := now, cachedTraffic := none, broken := false }
      else p.paths.lookup k := by
  have hrefresh : ∀ q : Pathfinder, (q.refreshIfCoordsMatch source path now).paths.lookup k =
      if source = k then (q.paths.lookup k).map fun info =>
        if !info.broken && info.path == path then { info with lastRefresh := now } else info
      else q.paths.lookup k := by
    intro q
    unfold refreshIfCoordsMatch
    by_cases hk : source = k
    · subst hk
      rw [if_pos rfl]
      cases hinfo : q.paths.lookup source with
      | none => simp [hinfo]
      | some info =>
        by_cases hmatch : (!info.broken && info.path == path) = true
        · rw [any_some, if_pos hmatch, resetTimeout, lookup_modify_path, if_pos rfl, hinfo]
          simp_all
        · rw [any_some, if_neg hmatch, hinfo, map_some, if_neg hmatch]
    split
    · rw [resetTimeout, lookup_modify_path, if_neg hk]
    · rfl
  rw [hrefresh]
  unfold learnPathFromTraffic
  by_cases hk : source = k
  · subst hk
    cases hinfo : p.paths.lookup source with
    | some info => simp [hinfo]
    | none =>
      rw [lookup_insert, if_pos rfl]
      simp
  rw [if_neg hk, if_neg hk]
  split
  · rfl
  · rw [lookup_insert, if_neg (Ne.symm hk)]

theorem perform_paths (s : Setting) (clk : Clock) (p : Pathfinder) (a : Act) (k : PublicKey) :
    (perform s clk p a).paths.lookup k =
      pathAfter s clk (p.rumors.lookup (s.xKey k)).isSome k (p.paths.lookup k) a := by
  have hensure : ∀ x, (p.ensureRumor x clk.now).paths = p.paths := by
    intro x
    unfold ensureRumor
    split <;> rfl
  cases a with
  | ensureRumor dest =>
    simp only [perform, pathAfter]
    rw [hensure]
  | buffer tr =>
    simp only [perform, pathAfter]
    split <;> exact congrArg (HashMap.lookup · k) (hensure _)
  | forgetSent dest =>
    simp only [perform, pathAfter]
    split
    · rfl
    · rw [hensure]
  | search why dest sent =>
    have hmark : (why.mark p (s.xKey dest) clk.now).paths = p.paths := by cases why <;> rfl
    simp only [perform, pathAfter]
    cases sent with
    | true =>
      rw [if_pos rfl, markLookupSent, hmark]
      simp only [Bool.and_true, decide_eq_true_eq]
      exact lookup_modify_path p dest k _
    | false =>
      rw [if_neg Bool.false_ne_true, hmark]
      simp
  | accept source seq path coords =>
    simp only [perform, pathAfter, acceptNotify]
    by_cases hk : source = k
    · subst hk
      rw [if_pos rfl]
      cases hpath : p.paths.lookup source with
      | some info =>
        simp only
        split
        · exact hpath
        split
        · exact hpath
        · rw [lookup_modify_path, if_pos rfl, hpath, map_some]
      | none =>
        cases hrumor : p.rumors.lookup (s.xKey source) with
        | none => exact hpath
        | some rumor =>
          rw [lookup_insert, if_pos rfl]
          rfl
    rw [if_neg hk]
    split
    · split
      · rfl
      split
      · rfl
      · rw [lookup_modify_path, if_neg hk]
    split
    · rfl
    · rw [lookup_insert, if_neg (Ne.symm hk)]
  | markBroken dest =>
    exact lookup_modify_path p dest k _
  | arrive source path =>
    exact p.lookup_arrive source k path clk.now
  | cacheTraffic tr =>
    exact lookup_modify_path p tr.dest k _
  | cleanup =>
    exact lookup_retain ..
  | answer coords => simp only [perform, pathAfter]

/-! ## The slot of a rumor -/

def slot (p : Pathfinder) (x : PublicKey) : Option TrafficPacket := (p.rumors.lookup x).bind PathRumor.traffic

theorem slot_eq_some {x : PublicKey} {t : TrafficPacket} :
    p.slot x = some t ↔ ∃ rumor, p.rumors.lookup x = some rumor ∧ rumor.traffic = some t := bind_eq_some_iff

def slotAfter (s : Setting) (clk : Clock) (p : Pathfinder) (x : PublicKey) : Act → Option TrafficPacket
  | .buffer tr =>
    if s.xKey tr.dest = x then if tr.keepalive && (p.slot x).isSome then p.slot x else some tr else p.slot x
  | .accept source _ _ _ =>
    if s.xKey source = x ∧ (p.paths.lookup source).isSome = false then (p.slot x).filter fun t => t.dest != source
    else p.slot x
  | .cleanup =>
    if (p.rumors.lookup x).any fun rumor =>
      elapsed clk.now (rumor.sendTime.getD rumor.created) < s.timeout then p.slot x
    else none
  | .ensureRumor _ | .forgetSent _ | .search _ _ _ | .answer _ | .markBroken _ | .arrive _ _ | .cacheTraffic _ =>
    p.slot x

theorem bind_getD_fresh (e : Option PathRumor) (now : Instant) :
    ((e.getD (freshRumor now)).traffic) = e.bind PathRumor.traffic := by
  cases e <;> rfl

theorem slot_perform (s : Setting) (clk : Clock) (p : Pathfinder) (a : Act) (x : PublicKey) :
    (perform s clk p a).slot x = slotAfter s clk p x a := by
  have hslot : p.slot x = (p.rumors.lookup x).bind PathRumor.traffic := rfl
  unfold slot
  rw [perform_rumors]
  cases a with
  | ensureRumor dest =>
    simp only [rumorAfter, slotAfter]
    split
    · exact bind_getD_fresh _ _
    · rfl
  | buffer tr =>
    simp only [rumorAfter, slotAfter]
    split
    · rw [bind_some, put, hslot, ← bind_getD_fresh _ clk.now]
    · rfl
  | forgetSent dest =>
    simp only [rumorAfter, slotAfter]
    split
    · rw [hslot]
      cases p.rumors.lookup x <;> rfl
    · rfl
  | search why dest sent =>
    simp only [rumorAfter, slotAfter]
    split
    · rw [hslot]
      cases p.rumors.lookup x with
      | none => rfl
      | some rumor => cases why <;> rfl
    · rfl
  | accept source seq path coords =>
    simp only [rumorAfter, slotAfter]
    split
    · rw [hslot]
      cases p.rumors.lookup x with
      | none => rfl
      | some rumor =>
        rw [map_some, bind_some, bind_some, takeFor]
        cases ht : rumor.traffic with
        | none => simp [ht]
        | some t =>
          by_cases hdest : t.dest = source
          · simp [filter_some, hdest]
          · simp [filter_some, hdest, ht]
    · rfl
  | cleanup =>
    simp only [rumorAfter, slotAfter]
    rw [hslot]
    cases p.rumors.lookup x with
    | none => simp
    | some rumor =>
      rw [filter_some, any_some]
      split <;> rfl
  | answer coords | markBroken dest | arrive source path | cacheTraffic tr => simp only [rumorAfter, slotAfter, slot]

theorem slot_of_perform {a : Act} {x : PublicKey} {t : TrafficPacket} (h : (perform s clk p a).slot x = some t) :
    p.slot x = some t ∨ a = .buffer t ∧ s.xKey t.dest = x := by
  rw [slot_perform] at h
  cases a with
  | buffer tr =>
    simp only [slotAfter] at h
    split at h
    next hx =>
      split at h
      · exact .inl h
      cases h
      exact .inr ⟨rfl, hx⟩
    · exact .inl h
  | accept source seq path coords =>
    simp only [slotAfter] at h
    split at h
    · exact .inl (filter_eq_some_iff.mp h).1
    · exact .inl h
  | cleanup =>
    simp only [slotAfter] at h
    split at h
    · exact .inl h
    · cases h
  | ensureRumor dest | forgetSent dest | search why dest sent | answer coords | markBroken dest | arrive source path
  | cacheTraffic tr => exact .inl h

def Slotted (s : Setting) (p : Pathfinder) : Prop := ∀ x t, p.slot x = some t → s.xKey t.dest = x

theorem Slotted.perform (h : Slotted s p) (clk : Clock) (a : Act) : Slotted s (perform s clk p a) := by
  intro x t ht
  rcases slot_of_perform ht with ht | ⟨-, hx⟩
  · exact h x t ht
  · exact hx

theorem rumors_isSome_perform {a : Act} (ha : a ≠ .cleanup) {x : PublicKey} (h : (p.rumors.lookup x).isSome) :
    ((perform s clk p a).rumors.lookup x).isSome := by
  rw [perform_rumors]
  cases a with
  | cleanup => exact absurd rfl ha
  | ensureRumor dest | buffer tr | forgetSent dest | search why dest sent | accept source seq path coords =>
    simp only [rumorAfter]
    split <;> simp [h]
  | answer coords | markBroken dest | arrive source path | cacheTraffic tr => exact h

theorem paths_isSome_perform {a : Act} (ha : a ≠ .cleanup) {k : PublicKey} (h : (p.paths.lookup k).isSome) :
    ((perform s clk p a).paths.lookup k).isSome := by
  rw [perform_paths]
  obtain ⟨info, hinfo⟩ := isSome_iff_exists.mp h
  rw [hinfo]
  cases a with
  | accept source seq path coords =>
    simp only [pathAfter]
    split
    · split
      · rfl
      · split <;> rfl
    · rfl
  | search why dest sent | markBroken dest | arrive source path | cacheTraffic tr =>
    simp only [pathAfter]
    split <;> rfl
  | answer coords | ensureRumor dest | buffer tr | forgetSent dest => rfl
  | cleanup => exact absurd rfl ha

end Pathfinder

end Yggdrasil
