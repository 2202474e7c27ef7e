import Yggdrasil.Router.PathLog

/-!
# What a message about paths leaves of the pathfinder

The router changes its pathfinder through a few operations only, and hands them paths of two kinds: its own
coordinates, and the paths of the message it handles.
-/

namespace Yggdrasil.Router
open Pathfinder (Act Setting perform)

/-- What keeps an invariant of the pathfinder. -/
structure PathRules (env : Env) (c : List PeerPort) (ok : List PeerPort → Prop) (I : Pathfinder → Prop) : Prop where
  own : ok c
  sign : ∀ p seq sig, I p → I { p with info := { seq, path := c, sig } }
  markLookupSent : ∀ p dest now, I p → I (p.markLookupSent dest now)
  handleBroken : ∀ p dest, I p → I (p.handleBroken dest)
  acceptNotify : ∀ p source xformedSource seq path sig now, I p → ok path →
    env.verify source (bytesForSig seq path) sig = true → I (p.acceptNotify source xformedSource seq path now).2.2
  learn : ∀ p source path now, I p → ok path → I (p.learnPathFromTraffic source path now)
  refresh : ∀ p source path now, I p → I (p.refreshIfCoordsMatch source path now)
  rumors : ∀ p rumors, I p → I { p with rumors }
  cacheTraffic : ∀ p (tr : TrafficPacket), I p → I (p.cacheTraffic tr.dest tr)
  cleanupExpired : ∀ p timeout now, I p → I (p.cleanupExpired timeout now)

section Rules
variable {c : List PeerPort} {ok : List PeerPort → Prop} {I : Pathfinder → Prop} {env : Env} {p : Pathfinder}

theorem ensureRumor_rumors (p : Pathfinder) (x : PublicKey) (now : Instant) :
    ∃ rumors, p.ensureRumor x now = { p with rumors } := by
  rw [Pathfinder.ensureRumor]
  split
  · exact ⟨p.rumors, rfl⟩
  · exact ⟨_, rfl⟩

theorem PathRules.perform (hI : PathRules env c ok I) (s : Setting) (clk : Clock) (h : I p) {a : Act}
    (ha : Sound env c ok a) : I (Pathfinder.perform s clk p a) := by
  have hensure : ∀ x, I (p.ensureRumor x clk.now) := by
    intro x
    obtain ⟨rumors, hrumors⟩ := ensureRumor_rumors p x clk.now
    exact hrumors ▸ hI.rumors _ _ h
  cases a with
  | ensureRumor dest => exact hensure _
  | buffer tr =>
    simp only [Pathfinder.perform]
    split <;> exact hI.rumors _ _ (hensure _)
  | forgetSent dest =>
    simp only [Pathfinder.perform]
    split
    · exact hI.rumors _ _ h
    · exact hensure _
  | search why dest sent =>
    have hmark : I (why.mark p (s.xKey dest) clk.now) := by
      cases why with
      | send | retry => exact hI.rumors _ _ h
      | broken | force => exact h
    simp only [Pathfinder.perform]
    split
    · exact hI.markLookupSent _ _ _ hmark
    · exact hmark
  | answer coords =>
    have hpath := (Pathfinder.answerInfo_content clk s.crypto p coords).2.trans ha
    show I { p with info := Pathfinder.answerInfo clk s.crypto p coords }
    generalize Pathfinder.answerInfo clk s.crypto p coords = info at hpath ⊢
    have hsign := hI.sign p info.seq info.sig h
    rwa [← hpath] at hsign
  | accept source seq path coords =>
    obtain ⟨hok, sig, hverify⟩ := ha
    exact hI.acceptNotify p source _ seq path sig clk.now h hok hverify
  | markBroken dest => exact hI.handleBroken p dest h
  | arrive source path => exact hI.refresh _ _ _ _ (hI.learn p source path clk.now h ha)
  | cacheTraffic tr => exact hI.cacheTraffic p tr h
  | cleanup => exact hI.cleanupExpired _ _ _ h

end Rules

section Messages
variable {ok : List PeerPort → Prop} {I : Pathfinder → Prop} (env : Env) (clk : Clock) {self : Router}

theorem Tells.keeps {s : Setting} {P : Act → Prop} {p : Pathfinder} {l : List Act} {fwd : PathLookup → Prop}
    {o : Outcome} {c : List PeerPort} (h : Tells s clk P p l fwd o) (hI : PathRules env c ok I)
    (hP : ∀ a, P a → Sound env c ok a) (hp : I p) : I o.router.pathfinder := by
  refine h.run.invariant (I := I) hp fun p a p' hp hstep => ?_
  obtain ⟨⟨-, rfl⟩, ha⟩ := hstep
  exact hI.perform s clk hp (hP a ha)

theorem handlePath_keeps (hI : PathRules env self.ownCoords ok I) (m : PathMsg) (h : I self.pathfinder)
    (hm : m.Meets ok) : I (handlePath env clk self m).router.pathfinder :=
  (handlePath_tells env clk self ok hI.own m hm).keeps env clk hI (fun _ ha => ha.2) h

theorem doSendLookup_keeps (self : Router) (hI : PathRules env self.ownCoords ok I) (dest : PublicKey)
    (h : I self.pathfinder) :
    I (doSendLookup env clk (routeTraffic env clk) self dest).router.pathfinder := by
  have hP : ∀ a : Act, a.routing = true → Sound env self.ownCoords ok a → Sound env self.ownCoords ok a :=
    fun _ _ ha => ha
  exact (doSendLookup_tells self hP hI.own (routeTraffic_tells hP hI.own) rfl rfl .force dest rfl trivial
    fun _ => trivial).keeps env clk hI (fun _ ha => ha) h

theorem retryRumors_keeps (dests : List PublicKey) : ∀ self : Router, PathRules env self.ownCoords ok I →
    I self.pathfinder → I (retryRumors env clk dests self).router.pathfinder := by
  induction dests with
  | nil => exact fun self _ h => h
  | cons dest dests ih =>
    intro self hI h
    simp only [retryRumors]
    split
    · exact ih self hI h
    have hrouted := routed_pathfinder self
      (self.pathfinder.markRumorRetry (Blooms.xKey dest self.bloomTransform) clk.now)
    have hsent := doSendLookup_acts (m := .forceLookup dest) env clk hrouted dest
    refine ih _ (hsent.routed.ownCoords ▸ hI) ?_
    exact doSendLookup_keeps env clk { self with
      pathfinder := self.pathfinder.markRumorRetry (Blooms.xKey dest self.bloomTransform) clk.now } hI dest
      (hI.rumors _ _ h)

theorem maintainPaths_keeps (hI : PathRules env self.ownCoords ok I) (h : I self.pathfinder) :
    I (maintainPaths env clk self).router.pathfinder :=
  retryRumors_keeps env clk _ { self with pathfinder := _ } hI (hI.cleanupExpired _ _ _ h)

end Messages

end Yggdrasil.Router
