import Yggdrasil.Base.Run
import Yggdrasil.Router.Control
import Yggdrasil.Router.Convergence

/-!
# Two routers compare their infos of one key

One router announces what it stores for a key to a peer. The peer accepts it, keeps quiet because it stores the same, or
answers with what it stores; the answer is handled the same way.
-/

namespace Yggdrasil
open Option RouterInfo RouterAnnounce

namespace FullRouter

/-- The three ways in which an announcement is handled. -/
inductive Handled (self : FullRouter) (peerId : PeerId) (ann : RouterAnnounce) (o : Outcome) : Prop
  | accepted : (∀ info, self.infos.lookup ann.key = some info → info.rank < ann.info.rank) → o.actions = [] →
      o.router.infos.lookup ann.key = some ann.info → Handled self peerId ann o
  | same : self.infos.lookup ann.key = some ann.info → o.actions = [] →
      o.router.infos.lookup ann.key = some ann.info → Handled self peerId ann o
  | corrected {info : RouterInfo} : self.infos.lookup ann.key = some info → info ≠ ann.info →
      ¬ info.rank < ann.info.rank → o.actions = [.sendAnnounce peerId (info.getAnnounce ann.key).toWire] →
      o.router.infos.lookup ann.key = some info → Handled self peerId ann o

theorem handleAnnounce_handled (self : FullRouter) (peerId : PeerId) (peerKey : PublicKey) (ann : RouterAnnounce)
    (now : Instant) : Handled self peerId ann (self.handleAnnounce peerId peerKey ann now) := by
  have haccept : (self.update ann now).1 = (self.infos.lookup ann.key).all ann.supersedes := by
    simp only [update, Router.update]
    split <;> simp_all
  have hinfos := Router.lookup_infos_update self.toRouter ann now ann.key
  rw [if_pos rfl] at hinfos
  simp only [handleAnnounce, haccept]
  cases hinfo : self.infos.lookup ann.key with
  | none =>
    rw [hinfo] at hinfos
    simp only [all_none, if_true]
    refine Handled.accepted (by simp [hinfo]) rfl ?_
    split <;> exact hinfos
  | some info =>
    rw [hinfo, Register.offer] at hinfos
    simp only [all_some, supersedes_iff] at hinfos ⊢
    by_cases hrank : info.rank < ann.info.rank
    · simp only [hrank, decide_true, if_true] at hinfos ⊢
      refine Handled.accepted (fun info' h => ?_) rfl ?_
      · rw [hinfo, some.injEq] at h
        exact h ▸ hrank
      · split <;> exact hinfos
    simp only [hrank, if_false]
    by_cases hsame : info = ann.info
    · subst hsame
      exact Handled.same hinfo (by simp) hinfo
    · exact Handled.corrected hinfo hsame hrank (by simp [hsame]) hinfo

end FullRouter

def announcesTo (peerId : PeerId) (actions : List RouterAction) : List Announce :=
  actions.filterMap fun
    | .sendAnnounce id ann => if id = peerId then some ann else none
    | _ => none

@[simp] theorem announcesTo_nil (peerId : PeerId) : announcesTo peerId [] = [] := rfl

@[simp] theorem announcesTo_single (peerId : PeerId) (ann : Announce) :
    announcesTo peerId [.sendAnnounce peerId ann] = [ann] := by
  simp [announcesTo]

/-- Two routers, the announcements on the connection between them, and how many corrections each has sent. -/
structure Exchange where
  x : FullRouter
  y : FullRouter
  toX : List Announce
  toY : List Announce
  fromX : Nat
  fromY : Nat

structure Ends where
  atX : PeerId
  atY : PeerId

inductive Delivery where
  | toX (now : Instant)
  | toY (now : Instant)

namespace Exchange

def start (x y : FullRouter) (ann : RouterAnnounce) : Exchange :=
  { x, y, toX := [], toY := [ann.toWire], fromX := 0, fromY := 0 }

def handleAtX (ends : Ends) (s : Exchange) (ann : Announce) (now : Instant) : FullRouter.Outcome :=
  s.x.handleAnnounce ends.atX s.y.crypto.publicKey (fromWire ann) now

def handleAtY (ends : Ends) (s : Exchange) (ann : Announce) (now : Instant) : FullRouter.Outcome :=
  s.y.handleAnnounce ends.atY s.x.crypto.publicKey (fromWire ann) now

/-- A delivery: the router handles the announcement, and its answers go back over the connection. -/
inductive Step (ends : Ends) : Exchange → Delivery → Exchange → Prop
  | toX {s : Exchange} {ann : Announce} {rest answers : List Announce} {now : Instant} {x : FullRouter} :
      s.toX = ann :: rest → (s.handleAtX ends ann now).router = x →
      announcesTo ends.atX (s.handleAtX ends ann now).actions = answers → Step ends s (.toX now)
        { s with x, toX := rest, toY := s.toY ++ answers, fromX := s.fromX + answers.length }
  | toY {s : Exchange} {ann : Announce} {rest answers : List Announce} {now : Instant} {y : FullRouter} :
      s.toY = ann :: rest → (s.handleAtY ends ann now).router = y →
      announcesTo ends.atY (s.handleAtY ends ann now).actions = answers → Step ends s (.toY now)
        { s with y, toY := rest, toX := s.toX ++ answers, fromY := s.fromY + answers.length }

/-- Two infos that neither router gives up for the other: of one version, but not the same. -/
def Clash (a b : RouterInfo) : Prop := a.version = b.version ∧ a ≠ b

instance (a b : RouterInfo) : Decidable (Clash a b) := inferInstanceAs (Decidable (_ ∧ _))

variable {a b : RouterInfo} {key : PublicKey} {y : FullRouter} {s : Exchange}

theorem Clash.symm (h : Clash a b) : Clash b a := ⟨h.1.symm, h.2.symm⟩

theorem Clash.not_lt (h : Clash a b) : ¬ a.rank < b.rank := by
  rw [rank_eq_iff.mpr h.1]
  exact lt_irrefl _

/-! ## Infos that do not clash -/

inductive Settling (key : PublicKey) (a : RouterInfo) (y : FullRouter) : Nat → Exchange → Prop
  | opening {x : FullRouter} : x.infos.lookup key = some a → Settling key a y 0 (start x y (a.getAnnounce key))
  | corrected {s : Exchange} {b : RouterInfo} : s.x.infos.lookup key = some a → a.rank < b.rank →
      s.toX = [(b.getAnnounce key).toWire] → s.toY = [] → s.fromX = 0 → s.fromY = 1 → Settling key a y 1 s
  | quiet {s : Exchange} {n : Nat} : n ≤ 2 → s.toX = [] → s.toY = [] → s.fromX = 0 → s.fromY ≤ 1 →
      Settling key a y n s

theorem Settling.step {ends : Ends} {n : Nat} {t : Exchange}
    {e : Delivery} (hclash : ∀ b, y.infos.lookup key = some b → ¬ Clash a b) (hs : Settling key a y n s)
    (h : Step ends s e t) : Settling key a y (n + 1) t := by
  cases hs with
  | @opening x hx =>
    cases h with
    | toX hflight => simp [start] at hflight
    | @toY ann rest answers now y' hflight hrouter hanswers =>
      obtain ⟨rfl, rfl⟩ := hflight
      have hhandled := y.handleAnnounce_handled ends.atY x.crypto.publicKey (a.getAnnounce key) now
      simp only [handleAtY, start, fromWire_toWire] at hrouter hanswers
      cases hhandled with
      | accepted _ hactions _ | same _ hactions _ =>
        rw [hactions, announcesTo_nil] at hanswers
        subst hanswers
        exact Settling.quiet (by omega) rfl rfl rfl (by simp [start])
      | @corrected b hb hne hrank hactions _ =>
        rw [hactions, announcesTo_single] at hanswers
        subst hanswers
        have hlt : a.rank < b.rank := by
          refine lt_of_le_of_ne (not_lt.mp hrank) fun heq => ?_
          exact hclash b hb ⟨rank_eq_iff.mp heq, Ne.symm hne⟩
        exact Settling.corrected hx hlt rfl rfl rfl rfl
  | @corrected _ b hx hlt htoX htoY hfromX hfromY =>
    cases h with
    | toY hflight => simp [htoY] at hflight
    | @toX ann rest answers now x' hflight hrouter hanswers =>
      rw [htoX, List.cons.injEq] at hflight
      obtain ⟨rfl, rfl⟩ := hflight
      have hhandled := s.x.handleAnnounce_handled ends.atX s.y.crypto.publicKey (b.getAnnounce key) now
      simp only [handleAtX, fromWire_toWire] at hrouter hanswers
      cases hhandled with
      | accepted _ hactions _ =>
        rw [hactions, announcesTo_nil] at hanswers
        subst hanswers
        exact Settling.quiet (by omega) rfl (by simp [htoY]) (by simp [hfromX]) (by simp [hfromY])
      | same hsame _ _ =>
        rw [key_getAnnounce, hx, some.injEq, info_getAnnounce] at hsame
        exact absurd hlt (hsame ▸ lt_irrefl _)
      | corrected hstored _ hrank _ _ =>
        rw [key_getAnnounce, hx, some.injEq] at hstored
        exact absurd (hstored ▸ hlt) hrank
  | quiet _ htoX htoY =>
    cases h with
    | _ => simp_all

theorem Settling.run {ends : Ends} {x : FullRouter} {es : List Delivery}
    (hclash : ∀ b, y.infos.lookup key = some b → ¬ Clash a b) (hx : x.infos.lookup key = some a)
    (h : Lts.Run (Step ends) (start x y (a.getAnnounce key)) es s) : Settling key a y es.length s := by
  generalize hstart : start x y (a.getAnnounce key) = s₀ at h
  induction h with
  | nil =>
    subst hstart
    exact Settling.opening hx
  | snoc _ he ih =>
    rw [List.length_append, List.length_singleton]
    exact ih.step hclash he

/-! ## Infos that clash -/

inductive Clashing (key : PublicKey) (a b : RouterInfo) (s : Exchange) : Prop
  | toX : s.x.infos.lookup key = some a → s.y.infos.lookup key = some b → s.toX = [(b.getAnnounce key).toWire] →
      s.toY = [] → Clashing key a b s
  | toY : s.x.infos.lookup key = some a → s.y.infos.lookup key = some b → s.toX = [] →
      s.toY = [(a.getAnnounce key).toWire] → Clashing key a b s

theorem handleAnnounce_clash {self : FullRouter} (hclash : Clash a b)
    (ha : self.infos.lookup key = some a) (peerId : PeerId) (peerKey : PublicKey) (now : Instant) :
    let o := self.handleAnnounce peerId peerKey (b.getAnnounce key) now
    announcesTo peerId o.actions = [(a.getAnnounce key).toWire] ∧ o.router.infos.lookup key = some a := by
  cases self.handleAnnounce_handled peerId peerKey (b.getAnnounce key) now with
  | accepted hlt _ _ => exact absurd (hlt a ha) hclash.not_lt
  | same hsame _ _ =>
    rw [key_getAnnounce, ha, some.injEq, info_getAnnounce] at hsame
    exact absurd hsame hclash.2
  | corrected hstored _ _ hactions hkept =>
    rw [key_getAnnounce] at hstored hactions hkept
    rw [ha, some.injEq] at hstored
    subst hstored
    exact ⟨by rw [hactions, announcesTo_single], hkept⟩

theorem Clashing.step (ends : Ends) (hclash : Clash a b)
    (hs : Clashing key a b s) : ∃ e t, Step ends s e t ∧ Clashing key a b t := by
  cases hs with
  | toX hx hy htoX htoY =>
    obtain ⟨hanswers, hkept⟩ := handleAnnounce_clash hclash hx ends.atX s.y.crypto.publicKey 0
    exact ⟨.toX 0, _, Step.toX htoX rfl hanswers, Clashing.toY hkept hy rfl (by simp [htoY])⟩
  | toY hx hy htoX htoY =>
    obtain ⟨hanswers, hkept⟩ := handleAnnounce_clash hclash.symm hy ends.atY s.x.crypto.publicKey 0
    exact ⟨.toY 0, _, Step.toY htoY rfl hanswers, Clashing.toX hx hkept (by simp [htoX]) rfl⟩

theorem Clashing.run (ends : Ends) {x : FullRouter} (hclash : Clash a b)
    (hx : x.infos.lookup key = some a) (hy : y.infos.lookup key = some b) (n : Nat) :
    ∃ es s, Lts.Run (Step ends) (start x y (a.getAnnounce key)) es s ∧ es.length = n ∧ Clashing key a b s := by
  induction n with
  | zero => exact ⟨[], _, Lts.Run.nil _, rfl, Clashing.toY hx hy rfl rfl⟩
  | succ n ih =>
    obtain ⟨es, s, hrun, hlen, hs⟩ := ih
    obtain ⟨e, t, hstep, ht⟩ := hs.step ends hclash
    exact ⟨es ++ [e], t, hrun.snoc hstep, by simp [hlen], ht⟩

/-! ## When the exchange ends -/

/-- **The exchange is finite, with at most one correction in each direction, exactly if the two infos do not clash.** -/
theorem exchange_settles_iff (ends : Ends) (x y : FullRouter) (key : PublicKey) (a : RouterInfo)
    (hx : x.infos.lookup key = some a) :
    (∀ es s, Lts.Run (Step ends) (start x y (a.getAnnounce key)) es s → es.length ≤ 3 ∧ s.fromX ≤ 1 ∧ s.fromY ≤ 1) ↔
      ∀ b, y.infos.lookup key = some b → ¬ Clash a b := by
  constructor
  · intro hfinite b hb hclash
    obtain ⟨es, s, hrun, hlen, -⟩ := Clashing.run ends hclash hx hb 4
    have := (hfinite es s hrun).1
    omega
  intro hclash es s hrun
  have hs := Settling.run hclash hx hrun
  generalize es.length = n at hs ⊢
  cases hs with
  | opening => exact ⟨by omega, by simp [start], by simp [start]⟩
  | corrected _ _ _ _ hfromX hfromY | quiet hn _ _ hfromX hfromY => omega

/-! ## An instance -/

def checksum (key : PublicKey) (message : Bytes) : Sig :=
  BitVec.ofNat 512 (message.foldl (fun h b => 257 * h + b.toNat) key.toNat)

def checksumEnv : Env := { verify := fun key message sig => sig == checksum key message, murmur3 := fun _ => 0 }

def announceAtPort (seq : UInt64) (port : PeerPort) : RouterAnnounce :=
  let bytes := sigResBytesForSig 5 3 seq 7 port
  { key := 5, parent := 3, seq, nonce := 7, port, psig := checksum 3 bytes, sig := checksum 5 bytes }

def told (key : PublicKey) (ann : RouterAnnounce) : FullRouter :=
  ((FullRouter.new ⟨key, checksum key⟩ ⟨⟨0, 0, none⟩, 0, 0⟩ 0).handleAnnounce 9 9 ann 0).router

/-- Two announcements of node 5 that differ in the port only, each with valid signatures. -/
theorem exchange_endless :
    (announceAtPort 1 1).check checksumEnv = true ∧ (announceAtPort 1 2).check checksumEnv = true ∧
      ∀ n, ∃ es s, Lts.Run (Step ⟨1, 1⟩) (start (told 1 (announceAtPort 1 1)) (told 2 (announceAtPort 1 2))
        (announceAtPort 1 1)) es s ∧ es.length = n := by
  refine ⟨by decide +kernel, by decide +kernel, fun n => ?_⟩
  have hclash : Clash (announceAtPort 1 1).info (announceAtPort 1 2).info := by decide +kernel
  have hx : (told 1 (announceAtPort 1 1)).infos.lookup 5 = some (announceAtPort 1 1).info := by decide +kernel
  have hy : (told 2 (announceAtPort 1 2)).infos.lookup 5 = some (announceAtPort 1 2).info := by decide +kernel
  obtain ⟨es, s, hrun, hlen, -⟩ := Clashing.run ⟨1, 1⟩ hclash hx hy n
  exact ⟨es, s, hrun, hlen⟩

theorem exchange_settles_newer : ¬ Clash (announceAtPort 1 1).info (announceAtPort 2 2).info ∧
      ∀ es s, Lts.Run (Step ⟨1, 1⟩) (start (told 1 (announceAtPort 1 1)) (told 2 (announceAtPort 2 2))
        (announceAtPort 1 1)) es s → es.length ≤ 3 ∧ s.fromX ≤ 1 ∧ s.fromY ≤ 1 := by
  have hx : (told 1 (announceAtPort 1 1)).infos.lookup 5 = some (announceAtPort 1 1).info := by decide +kernel
  have hy : (told 2 (announceAtPort 2 2)).infos.lookup 5 = some (announceAtPort 2 2).info := by decide +kernel
  have hclash : ¬ Clash (announceAtPort 1 1).info (announceAtPort 2 2).info := by decide +kernel
  refine ⟨hclash, (exchange_settles_iff ⟨1, 1⟩ _ _ 5 _ hx).mpr fun b hb => ?_⟩
  rw [hy, some.injEq] at hb
  exact hb ▸ hclash

end Exchange

end Yggdrasil
