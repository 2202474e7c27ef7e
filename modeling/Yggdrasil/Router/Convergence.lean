import Mathlib.Data.Prod.Lex
import Yggdrasil.Base.Register
import Yggdrasil.Router.Tree

/-!
# Convergence of the tree state

`update` keeps, for each key, the info with the largest sequence number, then the smallest parent, then the smallest
nonce.
-/

namespace Yggdrasil
open List Option Register OrderDual

namespace RouterInfo

def version (info : RouterInfo) : UInt64 × PublicKey × UInt64 := (info.seq, info.parent, info.nonce)

/-- `a` has the larger seq, then the smaller parent, then the smaller nonce, or the same three. -/
def Leads (a b : RouterInfo) : Prop :=
  b.seq < a.seq ∨ b.seq = a.seq ∧ (a.parent < b.parent ∨ a.parent = b.parent ∧ a.nonce ≤ b.nonce)

def rank (info : RouterInfo) : ℕ ×ₗ ℕᵒᵈ ×ₗ ℕᵒᵈ :=
  toLex (info.seq.toNat, toLex (toDual info.parent.toNat, toDual info.nonce.toNat))

variable {a b : RouterInfo}

theorem rank_lt_iff : a.rank < b.rank ↔
      a.seq < b.seq ∨ a.seq = b.seq ∧ (b.parent < a.parent ∨ b.parent = a.parent ∧ b.nonce < a.nonce) := by
  simp only [rank, Prod.Lex.toLex_lt_toLex, toDual_lt_toDual, toDual_inj, UInt64.lt_iff_toNat_lt,
    ← UInt64.toNat_inj, BitVec.lt_def, ← BitVec.toNat_inj, eq_comm]

theorem rank_eq_iff : a.rank = b.rank ↔ a.version = b.version := by
  simp only [rank, version, toLex_inj, Prod.mk.injEq, toDual_inj, UInt64.toNat_inj, BitVec.toNat_inj]

theorem rank_le_iff : a.rank ≤ b.rank ↔ b.Leads a := by
  rw [le_iff_lt_or_eq, rank_lt_iff, rank_eq_iff]
  simp only [version, Prod.mk.injEq, Leads, UInt64.le_iff_lt_or_eq]
  grind

end RouterInfo

theorem RouterAnnounce.supersedes_iff {ann : RouterAnnounce} {info : RouterInfo} :
    ann.supersedes info = true ↔ info.rank < ann.info.rank := by
  rw [RouterInfo.rank_lt_iff, RouterAnnounce.supersedes]
  simp only [RouterAnnounce.info, BitVec.lt_def, ← BitVec.toNat_inj]
  grind

namespace Router

def receive (self : Router) (anns : List (RouterAnnounce × Instant)) : Router :=
  anns.foldl (fun r a => (r.update a.1 a.2).2) self

def announced (k : PublicKey) (anns : List RouterAnnounce) : List RouterInfo :=
  (anns.filter fun ann => ann.key = k).map RouterAnnounce.info

variable {k : PublicKey} {self : Router} {anns : List (RouterAnnounce × Instant)}

theorem mem_announced {anns : List RouterAnnounce} {info : RouterInfo} :
    info ∈ announced k anns ↔ ∃ ann ∈ anns, ann.key = k ∧ ann.info = info := by
  simp only [announced, List.mem_map, List.mem_filter, decide_eq_true_eq, and_assoc]

theorem lookup_infos_update (self : Router) (ann : RouterAnnounce) (now : Instant) (k : PublicKey) :
    (self.update ann now).2.infos.lookup k =
      if k = ann.key then Register.offer RouterInfo.rank (self.infos.lookup k) ann.info else self.infos.lookup k := by
  have hacc : (self.infos.lookup ann.key).all ann.supersedes =
      (self.infos.lookup ann.key).all fun a => decide (a.rank < ann.info.rank) := by
    congr 1
    funext info
    rw [Bool.eq_iff_iff, RouterAnnounce.supersedes_iff, decide_eq_true_eq]
  rw [update, hacc, Register.offer]
  by_cases hk : k = ann.key
  · subst hk
    split <;> simp_all [HashMap.lookup_insert]
  · split <;> simp [hk, HashMap.lookup_insert]

theorem lookup_infos_receive (anns : List (RouterAnnounce × Instant)) (self : Router) (k : PublicKey) :
    (self.receive anns).infos.lookup k =
      Register.offers RouterInfo.rank (self.infos.lookup k) (announced k (anns.map Prod.fst)) := by
  induction anns generalizing self with
  | nil => rfl
  | cons a anns ih =>
    show ((self.update a.1 a.2).2.receive anns).infos.lookup k = _
    rw [ih, lookup_infos_update]
    by_cases hk : a.1.key = k
    · simp [announced, hk]
    · simp [announced, hk, Ne.symm hk]

/-- What is stored leads all that was received. -/
theorem receive_leads {info : RouterInfo} (h : (self.receive anns).infos.lookup k = some info) :
    (self.infos.lookup k = some info ∨ info ∈ announced k (anns.map Prod.fst)) ∧
      (∀ c, self.infos.lookup k = some c → info.Leads c) ∧ ∀ c ∈ announced k (anns.map Prod.fst), info.Leads c := by
  rw [lookup_infos_receive] at h
  refine ⟨?_, ?_, ?_⟩
  · rcases offers_cases RouterInfo.rank (announced k (anns.map Prod.fst)) (self.infos.lookup k) with
      heq | ⟨x, hmem, heq, -⟩
    · exact Or.inl (heq.symm.trans h)
    rw [heq, some.injEq] at h
    exact Or.inr (h ▸ hmem)
  · intro c hc
    have hle := level_le_offers RouterInfo.rank (announced k (anns.map Prod.fst)) (self.infos.lookup k)
    rw [h, hc, level_some, level_some, WithBot.coe_le_coe] at hle
    exact RouterInfo.rank_le_iff.mp hle
  intro c hc
  have hle := rank_le_offers RouterInfo.rank hc (self.infos.lookup k)
  rw [h, level_some, WithBot.coe_le_coe] at hle
  exact RouterInfo.rank_le_iff.mp hle

theorem receive_eq_none (h : (self.receive anns).infos.lookup k = none) :
    self.infos.lookup k = none ∧ announced k (anns.map Prod.fst) = [] := by
  rw [lookup_infos_receive] at h
  refine ⟨?_, eq_nil_iff_forall_not_mem.mpr fun c hc => ?_⟩
  · have hle := level_le_offers RouterInfo.rank (announced k (anns.map Prod.fst)) (self.infos.lookup k)
    rw [h, level_none, le_bot_iff] at hle
    cases hl : self.infos.lookup k with
    | none => rfl
    | some c =>
      rw [hl, level_some] at hle
      exact absurd hle WithBot.coe_ne_bot
  have hle := rank_le_offers RouterInfo.rank hc (self.infos.lookup k)
  rw [h, level_none, le_bot_iff] at hle
  exact WithBot.coe_ne_bot hle

theorem version_receive_perm (self : Router) {xs ys : List (RouterAnnounce × Instant)}
    (h : (xs.map Prod.fst).Perm (ys.map Prod.fst)) (k : PublicKey) :
    ((self.receive xs).infos.lookup k).map RouterInfo.version =
      ((self.receive ys).infos.lookup k).map RouterInfo.version := by
  have hlevel := level_offers_perm RouterInfo.rank ((h.filter fun ann => ann.key = k).map RouterAnnounce.info)
    (self.infos.lookup k)
  rw [lookup_infos_receive, lookup_infos_receive]
  change Register.level RouterInfo.rank (Register.offers _ _ (announced k _)) =
    Register.level RouterInfo.rank (Register.offers _ _ (announced k _)) at hlevel
  generalize Register.offers RouterInfo.rank (self.infos.lookup k) (announced k (xs.map Prod.fst)) = x at hlevel ⊢
  generalize Register.offers RouterInfo.rank (self.infos.lookup k) (announced k (ys.map Prod.fst)) = y at hlevel ⊢
  cases x with
  | none =>
    cases y with
    | none => rfl
    | some b => exact absurd hlevel.symm WithBot.coe_ne_bot
  | some a =>
    cases y with
    | none => exact absurd hlevel WithBot.coe_ne_bot
    | some b => rw [map_some, map_some, RouterInfo.rank_eq_iff.mp (WithBot.coe_injective hlevel)]

theorem infos_receive_perm (self : Router) {xs ys : List (RouterAnnounce × Instant)}
    (h : (xs.map Prod.fst).Perm (ys.map Prod.fst))
    (hties : ∀ a ∈ xs.map Prod.fst, ∀ b ∈ xs.map Prod.fst, a.key = b.key → a.info.version = b.info.version → a = b)
    (k : PublicKey) : (self.receive xs).infos.lookup k = (self.receive ys).infos.lookup k := by
  rw [lookup_infos_receive, lookup_infos_receive]
  refine offers_perm RouterInfo.rank ((h.filter fun ann => ann.key = k).map RouterAnnounce.info) ?_ _
  intro x hx y hy hrank
  obtain ⟨a, ha, hak, rfl⟩ := mem_announced.mp hx
  obtain ⟨b, hb, hbk, rfl⟩ := mem_announced.mp hy
  rw [hties a ha b hb (hak.trans hbk.symm) (RouterInfo.rank_eq_iff.mp hrank)]

theorem update_applied {ann : RouterAnnounce} (h : ann ∈ anns.map Prod.fst) (now : Instant) :
    (self.receive anns).update ann now = (false, self.receive anns) := by
  have hle := rank_le_offers RouterInfo.rank (mem_announced.mpr ⟨ann, h, rfl, rfl⟩)
    (self.infos.lookup ann.key)
  rw [← lookup_infos_receive] at hle
  rw [update, if_neg]
  intro hall
  cases hl : (self.receive anns).infos.lookup ann.key with
  | none =>
    rw [hl, level_none, le_bot_iff] at hle
    exact WithBot.coe_ne_bot hle
  | some info =>
    rw [hl, level_some, WithBot.coe_le_coe] at hle
    rw [hl, all_some, RouterAnnounce.supersedes_iff] at hall
    exact absurd hle (not_le.mpr hall)

/-- Two orders of the same announcements leave every key with the same `(seq, parent, nonce)`: that of the largest seq,
then the smallest parent, then the smallest nonce; and with the same infos, if announcements that agree on these are
equal. An announcement that was applied is refused from then on. -/
theorem update_converges (self : Router) (xs ys : List (RouterAnnounce × Instant))
    (h : (xs.map Prod.fst).Perm (ys.map Prod.fst)) : (∀ k, ((self.receive xs).infos.lookup k).map RouterInfo.version =
      ((self.receive ys).infos.lookup k).map RouterInfo.version) ∧
    (∀ k, match (self.receive xs).infos.lookup k with
      | some info =>
        (self.infos.lookup k = some info ∨ info ∈ announced k (xs.map Prod.fst)) ∧
          (∀ c, self.infos.lookup k = some c → info.Leads c) ∧ ∀ c ∈ announced k (xs.map Prod.fst), info.Leads c
      | none => self.infos.lookup k = none ∧ announced k (xs.map Prod.fst) = []) ∧
    ((∀ a ∈ xs.map Prod.fst, ∀ b ∈ xs.map Prod.fst, a.key = b.key → a.info.version = b.info.version → a = b) →
      ∀ k, (self.receive xs).infos.lookup k = (self.receive ys).infos.lookup k) ∧
    ∀ ann ∈ xs.map Prod.fst, ∀ now, (self.receive xs).update ann now = (false, self.receive xs) := by
  refine ⟨self.version_receive_perm h, fun k => ?_, self.infos_receive_perm h, fun ann hann now =>
    update_applied hann now⟩
  split
  next hl => exact receive_leads hl
  next hl => exact receive_eq_none hl

def announceVia (parent : PublicKey) : RouterAnnounce :=
  { key := 5, parent, seq := 1, nonce := 7, port := 1, psig := 0, sig := 0 }

theorem update_converges_smallerParent :
    ((new ⟨1, fun _ => 0⟩ ⟨0, 0, none⟩).receive [(announceVia 3, 0), (announceVia 2, 1)]).infos.lookup 5 =
        some (announceVia 2).info ∧
      ((new ⟨1, fun _ => 0⟩ ⟨0, 0, none⟩).receive [(announceVia 3, 0), (announceVia 2, 1)]).infos.lookup 5 =
        ((new ⟨1, fun _ => 0⟩ ⟨0, 0, none⟩).receive [(announceVia 2, 0), (announceVia 3, 1)]).infos.lookup 5 := by
  have h := update_converges (new ⟨1, fun _ => 0⟩ ⟨0, 0, none⟩) [(announceVia 3, 0), (announceVia 2, 1)]
    [(announceVia 2, 0), (announceVia 3, 1)] (List.Perm.swap _ _ _)
  exact ⟨by decide +kernel, h.2.2.1 (by decide +kernel) 5⟩

end Router

end Yggdrasil
