import Yggdrasil.Router.PeerIds

/-!
# The smoothed latency of a connection

`handle_response` keeps seven eighths of the old latency and adds an eighth of the new round trip, at most twice the old
latency; both are rounded down to nanoseconds. A latency that is not measured yet is `UNKNOWN_LATENCY`.
-/

namespace Yggdrasil.FullRouter
open List Option HashMap Duration

/-! ## Runs -/

def lag (self : FullRouter) (id : PeerId) : Duration := (self.lags.lookup id).getD UNKNOWN_LATENCY

def sample (self : FullRouter) (id : PeerId) (call : Call) : Option Duration :=
  match call.msg with
  | .handleResponse peerId key res rtt =>
    if peerId = id ∧ id ∉ self.responded ∧ self.reqMatch key res = true then some rtt else none
  | _ => none

def samples (env : Env) (id : PeerId) : FullRouter → List Call → List Duration
  | _, [] => []
  | self, call :: calls =>
    (self.sample id call).toList ++ (self.exec env call).elim [] fun o => samples env id o.router calls

def Call.Keeps (id : PeerId) (call : Call) : Prop :=
  (∀ entry, call.msg = .addPeer entry → entry.id ≠ id) ∧
    ∀ peerId key port, call.msg = .removePeer peerId key port → peerId ≠ id

section Run
variable {self r r' : FullRouter} {env : Env} {id peerId : PeerId} {key : PublicKey} {res : SigRes} {rtt : Duration}

theorem lag_recordLag {reqMatch : Bool} : (self.recordLag peerId rtt reqMatch).lag id =
    if peerId = id ∧ id ∉ self.responded ∧ reqMatch = true then newLag (self.lag id) rtt else self.lag id := by
  unfold recordLag
  by_cases hid : peerId = id
  · subst hid
    by_cases hfirst : peerId ∉ self.responded ∧ reqMatch = true
    · rw [if_pos (by simp [hfirst]), if_pos ⟨rfl, hfirst⟩]
      unfold lag
      rw [lookup_insert, if_pos rfl]
      rfl
    · rw [if_neg (by simpa using hfirst), if_neg (by simpa using hfirst)]
  rw [if_neg (show ¬ (peerId = id ∧ id ∉ self.responded ∧ reqMatch = true) from fun h => hid h.1)]
  split
  · unfold lag
    rw [lookup_insert, if_neg (Ne.symm hid)]
  · rfl

theorem handleResponse_eq_recordLag (self : FullRouter) (peerId : PeerId) (key : PublicKey) (res : SigRes)
    (rtt : Duration) :
    ∃ mid : FullRouter, mid.lags = self.lags ∧ mid.responded = self.responded ∧
      self.handleResponse peerId key res rtt = mid.recordLag peerId rtt (self.reqMatch key res) := by
  refine ⟨_, ?_, ?_, rfl⟩ <;>
  · unfold storeResponse recordRtt
    split <;> split <;> rfl

theorem lag_handleResponse (self : FullRouter) (id : PeerId) {call : Call}
    (hmsg : call.msg = .handleResponse peerId key res rtt) :
    (self.handleResponse peerId key res rtt).lag id = (self.sample id call).toList.foldl newLag (self.lag id) := by
  obtain ⟨mid, hlags, hresponded, hmid⟩ := self.handleResponse_eq_recordLag peerId key res rtt
  have hlag : mid.lag id = self.lag id := by
    unfold lag
    rw [hlags]
  rw [hmid, lag_recordLag, hlag, hresponded]
  unfold sample
  rw [hmsg]
  dsimp only
  split <;> rfl

theorem lag_step {call : Call} (h : Step env r call r') (hkeeps : call.Keeps id) :
    r'.lag id = (r.sample id call).toList.foldl newLag (r.lag id) := by
  by_cases hresponse : ∃ peerId key res rtt, call.msg = .handleResponse peerId key res rtt
  · obtain ⟨peerId, key, res, rtt, hmsg⟩ := hresponse
    obtain ⟨o, ho, rfl⟩ := map_eq_some_iff.mp h
    unfold exec at ho
    rw [hmsg] at ho
    cases ho
    exact r.lag_handleResponse id hmsg
  have hnone : r.sample id call = none := by
    unfold sample
    split
    next peerId key res rtt hmsg => exact absurd ⟨peerId, key, res, rtt, hmsg⟩ hresponse
    · rfl
  rw [hnone]
  show r'.lag id = r.lag id
  unfold lag
  cases h.connects with
  | addPeer entry hmsg ho heq =>
    rw [heq, (addPeer_ids ho).1, lookup_insert, if_neg (Ne.symm (hkeeps.1 entry hmsg))]
  | removePeer peerId key port hmsg heq =>
    rw [heq, (removePeer_ids r peerId key port).1, lookup_remove, if_neg (Ne.symm (hkeeps.2 peerId key port hmsg))]
  | handleResponse peerId key res rtt hmsg => exact absurd ⟨peerId, key, res, rtt, hmsg⟩ hresponse
  | other hsame => rw [hsame.lags]

theorem lag_run {calls : List Call} : ∀ {r : FullRouter}, r.execAll env calls = some r' →
    (∀ call ∈ calls, call.Keeps id) → r'.lag id = (samples env id r calls).foldl newLag (r.lag id) := by
  induction calls with
  | nil =>
    intro r h _
    cases h
    rfl
  | cons call calls ih =>
    intro r h hkeeps
    unfold execAll at h
    obtain ⟨mid, hstep, hrest⟩ := bind_eq_some_iff.mp h
    obtain ⟨o, ho, rfl⟩ := map_eq_some_iff.mp hstep
    have hsamples : samples env id r (call :: calls) = (r.sample id call).toList ++ samples env id o.router calls := by
      rw [samples, ho]
      rfl
    rw [ih hrest fun c hc => hkeeps c (mem_cons_of_mem _ hc),
      lag_step hstep (hkeeps call mem_cons_self), ← foldl_append, hsamples]

end Run

/-! ## Round trips between `r` and `2 * r` -/

def Settled (r lag : Nat) : Prop := r ≤ 2 * lag ∧ lag ≤ 3 * r

instance Settled.decidable (r lag : Nat) : Decidable (Settled r lag) := inferInstanceAs (Decidable (_ ∧ _))

def gap (r lag : Nat) : Nat := (r - 2 * lag) + (lag - 3 * r)

/-- Round trips between `r` and twice `r`. -/
def Steady (r : Nat) (rtts : List Duration) : Prop := ∀ rtt ∈ rtts, r ≤ rtt ∧ rtt ≤ 2 * r

instance Steady.decidable (r : Nat) (rtts : List Duration) : Decidable (Steady r rtts) :=
  inferInstanceAs (Decidable (∀ rtt ∈ rtts, r ≤ rtt ∧ rtt ≤ 2 * r))

def Recognised : Duration → List Duration → Prop
  | _, [] => True
  | lag, rtt :: rtts => (rtts = [] ∨ newLag lag rtt ≠ UNKNOWN_LATENCY) ∧ Recognised (newLag lag rtt) rtts

def smooth (lag rtt : Nat) : Nat := lag * 7 / 8 + min rtt (lag * 2) / 8

section Smoothing
variable {r lag rtt : Nat} {rtts : List Duration}

theorem newLag_known (hknown : lag ≠ UNKNOWN_LATENCY) (rtt : Nat) : newLag lag rtt = smooth lag rtt := if_neg hknown

theorem newLag_unknown (rtt : Nat) : newLag UNKNOWN_LATENCY rtt = rtt * 2 := if_pos rfl

theorem settled_iff : Settled r lag ↔ gap r lag = 0 := by
  unfold Settled gap
  omega

theorem lt_grown (hlag : 12 ≤ lag) : lag < lag * 7 / 8 + lag * 2 / 8 := by
  by_cases hsmall : lag ≤ 14
  · obtain rfl | rfl | rfl : lag = 12 ∨ lag = 13 ∨ lag = 14 := by omega
    all_goals decide
  · omega

theorem gap_smooth (hr : 1000000 ≤ r) (hlag : 12 ≤ lag) (hlow : r ≤ rtt) (hhigh : rtt ≤ 2 * r) :
    12 ≤ smooth lag rtt ∧ gap r (smooth lag rtt) ≤ gap r lag - 1 := by
  unfold smooth gap
  by_cases hshort : 2 * lag < r
  · have hgrown := lt_grown hlag
    omega
  have hmin : r ≤ min rtt (lag * 2) := by omega
  have hmin' : min rtt (lag * 2) ≤ 2 * r := by omega
  omega

theorem gap_twice (hr : 1000000 ≤ r) (hlow : r ≤ rtt) (hhigh : rtt ≤ 2 * r) : 12 ≤ rtt * 2 ∧ gap r (rtt * 2) ≤ r := by
  unfold gap
  omega

theorem smooth_lt (hlag : lag < 12) (rtt : Nat) : smooth lag rtt < 12 := by
  have hfull : ∀ lag < 12, lag * 7 / 8 + lag * 2 / 8 < 12 := by decide
  unfold smooth
  have := hfull lag hlag
  omega

theorem ne_unknown_of_lt (hlag : lag < 12) : lag ≠ UNKNOWN_LATENCY := by
  rintro rfl
  exact absurd hlag (by decide)

theorem gap_foldl (hr : 1000000 ≤ r) : ∀ {lag : Nat}, 12 ≤ lag → (rtts = [] ∨ lag ≠ UNKNOWN_LATENCY) →
    Recognised lag rtts → Steady r rtts → gap r (rtts.foldl newLag lag) ≤ gap r lag - rtts.length := by
  induction rtts with
  | nil => exact fun _ _ _ _ => Nat.le_refl _
  | cons rtt rtts ih =>
    intro lag hlag hknown hrec hsteady
    have hne := hknown.resolve_left (by simp)
    obtain ⟨hlow, hhigh⟩ := hsteady rtt mem_cons_self
    obtain ⟨hlag', hgap⟩ := gap_smooth hr hlag hlow hhigh
    obtain ⟨hknown', hrec'⟩ := hrec
    rw [newLag_known hne] at hknown' hrec'
    have hrest := ih hlag' hknown' hrec' fun t ht => hsteady t (mem_cons_of_mem _ ht)
    rw [foldl_cons, newLag_known hne, length_cons]
    omega

/-- Enough steady round trips settle the latency. -/
theorem settled_foldl (hr : 1000000 ≤ r) (hlag : 12 ≤ lag) (hrec : Recognised lag rtts) (hsteady : Steady r rtts)
    (hlong : lag + r + 1 ≤ rtts.length) : Settled r (rtts.foldl newLag lag) := by
  rw [settled_iff]
  cases rtts with
  | nil =>
    rw [length_nil] at hlong
    omega
  | cons rtt rtts =>
    obtain ⟨hlow, hhigh⟩ := hsteady rtt mem_cons_self
    obtain ⟨hknown, hrec'⟩ := hrec
    -- the first response may find the latency unknown, the others do not
    have hfirst : 12 ≤ newLag lag rtt ∧ gap r (newLag lag rtt) ≤ lag + r := by
      by_cases hne : lag = UNKNOWN_LATENCY
      · have htwice := gap_twice hr hlow hhigh
        rw [hne, newLag_unknown]
        exact ⟨htwice.1, htwice.2.trans (Nat.le_add_left _ _)⟩
      rw [newLag_known hne]
      have hsmooth := gap_smooth hr hlag hlow hhigh
      refine ⟨hsmooth.1, hsmooth.2.trans ?_⟩
      unfold gap
      omega
    have hrest := gap_foldl hr hfirst.1 hknown hrec' fun t ht => hsteady t (mem_cons_of_mem _ ht)
    rw [length_cons] at hlong
    rw [foldl_cons]
    omega

theorem stuck_foldl (rtts : List Duration) :
    ∀ {lag : Nat}, lag < 12 → rtts.foldl newLag lag < 12 ∧ Recognised lag rtts := by
  induction rtts with
  | nil => exact fun hlag => ⟨hlag, trivial⟩
  | cons rtt rtts ih =>
    intro lag hlag
    have hnext := smooth_lt hlag rtt
    have hnew := newLag_known (ne_unknown_of_lt hlag) rtt
    obtain ⟨hfold, hrec⟩ := ih hnext
    rw [foldl_cons, Recognised, hnew]
    exact ⟨hfold, Or.inr (ne_unknown_of_lt hnext), hrec⟩

theorem foldl_zero (rtts : List Duration) : rtts.foldl newLag 0 = 0 := by
  induction rtts with
  | nil => rfl
  | cons rtt rtts ih =>
    have hzero : newLag 0 rtt = 0 := by
      rw [newLag_known (by decide)]
      simp [smooth]
    rw [foldl_cons, hzero, ih]

end Smoothing

theorem toNat_cost {n : Nat} (h : n < 2 ^ 64) : (if n.toUInt64 = 0 then 1 else n.toUInt64).toNat = max 1 n := by
  have hn : n.toUInt64.toNat = n := Nat.mod_eq_of_lt h
  split
  next hzero =>
    rw [hzero] at hn
    rw [← hn]
    rfl
  next hpos =>
    have : n ≠ 0 := by
      rintro rfl
      exact hpos rfl
    omega

theorem getCost_settled {self : FullRouter} {id : PeerId} {r : Nat} (hr : 1000000 ≤ r)
    (hfits : 3 * r < 2 ^ 64 * 1000000) (h : Settled r (self.lag id)) :
    r / 2 / 1000000 ≤ (self.getCost id).toNat ∧ (self.getCost id).toNat ≤ 3 * r / 1000000 := by
  obtain ⟨hlow, hhigh⟩ := h
  have hlt : self.lag id / 1000000 < 2 ^ 64 := Nat.div_lt_of_lt_mul (by omega)
  have hcost : (self.getCost id).toNat = max 1 (self.lag id / 1000000) := toNat_cost hlt
  omega

/-- Exactly the latencies of 12 ns or more recover, whatever the responses of a link with a latency of `r` are. -/
theorem lag_recovers_iff (env : Env) (start : FullRouter) (id : PeerId) {r : Duration}
    (hr : Duration.fromMillis 1 ≤ r) :
    (∀ calls r', start.execAll env calls = some r' → (∀ call ∈ calls, call.Keeps id) →
      r'.lag id = (samples env id start calls).foldl newLag (start.lag id)) ∧
    ((∃ n, ∀ rtts, Steady r rtts → Recognised (start.lag id) rtts → n ≤ rtts.length →
        Settled r (rtts.foldl newLag (start.lag id))) ↔ 12 ≤ start.lag id) ∧
    (12 ≤ start.lag id → ∀ calls r', start.execAll env calls = some r' → (∀ call ∈ calls, call.Keeps id) →
      Steady r (samples env id start calls) → Recognised (start.lag id) (samples env id start calls) →
      start.lag id + r + 1 ≤ (samples env id start calls).length →
      Settled r (r'.lag id) ∧ (3 * r < 2 ^ 64 * Duration.fromMillis 1 →
        r / 2 / Duration.fromMillis 1 ≤ (r'.getCost id).toNat ∧
          (r'.getCost id).toNat ≤ 3 * r / Duration.fromMillis 1)) := by
  refine ⟨fun calls r' hrun hkeeps => lag_run hrun hkeeps, ⟨?_, ?_⟩, ?_⟩
  · rintro ⟨n, hn⟩
    by_contra hlag
    obtain ⟨hstuck, hrec⟩ := stuck_foldl (List.replicate n r) (Nat.lt_of_not_le hlag)
    have hsteady : Steady r (List.replicate n r) := by
      intro rtt hrtt
      rw [eq_of_mem_replicate hrtt]
      exact ⟨Nat.le_refl r, Nat.le_mul_of_pos_left r (by decide)⟩
    have hsettled := (hn _ hsteady hrec (by rw [length_replicate])).1
    have hsmall : r ≤ 22 := hsettled.trans (Nat.mul_le_mul_left 2 (Nat.le_of_lt_succ hstuck))
    exact absurd (hr.trans hsmall) (by decide)
  · exact fun hlag => ⟨start.lag id + r + 1, fun rtts hsteady hrec hlong => settled_foldl hr hlag hrec hsteady hlong⟩
  intro hlag calls r' hrun hkeeps hsteady hrec hlong
  have hsettled : Settled r (r'.lag id) := by
    rw [lag_run hrun hkeeps]
    exact settled_foldl hr hlag hrec hsteady hlong
  exact ⟨hsettled, fun hfits => getCost_settled hr hfits hsettled⟩

theorem lag_recovers_new : ∃ n, ∀ rtts, Steady (Duration.fromMillis 1) rtts →
    Recognised ((new ⟨9, fun _ => 0⟩ ⟨⟨0, 0, none⟩, 0, 0⟩ 0).lag 1) rtts → n ≤ rtts.length →
    Settled (Duration.fromMillis 1) (rtts.foldl newLag ((new ⟨9, fun _ => 0⟩ ⟨⟨0, 0, none⟩, 0, 0⟩ 0).lag 1)) :=
  (lag_recovers_iff signingEnv (new ⟨9, fun _ => 0⟩ ⟨⟨0, 0, none⟩, 0, 0⟩ 0) 1 (Nat.le_refl _)).2.1.mpr (by decide)

/-! ## Latencies that do not recover -/

def untimedCalls : List Call :=
  [quietCall (.addPeer (twin 1)), quietCall (.handleResponse 1 7 ⟨1, 0, 1, 0⟩ 0), quietCall .forceRefresh]

def mistakenRtts : List Duration :=
  [4294967296, 2147483648, 2147483648, 2147483648, 2147483648, 2147483648, 2147483648, 2147483648,
    2147483648, 3831567736]

/-- An untimed response leaves the latency at zero for good; one measured as `UNKNOWN_LATENCY` is set to twice
the next round trip, again and again. -/
theorem lag_stuck : (∃ r, twinNode.execAll signingEnv untimedCalls = some r ∧ r.lag 1 = 0 ∧
      (r.sample 1 (quietCall (.handleResponse 1 7 ⟨2, 0, 1, 0⟩ (Duration.fromMillis 1)))) =
        some (Duration.fromMillis 1) ∧
      ∀ calls r', r.execAll signingEnv calls = some r' → (∀ call ∈ calls, call.Keeps 1) → r'.lag 1 = 0) ∧
    Steady 2147483648 mistakenRtts ∧ mistakenRtts.foldl newLag UNKNOWN_LATENCY = UNKNOWN_LATENCY ∧
    ¬ Settled 2147483648 ((mistakenRtts.take 1).foldl newLag UNKNOWN_LATENCY) := by
  refine ⟨?_, by decide, by decide, by decide⟩
  obtain ⟨r, hr, -⟩ := (bookkept_new ⟨9, fun _ => 0⟩ ⟨⟨0, 0, none⟩, 0, 0⟩ 0).execAll signingEnv untimedCalls
  have hzero : r.lag 1 = 0 := Lts.read_eq (fun r => r.lag 1) hr rfl
  have hsample := Lts.read_eq (fun r => r.sample 1 (quietCall (.handleResponse 1 7 ⟨2, 0, 1, 0⟩ (fromMillis 1))))
    hr rfl
  refine ⟨r, hr, hzero, hsample, fun calls r' hrun hkeeps => ?_⟩
  rw [lag_run hrun hkeeps, hzero]
  exact foldl_zero _

end Yggdrasil.FullRouter
