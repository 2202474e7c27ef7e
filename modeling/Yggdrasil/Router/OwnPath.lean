import Yggdrasil.Router.LookupRate

/-!
# The order of the own path infos

A node answers a lookup with its coordinates, signed together with the second of the wall clock as the sequence number.
A requester drops a notify whose number is not above the one it has.
-/

namespace Yggdrasil
open Option

namespace Pathfinder
variable {s : Setting} {clk : Clock} {p q : Pathfinder} {source : PublicKey} {i j : OwnPathInfo} {now now' : Instant}

theorem perform_info (s : Setting) (clk : Clock) (p : Pathfinder) (a : Act) :
    (∃ coords, a = .answer coords ∧ (perform s clk p a).info = answerInfo clk s.crypto p coords) ∨
      (∀ coords, a ≠ .answer coords) ∧ (perform s clk p a).info = p.info := by
  have hensure : ∀ x, (p.ensureRumor x clk.now).info = p.info := by
    intro x
    unfold ensureRumor
    split <;> rfl
  cases a with
  | answer coords => exact .inl ⟨coords, rfl, rfl⟩
  | ensureRumor dest => exact .inr ⟨by simp, hensure _⟩
  | buffer tr =>
    refine .inr ⟨by simp, ?_⟩
    simp only [perform]
    split <;> exact hensure _
  | forgetSent dest =>
    refine .inr ⟨by simp, ?_⟩
    simp only [perform]
    split
    · rfl
    · exact hensure _
  | search why dest sent =>
    refine .inr ⟨by simp, ?_⟩
    simp only [perform]
    split <;> (cases why <;> rfl)
  | accept source seq path coords =>
    refine .inr ⟨by simp, ?_⟩
    simp only [perform, acceptNotify]
    split
    · split
      · rfl
      · split <;> rfl
    · split <;> rfl
  | arrive source path =>
    refine .inr ⟨by simp, ?_⟩
    have hlearn : (p.learnPathFromTraffic source path clk.now).info = p.info := by
      unfold learnPathFromTraffic
      split <;> rfl
    simp only [perform, refreshIfCoordsMatch]
    split <;> exact hlearn
  | markBroken dest | cacheTraffic tr | cleanup => exact .inr ⟨by simp, rfl⟩

structure Older (i j : OwnPathInfo) : Prop where
  le : i.seq ≤ j.seq
  lt : i.path ≠ j.path → i.seq < j.seq

theorem Older.refl (i : OwnPathInfo) : Older i i := ⟨UInt64.le_refl _, fun h => absurd rfl h⟩

theorem Older.trans {k : OwnPathInfo} (h : Older i j) (h' : Older j k) : Older i k := by
  refine ⟨UInt64.le_trans h.le h'.le, fun hne => ?_⟩
  by_cases hij : i.path = j.path
  · exact UInt64.lt_of_le_of_lt h.le (h'.lt (hij ▸ hne))
  · exact UInt64.lt_of_lt_of_le (h.lt hij) h'.le

/-! ## The requester -/

def receive (s : Setting) (source : PublicKey) (q : Pathfinder) (now : Instant) (i : OwnPathInfo) : Pathfinder :=
  (q.acceptNotify source (s.xKey source) i.seq i.path now).2.2

/-- The requester takes a notify of this number. -/
def Awaits (s : Setting) (source : PublicKey) (q : Pathfinder) (seq : UInt64) : Prop :=
  match q.paths.lookup source with
  | some info => info.seq < seq
  | none => (q.rumors.lookup (s.xKey source)).isSome

def Holds (source : PublicKey) (i j : OwnPathInfo) (q : Pathfinder) : Prop :=
  ∃ info, q.paths.lookup source = some info ∧ info.broken = false ∧ info.path = j.path ∧ info.seq < i.seq

theorem lookup_receive (s : Setting) (source : PublicKey) (q : Pathfinder) (now : Instant) (i : OwnPathInfo) :
    (receive s source q now i).paths.lookup source =
      pathAfter s ⟨now, 0⟩ (q.rumors.lookup (s.xKey source)).isSome source (q.paths.lookup source)
        (.accept source i.seq i.path []) :=
  perform_paths s ⟨now, 0⟩ q (.accept source i.seq i.path []) source

variable {info : PathInfo}

section
variable (h : q.paths.lookup source = some info)
include h

theorem getPath_eq (hbroken : info.broken = false) : q.getPath source = some info.path := by
  rw [getPath, h, filter_some, if_pos (by rw [hbroken]; rfl), map_some]

theorem receive_stale (hle : i.seq ≤ info.seq) : (receive s source q now i).paths.lookup source = some info := by
  rw [lookup_receive, h]
  simp [pathAfter, hle]

theorem receive_unchanged (hbroken : info.broken = false)
    (hpath : info.path = i.path) : (receive s source q now i).paths.lookup source = some info := by
  rw [lookup_receive, h]
  simp [pathAfter, hbroken, hpath]

theorem receive_changed (hlt : info.seq < i.seq) (hchanged : ¬ (info.broken = false ∧ info.path = i.path)) :
    ∃ info', (receive s source q now i).paths.lookup source = some info' ∧ info'.broken = false ∧
      info'.path = i.path ∧ info'.seq = i.seq := by
  rw [lookup_receive, h]
  simp only [pathAfter, if_true]
  rw [if_neg (UInt64.not_le.mpr hlt), if_neg (by simpa using hchanged)]
  exact ⟨_, rfl, rfl, rfl, rfl⟩

end

theorem receive_first (h : q.paths.lookup source = none) (hrumor : (q.rumors.lookup (s.xKey source)).isSome) :
    ∃ info', (receive s source q now i).paths.lookup source = some info' ∧ info'.broken = false ∧
      info'.path = i.path ∧ info'.seq = i.seq := by
  rw [lookup_receive, h, hrumor]
  simp only [pathAfter, if_true]
  exact ⟨_, rfl, rfl, rfl, rfl⟩

theorem receive_newest (h : q.paths.lookup source = some info) (hlt : info.seq < j.seq) :
    (receive s source q now j).getPath source = some j.path := by
  by_cases hsame : info.broken = false ∧ info.path = j.path
  · rw [getPath_eq (receive_unchanged h hsame.1 hsame.2) hsame.1, hsame.2]
  obtain ⟨info', hinfo', hbroken, hpath, -⟩ := receive_changed (s := s) h hlt hsame
  rw [getPath_eq hinfo' hbroken, hpath]

theorem receive_in_order (hlt : i.seq < j.seq) (hawaits : Awaits s source q j.seq) :
    (receive s source (receive s source q now i) now' j).getPath source = some j.path := by
  unfold Awaits at hawaits
  cases hentry : q.paths.lookup source with
  | none =>
    rw [hentry] at hawaits
    obtain ⟨info', hinfo', -, -, hseq⟩ := receive_first (i := i) hentry hawaits
    exact receive_newest hinfo' (hseq ▸ hlt)
  | some info =>
    rw [hentry] at hawaits
    by_cases hle : i.seq ≤ info.seq
    · exact receive_newest (receive_stale hentry hle) hawaits
    by_cases hsame : info.broken = false ∧ info.path = i.path
    · exact receive_newest (receive_unchanged hentry hsame.1 hsame.2) hawaits
    obtain ⟨info', hinfo', -, -, hseq⟩ := receive_changed (s := s) hentry (UInt64.not_le.mp hle) hsame
    exact receive_newest hinfo' (hseq ▸ hlt)

theorem receive_reversed (hlt : i.seq < j.seq) (hne : i.path ≠ j.path) (hawaits : Awaits s source q j.seq) :
    (receive s source (receive s source q now j) now' i).getPath source = some j.path ↔ ¬ Holds source i j q := by
  have hkept : ∀ info', (receive s source q now j).paths.lookup source = some info' → info'.broken = false →
      info'.path = j.path → i.seq ≤ info'.seq →
      (receive s source (receive s source q now j) now' i).getPath source = some j.path := by
    intro info' hinfo' hbroken hpath hle
    rw [getPath_eq (receive_stale hinfo' hle) hbroken, hpath]
  unfold Awaits at hawaits
  cases hentry : q.paths.lookup source with
  | none =>
    rw [hentry] at hawaits
    obtain ⟨info', hinfo', hbroken, hpath, hseq⟩ := receive_first (i := j) hentry hawaits
    refine iff_of_true (hkept info' hinfo' hbroken hpath (hseq ▸ UInt64.le_of_lt hlt)) ?_
    rintro ⟨info, hinfo, -⟩
    rw [hentry] at hinfo
    cases hinfo
  | some info =>
    rw [hentry] at hawaits
    by_cases hsame : info.broken = false ∧ info.path = j.path
    · have hinfo' : (receive s source q now j).paths.lookup source = some info :=
        receive_unchanged hentry hsame.1 hsame.2
      by_cases hle : i.seq ≤ info.seq
      · refine iff_of_true (hkept info hinfo' hsame.1 hsame.2 hle) ?_
        rintro ⟨_, hinfo, -, -, hold⟩
        rw [hentry] at hinfo
        cases hinfo
        exact absurd hold (UInt64.not_lt.mpr hle)
      -- the number of `j` was dropped with it, so that `i` is news
      refine iff_of_false ?_ (not_not.mpr ⟨info, hentry, hsame.1, hsame.2, UInt64.not_le.mp hle⟩)
      rw [receive_newest hinfo' (UInt64.not_le.mp hle), some.injEq]
      exact hne
    obtain ⟨info', hinfo', hbroken, hpath, hseq⟩ := receive_changed (s := s) hentry hawaits hsame
    refine iff_of_true (hkept info' hinfo' hbroken hpath (hseq ▸ UInt64.le_of_lt hlt)) ?_
    rintro ⟨_, hinfo, hworking, hcoords, -⟩
    rw [hentry] at hinfo
    cases hinfo
    exact hsame ⟨hworking, hcoords⟩

end Pathfinder

namespace FullRouter
open Pathfinder

def Ticked (p : Pathfinder) (e : Stamped) : Prop :=
  ∀ coords, e.2 = .answer coords → coords = p.info.path ∨ p.info.seq < e.1.unixSecs

abbrev Tick (s : Setting) : Pathfinder × Nat → Stamped → Pathfinder × Nat → Prop :=
  Lts.Timed (fun e : Stamped => e.1.unixSecs.toNat) (Lts.Guarded (StampedStep s) Ticked)

variable {s : Setting} {st st' : Pathfinder × Nat} {e : Stamped} {es : List Stamped}

theorem Tick.older (h : Tick s st e st') (hseq : st.1.info.seq.toNat ≤ st.2) :
    st'.1.info.seq.toNat ≤ st'.2 ∧ Older st.1.info st'.1.info := by
  obtain ⟨⟨⟨-, hperform⟩, hticked⟩, hle, htime⟩ := h
  have hnow : st.1.info.seq.toNat ≤ e.1.unixSecs.toNat := hseq.trans hle
  rw [hperform, htime]
  obtain ⟨coords, hanswer, hinfo⟩ | ⟨-, hinfo⟩ := perform_info s e.1 st.1 e.2
  · obtain ⟨hseq', hpath'⟩ := answerInfo_content e.1 s.crypto st.1 coords
    rw [hinfo]
    refine ⟨(congrArg UInt64.toNat hseq').le, hseq' ▸ UInt64.le_iff_toNat_le.mpr hnow, fun hne => ?_⟩
    rw [hpath'] at hne
    rw [hseq']
    exact (hticked coords hanswer).resolve_left (Ne.symm hne)
  rw [hinfo]
  exact ⟨hnow, Older.refl _⟩

/-- The infos only get newer in a run. -/
theorem older_of_run (h : Lts.Run (Tick s) st es st') (hseq : st.1.info.seq.toNat ≤ st.2) :
    st'.1.info.seq.toNat ≤ st'.2 ∧ Older st.1.info st'.1.info := by
  refine h.invariant (I := fun x => x.1.info.seq.toNat ≤ x.2 ∧ Older st.1.info x.1.info) ⟨hseq, Older.refl _⟩
    fun x e y hx hstep => ?_
  obtain ⟨hseq', hstep'⟩ := hstep.older hx.1
  exact ⟨hseq', hx.2.trans hstep'⟩

theorem Tick.foldl_eq (h : Lts.Run (Tick s) st es st') : es.foldl (performAt s) st.1 = st'.1 :=
  (run_eq_foldl (h.untimed.mono fun _ _ _ hstep => hstep.1)).symm

variable {env : Env} {crypto : Crypto} {config : FullConfig} {now : Instant} {calls : List Call} {w : Watched}

/-- **The infos of a node are ordered**, and so is what a requester makes of them. -/
theorem own_paths_ordered (h : (Watched.new crypto config now).execAll env calls = some w)
    (hclock : calls.Pairwise fun c d => c.clk.unixSecs ≤ d.clk.unixSecs)
    (hticked : Lts.Admitted (performAt (settingOf crypto config)) Ticked (Pathfinder.new crypto) (w.acts env))
    {pre mid post : List Stamped} (hacts : w.acts env = pre ++ mid ++ post) {i j : OwnPathInfo}
    (hi : (pre.foldl (performAt (settingOf crypto config)) (Pathfinder.new crypto)).info = i)
    (hj : ((pre ++ mid).foldl (performAt (settingOf crypto config)) (Pathfinder.new crypto)).info = j)
    (hne : i.path ≠ j.path) :
    i.seq < j.seq ∧ ∀ s source q now now', Awaits s source q j.seq →
      (receive s source (receive s source q now i) now' j).getPath source = some j.path ∧
      ((receive s source (receive s source q now j) now' i).getPath source = some j.path ↔
        ¬ Pathfinder.Holds source i j q) := by
  have hrun := hticked.guarded (fun _ _ _ hstep => hstep.2) (Watched.acted h).run
  have hsorted := Watched.acts_sorted (fun clk => clk.unixSecs.toNat) h (hclock.imp UInt64.le_iff_toNat_le.mp)
  obtain ⟨t₁, htimed, -⟩ := hrun.timed (fun e _ => Nat.zero_le _) hsorted
  rw [hacts] at htimed
  obtain ⟨later, hboth, -⟩ := htimed.of_append
  obtain ⟨earlier, hpre, hmid⟩ := hboth.of_append
  rw [Tick.foldl_eq hpre] at hi
  rw [Tick.foldl_eq hboth] at hj
  obtain ⟨hseq, -⟩ := older_of_run hpre (le_refl _)
  have hlt : i.seq < j.seq := by
    rw [← hi, ← hj] at hne ⊢
    exact (older_of_run hmid hseq).2.lt hne
  exact ⟨hlt, fun s source q now now' hawaits =>
    ⟨receive_in_order hlt hawaits, receive_reversed hlt hne hawaits⟩⟩

/-! ## A node that changes its parent -/

def turnCalls (secs : UInt64) : List Call :=
  [.addPeer (twin 1), twinChild, .maintenance false, .path (.handleLookup 7 ⟨7, 9, []⟩),
    .handleAnnounce 1 7 ⟨7, 7, 2, 0, 0, 0, 0⟩, .handleResponse 1 7 ⟨2, 0, 1, 0⟩ 5,
    .maintenance false].map (fun m => ⟨⟨0, 5⟩, fun _ => 0, m⟩) ++
    [⟨⟨0, secs⟩, fun _ => 0, .path (.handleLookup 7 ⟨7, 9, []⟩)⟩]

def turnPre : List Stamped := [(⟨0, 5⟩, .cleanup), (⟨0, 5⟩, .answer [])]

def turnMid (secs : UInt64) : List Stamped := [(⟨0, 5⟩, .cleanup), (⟨0, secs⟩, .answer [1])]

def turnSetting : Setting := settingOf ⟨9, fun _ => 0⟩ ⟨⟨60, 10, none⟩, 1000, 1000⟩

def turnInfo (es : List Stamped) : OwnPathInfo :=
    (es.foldl (performAt turnSetting) (Pathfinder.new ⟨9, fun _ => 0⟩)).info

def asker : Pathfinder := (Pathfinder.new ⟨7, fun _ => 0⟩).ensureRumor 9 0

/-- **Two infos with one number**: the requester keeps the coordinates of the first. -/
theorem own_paths_tied : ∃ w, hastyNode.execAll signingEnv (turnCalls 5) = some w ∧
    w.acts signingEnv = turnPre ++ turnMid 5 ∧
    (turnInfo turnPre).path = [] ∧ (turnInfo (turnPre ++ turnMid 5)).path = [1] ∧
    ¬ (turnInfo turnPre).seq < (turnInfo (turnPre ++ turnMid 5)).seq ∧
    (receive turnSetting 9 (receive turnSetting 9 asker 0 (turnInfo turnPre)) 0
      (turnInfo (turnPre ++ turnMid 5))).getPath 9 = some [] := by
  have hview : (hastyNode.execAll signingEnv (turnCalls 5)).map (fun w => w.acts signingEnv) =
      some (turnPre ++ turnMid 5) := by
    decide +kernel
  obtain ⟨w, hw, hacts⟩ := map_eq_some_iff.mp hview
  exact ⟨w, hw, hacts, by decide +kernel, by decide +kernel, by decide +kernel, by decide +kernel⟩

theorem own_paths_ordered_turn : ∃ w, hastyNode.execAll signingEnv (turnCalls 6) = some w ∧
    w.acts signingEnv = turnPre ++ turnMid 6 ∧
    (receive turnSetting 9 (receive turnSetting 9 asker 0 (turnInfo (turnPre ++ turnMid 6))) 0
      (turnInfo turnPre)).getPath 9 = some [1] := by
  have hview : (hastyNode.execAll signingEnv (turnCalls 6)).map (fun w => w.acts signingEnv) =
      some (turnPre ++ turnMid 6) := by
    decide +kernel
  obtain ⟨w, hw, hacts⟩ := map_eq_some_iff.mp hview
  have hticked : Lts.Admitted (performAt turnSetting) Ticked (Pathfinder.new ⟨9, fun _ => 0⟩)
      (turnPre ++ turnMid 6) := by
    refine ⟨by simp [Ticked], fun coords h => ?_, by simp [Ticked], fun coords h => ?_, trivial⟩
    · cases h
      exact .inl (by decide +kernel)
    cases h
    exact .inr (by decide +kernel)
  have hsplit : w.acts signingEnv = turnPre ++ turnMid 6 ++ [] := by rw [hacts, List.append_nil]
  obtain ⟨-, hrequester⟩ := own_paths_ordered (i := turnInfo turnPre) (j := turnInfo (turnPre ++ turnMid 6)) hw
    (by simp [turnCalls]) (by rw [hacts]; exact hticked) hsplit rfl rfl (by decide +kernel)
  have hawaits : Awaits turnSetting 9 asker (turnInfo (turnPre ++ turnMid 6)).seq := by
    show (asker.rumors.lookup (turnSetting.xKey 9)).isSome = true
    decide +kernel
  have hpath : (turnInfo (turnPre ++ turnMid 6)).path = [1] := by decide +kernel
  refine ⟨w, hw, hacts, ?_⟩
  rw [(hrequester turnSetting 9 asker 0 0 hawaits).2.mpr, hpath]
  rintro ⟨info, hinfo, -⟩
  cases hinfo

end FullRouter

end Yggdrasil
