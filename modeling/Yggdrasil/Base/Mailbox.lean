import Mathlib.Data.List.Pairwise
import Mathlib.Data.List.Perm.Basic

/-!
# Bounded channels

A channel of several senders and one receiver, with room for `capacity` messages. A sender that finds it full leaves its
message to a task of its own; tasks wait first come first served. When a message is taken, its room goes to the first of
them. It enters its message when it runs again, and until then other messages may enter before it.
-/

/-- A message; `deferred` if it was left to a task. -/
structure Letter (α : Type*) where
  number : Nat
  deferred : Bool
  body : α

def Letter.direct {α : Type*} (l : Letter α) : Bool := !l.deferred

structure Mailbox (α : Type*) where
  capacity : Nat
  closed : Bool
  queue : List (Letter α)
  spawned : List (Letter α)
  waiting : List (Letter α)
  granted : List (Letter α)
  issued : List (Letter α)
  entered : List (Letter α)
  taken : List (Letter α)
  dropped : List (Letter α)

namespace Mailbox
open List
variable {α : Type*}

def new (capacity : Nat) : Mailbox α :=
  { capacity, closed := false, queue := [], spawned := [], waiting := [], granted := [], issued := [], entered := []
    taken := [], dropped := [] }

variable (m : Mailbox α)

def tasks : List (Letter α) := m.spawned ++ m.waiting ++ m.granted

def hasRoom : Bool := decide (m.queue.length + m.granted.length < m.capacity)

def next (deferred : Bool) (x : α) : Letter α := { number := m.issued.length, deferred, body := x }

def issue (l : Letter α) : Mailbox α := { m with issued := m.issued ++ [l] }

def push (l : Letter α) : Mailbox α :=
  { m with queue := m.queue ++ [l], entered := m.entered ++ [l] }

def drop (l : Letter α) : Mailbox α := { m with dropped := m.dropped ++ [l] }

def spawn (l : Letter α) : Mailbox α := { m with spawned := m.spawned ++ [l] }

def send (x : α) : Mailbox α :=
  if m.closed then (m.issue (m.next false x)).drop (m.next false x)
  else if m.hasRoom then (m.issue (m.next false x)).push (m.next false x)
  else (m.issue (m.next true x)).spawn (m.next true x)

def trySend (x : α) : Mailbox α :=
  if !m.closed && m.hasRoom then (m.issue (m.next false x)).push (m.next false x) else m

def post (x : α) : Mailbox α := (m.issue (m.next true x)).spawn (m.next true x)

def runSpawned (l : Letter α) : Mailbox α :=
  if m.closed then m.drop l else if m.hasRoom then m.push l else { m with waiting := m.waiting ++ [l] }

def runGranted (l : Letter α) : Mailbox α := if m.closed then m.drop l else m.push l

def poll (n : Nat) : Mailbox α :=
  match m.spawned.find? fun l => l.number == n with
  | some l => runSpawned { m with spawned := m.spawned.eraseP fun l => l.number == n } l
  | none =>
    match m.granted.find? fun l => l.number == n with
    | some l => runGranted { m with granted := m.granted.eraseP fun l => l.number == n } l
    | none => m

def grant : Mailbox α :=
  match m.waiting with
  | [] => m
  | l :: waiting => { m with waiting, granted := m.granted ++ [l] }

def recv : Mailbox α :=
  match m.queue with
  | [] => m
  | l :: queue => grant { m with queue, taken := m.taken ++ [l] }

def close : Mailbox α :=
  { m with closed := true, spawned := m.spawned ++ m.waiting, waiting := [] }

inductive Op (α : Type*) where
  | send (x : α)
  | trySend (x : α)
  | post (x : α)
  | poll (n : Nat)
  | recv
  | close

def exec : Op α → Mailbox α
  | .send x => m.send x
  | .trySend x => m.trySend x
  | .post x => m.post x
  | .poll n => m.poll n
  | .recv => m.recv
  | .close => m.close

/-! ## What every operation keeps -/

structure Sound (m : Mailbox α) : Prop where
  received : m.taken ++ m.queue = m.entered
  numbers : m.issued.map Letter.number = range m.issued.length
  places : (m.entered ++ m.dropped ++ m.tasks).Perm m.issued
  deferred : ∀ l ∈ m.tasks, l.deferred = true
  order : m.entered.Pairwise fun l l' => l.number < l'.number ∨ l'.deferred = true
  direct : m.issued.filter Letter.direct = (m.entered ++ m.dropped).filter Letter.direct
  refused : m.dropped ≠ [] → m.closed = true
  late : ∀ d ∈ m.dropped, d.deferred = false → ∀ l ∈ m.entered, l.number < d.number

theorem sound_new (capacity : Nat) : (new capacity : Mailbox α).Sound where
  received := rfl
  numbers := rfl
  places := List.Perm.refl _
  deferred _ hl := absurd hl not_mem_nil
  order := List.Pairwise.nil
  direct := rfl
  refused h := absurd rfl h
  late _ hd := absurd hd not_mem_nil

variable {m : Mailbox α} {l : Letter α}

theorem Sound.number_lt (h : m.Sound) (hl : l ∈ m.issued) : l.number < m.issued.length := by
  have hmem : l.number ∈ m.issued.map Letter.number := mem_map_of_mem hl
  rw [h.numbers] at hmem
  exact mem_range.mp hmem

theorem Sound.issued_of_entered (h : m.Sound) (hl : l ∈ m.entered) : l ∈ m.issued :=
  h.places.subset (mem_append_left _ (mem_append_left _ hl))

theorem Sound.entered_lt (h : m.Sound) (hl : l ∈ m.entered) : l.number < m.issued.length :=
  h.number_lt (h.issued_of_entered hl)

theorem dropped_eq_nil (hrefused : m.dropped ≠ [] → m.closed = true) (hopen : m.closed = false) : m.dropped = [] := by
  by_contra hne
  have hclosed := hrefused hne
  rw [hopen] at hclosed
  cases hclosed

/-! ### A letter on its way

A send numbers a letter and a task that runs has one: in between the letter is in none of the lists of the channel. -/

structure Holding (m : Mailbox α) (l : Letter α) : Prop where
  received : m.taken ++ m.queue = m.entered
  numbers : m.issued.map Letter.number = range m.issued.length
  places : (m.entered ++ m.dropped ++ l :: m.tasks).Perm m.issued
  deferred : ∀ l' ∈ m.tasks, l'.deferred = true
  order : m.entered.Pairwise fun l l' => l.number < l'.number ∨ l'.deferred = true
  direct : m.issued.filter Letter.direct = (m.entered ++ m.dropped ++ [l]).filter Letter.direct
  refused : m.dropped ≠ [] → m.closed = true
  late : ∀ d ∈ m.dropped, d.deferred = false → ∀ l' ∈ m.entered, l'.number < d.number
  latest : l.deferred = true ∨ ∀ l' ∈ m.entered, l'.number < l.number

theorem holding_next (h : m.Sound) (deferred : Bool) (x : α) :
    (m.issue (m.next deferred x)).Holding (m.next deferred x) where
  received := h.received
  numbers := by
    show (m.issued ++ [m.next deferred x]).map Letter.number = range (m.issued ++ [m.next deferred x]).length
    rw [map_append, h.numbers, length_append, length_singleton, range_succ]
    rfl
  places := by
    refine perm_middle.trans ?_
    exact (h.places.cons _).trans (perm_append_singleton _ _).symm
  deferred := h.deferred
  order := h.order
  direct := by
    show (m.issued ++ [_]).filter _ = (m.entered ++ m.dropped ++ [_]).filter _
    rw [filter_append, h.direct, ← filter_append]
  refused := h.refused
  late := h.late
  latest := Or.inr fun _ hl => h.entered_lt hl

section Tasks
variable {spawned waiting granted : List (Letter α)}

theorem holding_task (h : m.Sound) (htasks : m.tasks.Perm (l :: (spawned ++ waiting ++ granted))) :
    Holding { m with spawned, waiting, granted } l where
  received := h.received
  numbers := h.numbers
  places := (htasks.symm.append_left _).trans h.places
  deferred l' hl' := h.deferred l' (htasks.symm.subset (mem_cons_of_mem _ hl'))
  order := h.order
  direct := by
    have hdeferred := h.deferred l (htasks.symm.subset mem_cons_self)
    rw [filter_append, filter_singleton, h.direct, Letter.direct, hdeferred]
    exact (append_nil _).symm
  refused := h.refused
  late := h.late
  latest := Or.inl (h.deferred l (htasks.symm.subset mem_cons_self))

theorem Holding.leave (h : m.Holding l) (hdeferred : l.deferred = true)
    (htasks : (spawned ++ waiting ++ granted).Perm (l :: m.tasks)) : Sound { m with spawned, waiting, granted } where
  received := h.received
  numbers := h.numbers
  places := (htasks.append_left _).trans h.places
  deferred l' hl' := by
    rcases mem_cons.mp (htasks.subset hl') with rfl | hl'
    · exact hdeferred
    · exact h.deferred l' hl'
  order := h.order
  direct := by
    have hdirect := h.direct
    rw [filter_append, filter_singleton, Letter.direct, hdeferred] at hdirect
    exact hdirect.trans (append_nil _)
  refused := h.refused
  late := h.late

end Tasks

theorem Holding.push (h : m.Holding l) (hopen : m.closed = false) : (m.push l).Sound := by
  have hdropped := dropped_eq_nil h.refused hopen
  have hplaces := h.places
  have hdirect := h.direct
  rw [hdropped, append_nil] at hplaces hdirect
  constructor
  case received =>
    show m.taken ++ (m.queue ++ [l]) = m.entered ++ [l]
    rw [← append_assoc, h.received]
  case numbers => exact h.numbers
  case places =>
    show (m.entered ++ [l] ++ m.dropped ++ m.tasks).Perm m.issued
    rw [hdropped, append_nil, append_assoc]
    exact hplaces
  case deferred => exact h.deferred
  case order =>
    refine pairwise_append.mpr ⟨h.order, pairwise_singleton _ _, fun l₁ hl₁ l₂ hl₂ => ?_⟩
    rw [mem_singleton.mp hl₂]
    exact h.latest.symm.imp_left fun hlatest => hlatest l₁ hl₁
  case direct =>
    show m.issued.filter _ = (m.entered ++ [l] ++ m.dropped).filter _
    rw [hdropped, append_nil, hdirect]
  case refused => exact h.refused
  case late =>
    intro d hd
    rw [show (m.push l).dropped = [] from hdropped] at hd
    exact absurd hd not_mem_nil

theorem Holding.drop (h : m.Holding l) (hclosed : m.closed = true) : (m.drop l).Sound where
  received := h.received
  numbers := h.numbers
  places := by
    show (m.entered ++ (m.dropped ++ [l]) ++ m.tasks).Perm m.issued
    rw [← append_assoc m.entered, append_assoc _ [l], singleton_append]
    exact h.places
  deferred := h.deferred
  order := h.order
  direct := by
    show m.issued.filter _ = (m.entered ++ (m.dropped ++ [l])).filter _
    rw [← append_assoc, h.direct]
  refused _ := hclosed
  late d hd hdirect l' hl' := by
    rcases mem_append.mp hd with hd | hd
    · exact h.late d hd hdirect l' hl'
    rw [mem_singleton.mp hd] at hdirect ⊢
    rcases h.latest with hdeferred | hlatest
    · rw [hdirect] at hdeferred
      cases hdeferred
    · exact hlatest l' hl'

/-! ### The operations -/

theorem sound_shuffle (h : m.Sound) {spawned waiting granted : List (Letter α)}
    (htasks : (spawned ++ waiting ++ granted).Perm m.tasks) : Sound { m with spawned, waiting, granted } :=
  { h with
    places := (htasks.append_left _).trans h.places
    deferred := fun l hl => h.deferred l (htasks.subset hl) }

theorem sound_spawn (h : m.Sound) (x : α) : ((m.issue (m.next true x)).spawn (m.next true x)).Sound := by
  refine (holding_next h true x).leave rfl ?_
  unfold tasks
  rw [append_assoc, append_assoc, append_assoc]
  exact perm_middle

theorem sound_send (h : m.Sound) (x : α) : (m.send x).Sound := by
  unfold send
  split
  next hclosed => exact (holding_next h false x).drop hclosed
  next hopen =>
    split
    · exact (holding_next h false x).push (eq_false_of_ne_true hopen)
    · exact sound_spawn h x

theorem sound_trySend (h : m.Sound) (x : α) : (m.trySend x).Sound := by
  unfold trySend
  split
  next hroom =>
    rw [Bool.and_eq_true, Bool.not_eq_true'] at hroom
    exact (holding_next h false x).push hroom.1
  · exact h

theorem perm_cons_eraseP {β : Type*} {p : β → Bool} {xs : List β} {x : β} (h : xs.find? p = some x) :
    xs.Perm (x :: xs.eraseP p) := by
  obtain ⟨hx, as, bs, rfl, has⟩ := find?_eq_some_iff_append.mp h
  have herase : (as ++ x :: bs).eraseP p = as ++ bs := by
    rw [eraseP_append_right _ fun a ha => by simpa using has a ha, eraseP_cons_of_pos hx]
  rw [herase]
  exact perm_middle

section
variable (h : m.Sound)
include h

theorem sound_runSpawned {spawned : List (Letter α)} (htask : m.spawned.Perm (l :: spawned)) :
    (runSpawned { m with spawned } l).Sound := by
  have htasks : m.tasks.Perm (l :: (spawned ++ m.waiting ++ m.granted)) := (htask.append_right _).append_right _
  unfold runSpawned
  split
  next hclosed => exact (holding_task h htasks).drop hclosed
  next hopen =>
    split
    · exact (holding_task h htasks).push (eq_false_of_ne_true hopen)
    apply sound_shuffle h
    refine List.Perm.trans ?_ htasks.symm
    rw [append_assoc, append_assoc, append_assoc]
    exact (perm_middle.append_left _).trans perm_middle

theorem sound_runGranted {granted : List (Letter α)} (htask : m.granted.Perm (l :: granted)) :
    (runGranted { m with granted } l).Sound := by
  have htasks : m.tasks.Perm (l :: (m.spawned ++ m.waiting ++ granted)) :=
    (htask.append_left _).trans perm_middle
  unfold runGranted
  split
  next hclosed => exact (holding_task h htasks).drop hclosed
  next hopen => exact (holding_task h htasks).push (eq_false_of_ne_true hopen)

theorem sound_poll (n : Nat) : (m.poll n).Sound := by
  unfold poll
  split
  next l hfind => exact sound_runSpawned h (perm_cons_eraseP hfind)
  split
  next l hfind => exact sound_runGranted h (perm_cons_eraseP hfind)
  · exact h

theorem sound_grant : m.grant.Sound := by
  unfold grant
  split
  · exact h
  next l waiting hwaiting =>
    apply sound_shuffle h
    unfold tasks
    rw [hwaiting, append_assoc, append_assoc, cons_append]
    refine List.Perm.append_left _ ?_
    rw [← append_assoc]
    exact perm_append_singleton _ _

theorem sound_recv : m.recv.Sound := by
  unfold recv
  split
  · exact h
  next l queue hqueue =>
    refine sound_grant { h with received := ?_ }
    rw [← h.received, hqueue, append_assoc]
    rfl

theorem sound_close : m.close.Sound := by
  have htasks : (m.spawned ++ m.waiting ++ [] ++ m.granted).Perm m.tasks := by
    rw [append_nil]
    exact List.Perm.refl _
  exact { sound_shuffle h htasks with refused := fun _ => rfl }

theorem Sound.exec (op : Op α) : (m.exec op).Sound := by
  cases op with
  | send x => exact sound_send h x
  | trySend x => exact sound_trySend h x
  | post x => exact sound_spawn h x
  | poll n => exact sound_poll h n
  | recv => exact sound_recv h
  | close => exact sound_close h

end

/-! ## Order -/

structure Ordered (m : Mailbox α) : Prop where
  received : m.taken <+: m.entered
  complete : m.closed = false → (m.entered ++ m.tasks).Perm m.issued
  /-- A later message enters first only if the earlier one was left to a task. -/
  overtaken : ∀ l ∈ m.issued, ∀ l' ∈ m.entered, l.number < l'.number → l.deferred = true ∨ [l, l'].Sublist m.entered
  /-- Messages none of which was left to a task enter in the order in which they were sent. -/
  unhindered : ∀ p : α → Bool, (∀ l ∈ m.issued, p l.body = true → l.deferred = false) →
    m.entered.filter (fun l => p l.body) <+: m.issued.filter fun l => p l.body

theorem sublist_or_sublist {β : Type*} {xs : List β} {a b : β} (ha : a ∈ xs) (hb : b ∈ xs) (hne : a ≠ b) :
    [a, b].Sublist xs ∨ [b, a].Sublist xs := by
  obtain ⟨as, bs, rfl⟩ := append_of_mem ha
  rcases mem_append.mp hb with hb | hb
  · right
    exact (singleton_sublist.mpr hb).append (singleton_sublist.mpr mem_cons_self)
  left
  have hb' : b ∈ bs := (mem_cons.mp hb).resolve_left fun heq => hne heq.symm
  exact ((singleton_sublist.mpr hb').cons_cons a).trans (sublist_append_right _ _)

theorem Sound.overtaken (h : m.Sound) {l' : Letter α} (hl : l ∈ m.issued) (hl' : l' ∈ m.entered)
    (hlt : l.number < l'.number) : l.deferred = true ∨ [l, l'].Sublist m.entered := by
  cases hdirect : l.deferred with
  | true => exact Or.inl rfl
  | false =>
    right
    have hmem : l ∈ m.issued.filter Letter.direct := mem_filter.mpr ⟨hl, by rw [Letter.direct, hdirect]; rfl⟩
    rw [h.direct] at hmem
    have hne : l ≠ l' := by
      rintro rfl
      exact Nat.lt_irrefl _ hlt
    rcases mem_append.mp (mem_filter.mp hmem).1 with hentered | hdropped
    · refine (sublist_or_sublist hentered hl' hne).resolve_right fun hsub => ?_
      rcases pairwise_iff_forall_sublist.mp h.order hsub with hgt | hdeferred
      · omega
      rw [hdirect] at hdeferred
      cases hdeferred
    have hgt := h.late l hdropped hdirect l' hl'
    omega

theorem Sound.unhindered (h : m.Sound) {p : α → Bool} (hp : ∀ l ∈ m.issued, p l.body = true → l.deferred = false) :
    m.entered.filter (fun l => p l.body) <+: m.issued.filter fun l => p l.body := by
  have hfilter : ∀ ls : List (Letter α), (∀ l ∈ ls, l ∈ m.issued) →
      ls.filter (fun l => p l.body) = (ls.filter Letter.direct).filter fun l => p l.body := by
    intro ls hls
    rw [filter_filter]
    refine filter_congr fun l hl => ?_
    cases hbody : p l.body with
    | false => rfl
    | true =>
      rw [Letter.direct, hp l (hls l hl) hbody]
      rfl
  rw [hfilter m.entered fun l hl => h.issued_of_entered hl, hfilter m.issued fun l hl => hl, h.direct, filter_append,
    filter_append]
  exact prefix_append _ _

theorem Sound.ordered (h : m.Sound) : m.Ordered where
  received := ⟨m.queue, h.received⟩
  complete hopen := by
    have hplaces := h.places
    rw [dropped_eq_nil h.refused hopen, append_nil] at hplaces
    exact hplaces
  overtaken l hl l' hl' := h.overtaken hl hl'
  unhindered p := h.unhindered

/-! ## Channels with room -/

def Op.Fits (p : α → Bool) (m : Mailbox α) : Op α → Prop
  | .send x => p x = true → m.closed = true ∨ m.hasRoom = true
  | .trySend _ => True
  | .post x => p x = false
  | .poll _ => True
  | .recv => True
  | .close => True

theorem issued_poll (m : Mailbox α) (n : Nat) : (m.poll n).issued = m.issued := by
  unfold poll runSpawned runGranted
  split
  · split
    · rfl
    · split <;> rfl
  split
  · split <;> rfl
  · rfl

theorem issued_recv (m : Mailbox α) : m.recv.issued = m.issued := by
  unfold recv
  split
  · rfl
  unfold grant
  split <;> rfl

theorem direct_exec {p : α → Bool} (h : ∀ l ∈ m.issued, p l.body = true → l.deferred = false) {op : Op α}
    (hop : op.Fits p m) : ∀ l ∈ (m.exec op).issued, p l.body = true → l.deferred = false := by
  have hnext : ∀ deferred x, (p x = true → deferred = false) →
      ∀ l ∈ m.issued ++ [m.next deferred x], p l.body = true → l.deferred = false := by
    intro deferred x hx l hl
    rcases mem_append.mp hl with hl | hl
    · exact h l hl
    rw [mem_singleton.mp hl]
    exact hx
  cases op with
  | send x =>
    show ∀ l ∈ (m.send x).issued, _
    unfold send
    split
    · exact hnext false x fun _ => rfl
    next hopen =>
      split
      · exact hnext false x fun _ => rfl
      next hfull => exact hnext true x fun hx => absurd (hop hx) (by simp [hopen, hfull])
  | trySend x =>
    show ∀ l ∈ (m.trySend x).issued, _
    unfold trySend
    split
    · exact hnext false x fun _ => rfl
    · exact h
  | post x =>
    refine hnext true x fun hx => ?_
    rw [show p x = false from hop] at hx
    cases hx
  | poll n =>
    show ∀ l ∈ (m.poll n).issued, _
    rw [issued_poll]
    exact h
  | recv =>
    show ∀ l ∈ m.recv.issued, _
    rw [issued_recv]
    exact h
  | close => exact h

end Mailbox
