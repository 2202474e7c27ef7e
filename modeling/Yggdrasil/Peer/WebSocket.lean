import Yggdrasil.Types

/-!
# A byte stream over WebSocket messages

`WsStream` of `transport/ws.rs`. What `poll_next` is going to answer is a list of messages, with `none` for an answer
that is pending, and what comes after the last of them. Nothing reads the contents of text, ping and pong messages.
-/

namespace Yggdrasil.Ws
open List

inductive Message
  | binary (data : Bytes)
  | text
  | ping
  | pong

/-- What `poll_next` answers after the last message; after a `Close` it is the end of the stream. -/
inductive Ending
  | pending
  | close
  | ended
  | failed

structure WsStream where
  messages : List (Option Message)
  ending : Ending
  readBuf : Bytes
  readPos : Nat
  /-- `poll_next` has answered `Close` or the end. -/
  closed : Bool

inductive Read
  | pending
  | ready (bytes : Bytes)
  | error
deriving DecidableEq

def Read.bytes : Read → Bytes
  | .ready bytes => bytes
  | .pending | .error => []

namespace WsStream

def new (messages : List (Option Message)) (ending : Ending) : WsStream := ⟨messages, ending, [], 0, false⟩

def pollLoop (self : WsStream) (remaining : Nat) : List (Option Message) → Read × WsStream
  | none :: messages => (.pending, { self with messages })
  | some (.binary data) :: messages =>
    let toCopy := min data.length remaining
    (.ready (data.take toCopy),
      if toCopy < data.length then { self with messages, readBuf := data, readPos := toCopy }
      else { self with messages })
  | some _ :: messages => pollLoop { self with messages } remaining messages
  | [] =>
    match self.ending with
    | .pending => (.pending, { self with messages := [] })
    | .close | .ended => (.ready [], { self with messages := [], ending := .ended, closed := true })
    | .failed => (.error, { self with messages := [] })

def pollRead (self : WsStream) (remaining : Nat) : Read × WsStream :=
  if self.readPos < self.readBuf.length then
    let rest := self.readBuf.drop self.readPos
    let toCopy := min rest.length remaining
    let readPos := self.readPos + toCopy
    (.ready (rest.take toCopy),
      if readPos ≥ self.readBuf.length then { self with readBuf := [], readPos := 0 } else { self with readPos })
  else self.pollLoop remaining self.messages

/-- Reads into buffers of the given sizes, one after the other. -/
def pollReads (self : WsStream) : List Nat → List Read × WsStream
  | [] => ([], self)
  | remaining :: sizes =>
    let r := self.pollRead remaining
    let rs := r.2.pollReads sizes
    (r.1 :: rs.1, rs.2)

/-! ## What is left to read -/

def payload : Option Message → Bytes
  | some (.binary data) => data
  | _ => []

def left (self : WsStream) : Bytes := self.readBuf.drop self.readPos ++ self.messages.flatMap payload

/-- What one read does. A read of no bytes is that of an empty message, or is made at the end. -/
structure Reads (s : WsStream) (r : Read) (s' : WsStream) : Prop where
  left : s.left = r.bytes ++ s'.left
  messages : s'.messages <:+ s.messages
  progress : s.left = [] ∨ s'.left.length + s'.messages.length < s.left.length + s.messages.length
  ended : r = .ready [] → s'.left = [] ∧ s'.closed = true ∨ some (.binary []) ∈ s.messages

variable {s s' s'' : WsStream} {r : Read} {remaining : Nat}

theorem Reads.of_suffix (h : Reads s' r s'') (hleft : s'.left = s.left) (hmessages : s'.messages <:+ s.messages) :
    Reads s r s'' := by
  have hlength := hmessages.length_le
  refine ⟨hleft ▸ h.left, h.messages.trans hmessages, ?_, fun hr => (h.ended hr).imp_right (hmessages.mem ·)⟩
  rw [← hleft]
  exact h.progress.imp_right fun hlt => by omega

theorem pollLoop_reads (s : WsStream) (hbuf : s.readBuf.length ≤ s.readPos) (hpos : 0 < remaining)
    (messages : List (Option Message)) :
    Reads { s with messages } (s.pollLoop remaining messages).1 (s.pollLoop remaining messages).2 := by
  have hdrop : s.readBuf.drop s.readPos = [] := drop_eq_nil_of_le hbuf
  induction messages generalizing s with
  | nil =>
    have hleft : left { s with messages := [] } = [] := by simp [left, hdrop]
    unfold pollLoop
    cases s.ending with
    | pending | failed => exact ⟨rfl, suffix_refl _, .inl hleft, nofun⟩
    | close | ended => exact ⟨rfl, suffix_refl _, .inl hleft, fun _ => .inl ⟨hleft, rfl⟩⟩
  | cons m messages ih =>
    rcases m with _ | (data | _ | _ | _)
    · exact ⟨by simp [pollLoop, left, payload, Read.bytes], suffix_cons .., .inr (by simp [pollLoop, left, payload]),
        nofun⟩
    · unfold pollLoop
      by_cases hfits : data.length ≤ remaining
      · rw [Nat.min_eq_left hfits]
        dsimp only
        rw [if_neg (Nat.lt_irrefl _), take_length]
        refine ⟨by simp [left, payload, Read.bytes, hdrop], suffix_cons .., .inr (by simp [left, payload]; omega), ?_⟩
        rintro ⟨⟩
        exact .inr mem_cons_self
      dsimp only
      rw [if_pos (by omega)]
      refine ⟨by simp [left, payload, Read.bytes, hdrop, ← append_assoc], suffix_cons ..,
        .inr (by simp [left, payload]; omega), fun hr => ?_⟩
      have := congrArg length (Read.ready.inj hr)
      rw [length_take, length_nil] at this
      omega
    all_goals exact (ih { s with messages } hbuf hdrop).of_suffix (by simp [left, payload]) (suffix_cons ..)

theorem pollRead_reads (s : WsStream) (hpos : 0 < remaining) :
    Reads s (s.pollRead remaining).1 (s.pollRead remaining).2 := by
  unfold pollRead
  by_cases hbuf : s.readPos < s.readBuf.length
  · rw [if_pos hbuf]
    dsimp only
    have hnil : (s.readBuf.drop s.readPos).take (min (s.readBuf.drop s.readPos).length remaining) ≠ [] := by
      intro h
      have := congrArg length h
      simp at this
      omega
    refine ⟨?_, ?_, .inr ?_, fun hr => absurd (Read.ready.inj hr) hnil⟩
    · split
      next hend =>
        simp [left, Read.bytes, take_of_length_le, show s.readBuf.length - s.readPos ≤ remaining by simp at hend; omega]
      next hmore => simp [left, Read.bytes, ← append_assoc, ← drop_drop]
    · split <;> exact suffix_refl _
    · split <;> simp [left] <;> omega
  rw [if_neg hbuf]
  exact pollLoop_reads s (Nat.not_lt.mp hbuf) hpos s.messages

def returned (rs : List Read) : Bytes := rs.flatMap Read.bytes

theorem pollReads_reads {sizes : List Nat} (hsizes : ∀ n ∈ sizes, 0 < n) (s : WsStream) : let r := s.pollReads sizes
    s.left = returned r.1 ++ r.2.left ∧ (s.left.length + s.messages.length ≤ sizes.length → r.2.left = []) ∧
    (r.1.getLast? = some (.ready []) → r.2.left = [] ∧ r.2.closed = true ∨ some (.binary []) ∈ s.messages) := by
  induction sizes generalizing s with
  | nil => exact ⟨rfl, fun h => length_eq_zero_iff.mp (Nat.le_zero.mp (Nat.le_of_add_right_le h)), nofun⟩
  | cons n sizes ih =>
    have hread := pollRead_reads s (hsizes n mem_cons_self)
    obtain ⟨hleft, hall, hlast⟩ := ih (fun m hm => hsizes m (mem_cons_of_mem _ hm)) (s.pollRead n).2
    refine ⟨?_, fun hlength => ?_, fun h => ?_⟩
    · rw [hread.left, hleft, ← append_assoc]
      rfl
    · rcases hread.progress with hnil | hlt
      · rw [hread.left, hleft] at hnil
        exact (append_eq_nil_iff.mp (append_eq_nil_iff.mp hnil).2).2
      · exact hall (by rw [length_cons] at hlength; omega)
    cases sizes with
    | nil => exact hread.ended (Option.some.inj h)
    | cons m sizes => exact (hlast h).imp_right (hread.messages.mem ·)

def EmptyRead (s : WsStream) : Prop :=
  ∃ sizes, (∀ n ∈ sizes, 0 < n) ∧ (s.pollReads sizes).1.getLast? = some (.ready []) ∧
    (s.pollReads sizes).2.closed = false

theorem emptyRead_of_mem {messages : List (Option Message)} (h : some (.binary []) ∈ messages) (ending : Ending) :
    EmptyRead (new messages ending) := by
  induction messages with
  | nil => exact absurd h not_mem_nil
  | cons m messages ih =>
    by_cases hm : m = some (.binary [])
    · subst hm
      exact ⟨[1], by simp, rfl, rfl⟩
    obtain ⟨sizes, hsizes, hlast, hclosed⟩ := ih ((mem_cons.mp h).resolve_left (Ne.symm hm))
    obtain ⟨n, rest, rfl⟩ := exists_cons_of_ne_nil (show sizes ≠ [] by rintro rfl; cases hlast)
    -- a message that is read is read with a buffer of its own
    have hown : ∀ k, 0 < k → ((new (m :: messages) ending).pollRead k).2 = new messages ending →
        EmptyRead (new (m :: messages) ending) := by
      intro k hk hread
      refine ⟨k :: n :: rest, by simpa [hk] using hsizes, ?_, ?_⟩ <;> rw [pollReads, hread]
      · exact hlast
      · exact hclosed
    rcases m with _ | (data | _ | _ | _)
    · exact hown 1 Nat.one_pos rfl
    · refine hown data.length (length_pos_of_ne_nil fun hdata => hm (by rw [hdata])) ?_
      simp [pollRead, pollLoop, new]
    all_goals exact ⟨n :: rest, hsizes, hlast, hclosed⟩

/-- The bytes read are those of the binary messages, in the end all of them. An empty read means the end of the stream
exactly if no binary message is empty. -/
theorem pollReads_binary (messages : List (Option Message)) (ending : Ending) :
    (∀ sizes : List Nat, (∀ n ∈ sizes, 0 < n) →
      returned ((new messages ending).pollReads sizes).1 <+: messages.flatMap payload ∧
      ((messages.flatMap payload).length + messages.length ≤ sizes.length →
        returned ((new messages ending).pollReads sizes).1 = messages.flatMap payload)) ∧
    ((∀ sizes : List Nat, (∀ n ∈ sizes, 0 < n) → ((new messages ending).pollReads sizes).1.getLast? = some (.ready []) →
        returned ((new messages ending).pollReads sizes).1 = messages.flatMap payload ∧
          ((new messages ending).pollReads sizes).2.closed = true) ↔ some (.binary []) ∉ messages) := by
  have hreads := fun sizes hsizes => @pollReads_reads sizes hsizes (new messages ending)
  rw [show (new messages ending).left = messages.flatMap payload from rfl] at hreads
  refine ⟨fun sizes hsizes => ?_, fun h hempty => ?_, fun h sizes hsizes hlast => ?_⟩
  · obtain ⟨hleft, hall, -⟩ := hreads sizes hsizes
    exact ⟨⟨_, hleft.symm⟩, fun hlength => by rw [hleft, hall hlength, append_nil]⟩
  · obtain ⟨sizes, hsizes, hlast, hclosed⟩ := emptyRead_of_mem hempty ending
    rw [(h sizes hsizes hlast).2] at hclosed
    cases hclosed
  obtain ⟨hleft, -, hended⟩ := hreads sizes hsizes
  obtain ⟨hnil, hclosed⟩ := (hended hlast).resolve_right h
  exact ⟨by rw [hleft, hnil, append_nil], hclosed⟩

/-- An empty message, and one that is not. -/
theorem empty_message_ends : (new [some (.binary []), some (.binary [1])] .ended).pollReads [8] =
    ([.ready []], new [some (.binary [1])] .ended) := rfl

end WsStream

end Yggdrasil.Ws
