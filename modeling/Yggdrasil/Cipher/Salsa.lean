import Mathlib.Data.BitVec
import Yggdrasil.Base.WordOps
import Yggdrasil.Types

/-!
# Salsa20: one block after the other, and many at once

The core of `salsa20-simd`: the scalar backend, and the AVX2, SSE2 and NEON backends, which compute eight or four blocks
across the lanes of vector registers. An intrinsic is what it does to the lanes.
-/

namespace Yggdrasil.Salsa
open Nat Function List BitVec
open WordOps (Hom set)

abbrev Word := BitVec 32

abbrev STATE_WORDS : Nat := 16

local instance neZero_stateWords : NeZero STATE_WORDS := ⟨by decide⟩

abbrev Words (α : Type) := Fin STATE_WORDS → α

inductive Rotation where
  | by7
  | by9
  | by13
  | by18

def Rotation.amount : Rotation → Nat
  | by7 => 7
  | by9 => 9
  | by13 => 13
  | by18 => 18

/-! ## The rounds -/

section Rounds
variable {α : Type} (ops : WordOps Rotation α)

def mix (r : Rotation) (i x y : Fin STATE_WORDS) (state : Words α) : Words α :=
  set state i (ops.xor (state i) (ops.rotl r (ops.add (state x) (state y))))

def quarterRound (a b c d : Fin STATE_WORDS) (state : Words α) : Words α :=
  let state := mix ops .by7 b a d state
  let state := mix ops .by9 c b a state
  let state := mix ops .by13 d c b state
  mix ops .by18 a d c state

end Rounds

abbrev QuarterRound (α : Type) := (a b c d : Fin STATE_WORDS) → Words α → Words α

section Rounds
variable {α : Type} (add : α → α → α) (quarterRound : QuarterRound α)

def doubleRound (res : Words α) : Words α :=
  let res := quarterRound 0 4 8 12 res
  let res := quarterRound 5 9 13 1 res
  let res := quarterRound 10 14 2 6 res
  let res := quarterRound 15 3 7 11 res
  let res := quarterRound 0 1 2 3 res
  let res := quarterRound 5 6 7 4 res
  let res := quarterRound 10 11 8 9 res
  quarterRound 15 12 13 14 res

def roundsAndAdd (rounds : Nat) (state : Words α) : Words α :=
  let res := (doubleRound quarterRound)^[rounds] state
  fun w => add (res w) (state w)

end Rounds

def scalarOps : WordOps Rotation Word where
  add x y := x + y
  xor x y := x ^^^ y
  rotl r x := x.rotateLeft r.amount

variable (rounds : Nat)

def runRounds (state : Words Word) : Words Word := roundsAndAdd scalarOps.add (quarterRound scalarOps) rounds state

def toLeBytes (w : Word) : Bytes := (List.range 4).map fun i => ⟨w.extractLsb' (8 * i) 8⟩

abbrev Block := Bytes

def writeBlock (words : Words Word) : Block := (List.finRange STATE_WORDS).flatMap fun w => toLeBytes (words w)

/-! ## The scalar backend -/

def setCounter (state : Words Word) (counter : BitVec 64) : Words Word :=
  set (set state 8 (counter.setWidth 32)) 9 ((counter >>> 32).setWidth 32)

namespace Core

def getBlockPos (state : Words Word) : BitVec 64 := (state 8).setWidth 64 + (state 9).setWidth 64 <<< 32

def setBlockPos (state : Words Word) (pos : BitVec 64) : Words Word :=
  set (set state 8 ((pos &&& 0xffffffff).setWidth 32)) 9 ((pos >>> 32 &&& 0xffffffff).setWidth 32)

def genKsBlock (rounds : Nat) (state : Words Word) : Block × Words Word :=
  let res := runRounds rounds state
  (writeBlock res, setBlockPos state (getBlockPos state + 1))

def genBlocks (rounds : Nat) : Nat → Words Word → List Block × Words Word
  | 0, state => ([], state)
  | n + 1, state =>
    let first := genKsBlock rounds state
    let rest := genBlocks rounds n first.2
    (first.1 :: rest.1, rest.2)

end Core

/-! ## The vector backends -/

/-- A left shift of all lanes by `l` bits, or'ed with a right shift by `r` bits. -/
def shiftOr {n : Nat} (l r : Nat) (x : Fin n → Word) : Fin n → Word := fun j => x j <<< l ||| x j >>> r

/-- The intrinsics of a vector backend. -/
def laneOps {n : Nat} (rotl7 rotl9 rotl13 rotl18 : (Fin n → Word) → Fin n → Word) :
    WordOps Rotation (Fin n → Word) where
  add x y := fun j => x j + y j
  xor x y := fun j => x j ^^^ y j
  rotl
    | .by7 => rotl7
    | .by9 => rotl9
    | .by13 => rotl13
    | .by18 => rotl18

def keystream {n : Nat} (quarterRound : QuarterRound (Fin n → Word)) (rounds : Nat) (state : Words Word)
    (counter : BitVec 64) : Fin n → Block :=
  let v : Words (Fin n → Word) := fun w _ => state w
  let cj (j : Fin n) : BitVec 64 := counter + BitVec.ofNat 64 j
  let v := set v 8 fun j => (cj j).setWidth 32
  let v := set v 9 fun j => (cj j >>> 32).setWidth 32
  let tmp := roundsAndAdd (fun x y j => x j + y j) quarterRound rounds v
  fun blk => writeBlock fun word => tmp word blk

/-- A vector backend of `n` lanes: a copy of the state, whose counter words are ignored, and the counter. -/
structure Backend (n : Nat) where
  state : Words Word
  counter : BitVec 64

inductive Request where
  | block
  | par
  | tail (blocks : List Block)

namespace Backend
variable {n : Nat} (quarterRound : QuarterRound (Fin n → Word)) (rounds : Nat)

def genKsBlock (self : Backend n) : Block × Backend n :=
  let res := runRounds rounds (setCounter self.state self.counter)
  (writeBlock res, { self with counter := self.counter + 1 })

def genParKsBlocks (self : Backend n) : List Block × Backend n :=
  (List.ofFn (keystream quarterRound rounds self.state self.counter),
    { self with counter := self.counter + BitVec.ofNat 64 n })

def genTailBlocks (self : Backend n) (blocks : List Block) : List Block × Backend n :=
  if blocks.length = 0 then (blocks, self)
  else
    let scratch := List.ofFn (keystream quarterRound rounds self.state self.counter)
    (scratch.take blocks.length ++ blocks.drop n,
      { self with counter := self.counter + BitVec.ofNat 64 blocks.length })

def gen (self : Backend n) : Request → List Block × Backend n
  | .block => ([(self.genKsBlock rounds).1], (self.genKsBlock rounds).2)
  | .par => self.genParKsBlocks quarterRound rounds
  | .tail blocks => self.genTailBlocks quarterRound rounds blocks

def genAll : List Request → Backend n → List Block × Backend n
  | [], self => ([], self)
  | request :: requests, self =>
    let first := self.gen quarterRound rounds request
    let rest := genAll requests first.2
    (first.1 ++ rest.1, rest.2)

end Backend

def inner {n : Nat} (quarterRound : QuarterRound (Fin n → Word)) (rounds : Nat) (requests : List Request)
    (state : Words Word) : List Block × Words Word :=
  let counter := (state 8).setWidth 64 ||| (state 9).setWidth 64 <<< 32
  let called := Backend.genAll quarterRound rounds requests ⟨state, counter⟩
  (called.1, set (set state 8 (called.2.counter.setWidth 32)) 9 ((called.2.counter >>> 32).setWidth 32))

namespace Avx2

def PAR_BLOCKS : Nat := 8

def rotl7 : (Fin PAR_BLOCKS → Word) → Fin PAR_BLOCKS → Word := shiftOr 7 25

def rotl9 : (Fin PAR_BLOCKS → Word) → Fin PAR_BLOCKS → Word := shiftOr 9 23

def rotl13 : (Fin PAR_BLOCKS → Word) → Fin PAR_BLOCKS → Word := shiftOr 13 19

def rotl18 : (Fin PAR_BLOCKS → Word) → Fin PAR_BLOCKS → Word := shiftOr 18 14

def quarterRound := Salsa.quarterRound (laneOps rotl7 rotl9 rotl13 rotl18)

def keystream8 := keystream quarterRound

def inner := Salsa.inner quarterRound

end Avx2

namespace Sse2

def PAR_BLOCKS : Nat := 4

def rotl7 : (Fin PAR_BLOCKS → Word) → Fin PAR_BLOCKS → Word := shiftOr 7 25

def rotl9 : (Fin PAR_BLOCKS → Word) → Fin PAR_BLOCKS → Word := shiftOr 9 23

def rotl13 : (Fin PAR_BLOCKS → Word) → Fin PAR_BLOCKS → Word := shiftOr 13 19

def rotl18 : (Fin PAR_BLOCKS → Word) → Fin PAR_BLOCKS → Word := shiftOr 18 14

def quarterRound := Salsa.quarterRound (laneOps rotl7 rotl9 rotl13 rotl18)

def keystream4 := keystream quarterRound

def inner := Salsa.inner quarterRound

end Sse2

namespace Neon

def PAR_BLOCKS : Nat := 4

def rotl7 : (Fin PAR_BLOCKS → Word) → Fin PAR_BLOCKS → Word := shiftOr 7 25

def rotl9 : (Fin PAR_BLOCKS → Word) → Fin PAR_BLOCKS → Word := shiftOr 9 23

def rotl13 : (Fin PAR_BLOCKS → Word) → Fin PAR_BLOCKS → Word := shiftOr 13 19

def rotl18 : (Fin PAR_BLOCKS → Word) → Fin PAR_BLOCKS → Word := shiftOr 18 14

def quarterRound := Salsa.quarterRound (laneOps rotl7 rotl9 rotl13 rotl18)

def keystream4 := keystream quarterRound

def inner := Salsa.inner quarterRound

end Neon

/-! ## Lanes -/

section Lanes
variable {α β : Type} {A : WordOps Rotation α} {B : WordOps Rotation β} {f : α → β}

section
variable (h : Hom A B f)
include h

theorem mix_hom (r : Rotation) (i x y : Fin STATE_WORDS) (v : Words α) :
    (fun w => f (mix A r i x y v w)) = mix B r i x y fun w => f (v w) := by
  unfold mix
  rw [WordOps.map_set, h.xor, h.rotl, h.add]

theorem quarterRound_hom (a b c d : Fin STATE_WORDS) (v : Words α) :
    (fun w => f (quarterRound A a b c d v w)) = quarterRound B a b c d fun w => f (v w) := by
  simp only [quarterRound]
  rw [mix_hom h, mix_hom h, mix_hom h, mix_hom h]

end

variable {Q : QuarterRound α} {Q' : QuarterRound β}
  (hQ : ∀ a b c d v, (fun w => f (Q a b c d v w)) = Q' a b c d fun w => f (v w))
include hQ

theorem doubleRound_hom (v : Words α) : (fun w => f (doubleRound Q v w)) = doubleRound Q' fun w => f (v w) := by
  simp only [doubleRound]
  simp only [hQ]

theorem rounds_hom (rounds : Nat) (v : Words α) :
    (fun w => f ((doubleRound Q)^[rounds] v w)) = (doubleRound Q')^[rounds] fun w => f (v w) := by
  induction rounds generalizing v with
  | zero => rfl
  | succ rounds ih =>
    rw [iterate_succ_apply, iterate_succ_apply, ih, doubleRound_hom hQ]

theorem roundsAndAdd_hom {add : α → α → α} {add' : β → β → β} (hadd : ∀ x y, f (add x y) = add' (f x) (f y))
    (rounds : Nat) (v : Words α) :
    (fun w => f (roundsAndAdd add Q rounds v w)) = roundsAndAdd add' Q' rounds fun w => f (v w) := by
  unfold roundsAndAdd
  rw [← rounds_hom hQ]
  funext w
  exact hadd _ _

end Lanes

theorem shiftOr_eq {n l r : Nat} (h : l + r = 32) (hr : 0 < r) (x : Fin n → Word) :
    shiftOr l r x = fun j => (x j).rotateLeft l := by
  funext j
  have hsub : 32 - l = r := by omega
  rw [shiftOr, rotateLeft_def, mod_eq_of_lt (by omega), hsub]

/-- The shift pairs of the four rotations. -/
theorem laneOps_eq (n : Nat) :
    laneOps (n := n) (shiftOr 7 25) (shiftOr 9 23) (shiftOr 13 19) (shiftOr 18 14) = scalarOps.lanes n := by
  unfold laneOps scalarOps WordOps.lanes
  congr 1
  funext r x
  cases r <;> exact shiftOr_eq rfl (by decide) x

def blockAt (state : Words Word) (counter : BitVec 64) : Block :=
  writeBlock (runRounds rounds (setCounter state counter))

/-- The scalar quarter-round in every lane. -/
abbrev laneRound (n : Nat) : QuarterRound (Fin n → Word) := quarterRound (scalarOps.lanes n)

theorem keystream_eq (n rounds : Nat) (state : Words Word) (counter : BitVec 64) (j : Fin n) :
    keystream (laneRound n) rounds state counter j = blockAt rounds state (counter + BitVec.ofNat 64 j) := by
  have hlane := WordOps.map_set (ι := Fin STATE_WORDS) fun x : Fin n → Word => x j
  have hrounds : ∀ v, (fun w => roundsAndAdd (fun x y j => x j + y j) (laneRound n) rounds v w j) =
      roundsAndAdd scalarOps.add (quarterRound scalarOps) rounds fun w => v w j :=
    roundsAndAdd_hom (quarterRound_hom (WordOps.lanes_hom n scalarOps j)) (fun _ _ => rfl) rounds
  unfold blockAt runRounds setCounter
  simp only [keystream]
  rw [hrounds, hlane, hlane]

/-! ## The counter -/

variable (state : Words Word)

theorem setBlockPos_eq (pos : BitVec 64) : Core.setBlockPos state pos = setCounter state pos := by
  have hlow : ∀ x : BitVec 64, (x &&& 0xffffffff).setWidth 32 = x.setWidth 32 := by
    intro x
    apply eq_of_toNat_eq
    rw [toNat_setWidth, toNat_setWidth, toNat_and]
    show (x.toNat &&& (2 ^ 32 - 1)) % 2 ^ 32 = _
    rw [and_two_pow_sub_one_eq_mod, mod_mod]
  unfold Core.setBlockPos setCounter
  rw [hlow, hlow]

def counterOf (state : Words Word) : BitVec 64 := (state 8).setWidth 64 ||| (state 9).setWidth 64 <<< 32

theorem toNat_counterOf : (counterOf state).toNat = (state 8).toNat + (state 9).toNat * 2 ^ 32 := by
  have hlo := (state 8).isLt
  unfold counterOf
  rw [toNat_or, toNat_shiftLeft, toNat_setWidth, toNat_setWidth, Nat.shiftLeft_eq,
    mod_eq_of_lt (by omega), mod_eq_of_lt (a := (state 9).toNat) (by omega), mod_eq_of_lt (by omega),
    Nat.or_comm, ← Nat.shiftLeft_eq, ← Nat.shiftLeft_add_eq_or_of_lt hlo, Nat.add_comm, Nat.shiftLeft_eq]

theorem getBlockPos_eq : Core.getBlockPos state = counterOf state := by
  apply eq_of_toNat_eq
  rw [toNat_counterOf]
  unfold Core.getBlockPos
  rw [toNat_add, toNat_shiftLeft, toNat_setWidth, toNat_setWidth, Nat.shiftLeft_eq]
  omega

theorem setCounter_eq_iff {state state' : Words Word} {counter : BitVec 64} : setCounter state counter = state' ↔
    state' 8 = counter.setWidth 32 ∧ state' 9 = (counter >>> 32).setWidth 32 ∧
      ∀ w, w ≠ 8 → w ≠ 9 → state' w = state w := by
  unfold setCounter WordOps.set
  constructor
  · intro h
    subst h
    refine ⟨rfl, rfl, fun w h8 h9 => ?_⟩
    rw [update_of_ne h9, update_of_ne h8]
  intro ⟨h8, h9, hrest⟩
  funext w
  by_cases hw9 : w = 9
  · rw [hw9, update_self, h9]
  rw [update_of_ne hw9]
  by_cases hw8 : w = 8
  · rw [hw8, update_self, h8]
  · rw [update_of_ne hw8, hrest w hw8 hw9]

theorem setCounter_counterOf : setCounter state (counterOf state) = state := by
  have hcounter := toNat_counterOf state
  rw [setCounter_eq_iff]
  refine ⟨?_, ?_, fun _ _ _ => rfl⟩
  · apply eq_of_toNat_eq
    rw [toNat_setWidth, hcounter]
    omega
  apply eq_of_toNat_eq
  rw [toNat_setWidth, toNat_ushiftRight, hcounter, shiftRight_eq_div_pow]
  omega

theorem counterOf_setCounter (counter : BitVec 64) : counterOf (setCounter state counter) = counter := by
  apply eq_of_toNat_eq
  rw [toNat_counterOf]
  show (counter.setWidth 32).toNat + ((counter >>> 32).setWidth 32).toNat * 2 ^ 32 = counter.toNat
  rw [toNat_setWidth, toNat_setWidth, toNat_ushiftRight, shiftRight_eq_div_pow]
  omega

theorem setCounter_setCounter (c d : BitVec 64) : setCounter (setCounter state c) d = setCounter state d := by
  rw [setCounter_eq_iff]
  refine ⟨rfl, rfl, fun w h8 h9 => ?_⟩
  unfold setCounter WordOps.set
  rw [update_of_ne h9, update_of_ne h8, update_of_ne h9, update_of_ne h8]

/-! ## Blocks from a counter on -/

def blocksFrom (state : Words Word) (counter : BitVec 64) (n : Nat) : List Block :=
  (List.range n).map fun i => blockAt rounds state (counter + BitVec.ofNat 64 i)

theorem blocksFrom_add (state : Words Word) (counter : BitVec 64) (m n : Nat) :
    blocksFrom rounds state counter (m + n) =
      blocksFrom rounds state counter m ++ blocksFrom rounds state (counter + BitVec.ofNat 64 m) n := by
  unfold blocksFrom
  rw [range_add, map_append, map_map]
  congr 1
  apply map_congr_left
  intro i _
  show blockAt rounds state (counter + BitVec.ofNat 64 (m + i)) = _
  rw [ofNat_add, add_assoc]

theorem blocksFrom_one (state : Words Word) (counter : BitVec 64) :
    blocksFrom rounds state counter 1 = [blockAt rounds state counter] := by
  show [blockAt rounds state (counter + 0#64)] = _
  rw [BitVec.add_zero]

theorem keystream_list (n rounds : Nat) (state : Words Word) (counter : BitVec 64) :
    List.ofFn (keystream (laneRound n) rounds state counter) = blocksFrom rounds state counter n := by
  unfold blocksFrom
  apply ext_getElem
  · rw [length_ofFn, length_map, length_range]
  intro i hi hi'
  rw [List.getElem_ofFn, keystream_eq, List.getElem_map, List.getElem_range]

theorem take_blocksFrom (state : Words Word) (counter : BitVec 64) {k n : Nat} (h : k ≤ n) :
    (blocksFrom rounds state counter n).take k = blocksFrom rounds state counter k := by
  unfold blocksFrom
  rw [← map_take, take_range, min_eq_left h]

theorem Core.genBlocks_eq (rounds n : Nat) (state : Words Word) (counter : BitVec 64) :
    Core.genBlocks rounds n (setCounter state counter) =
      (blocksFrom rounds state counter n, setCounter state (counter + BitVec.ofNat 64 n)) := by
  induction n generalizing counter with
  | zero =>
    show ([], _) = ([], setCounter state (counter + 0#64))
    rw [BitVec.add_zero]
  | succ n ih =>
    have hnext : (Core.genKsBlock rounds (setCounter state counter)).2 = setCounter state (counter + 1) := by
      show Core.setBlockPos _ _ = _
      rw [setBlockPos_eq, getBlockPos_eq, counterOf_setCounter, setCounter_setCounter]
    simp only [Core.genBlocks]
    rw [hnext, ih, Nat.add_comm n 1, blocksFrom_add, blocksFrom_one, ofNat_add, ← add_assoc]
    rfl

/-! ## Calls of a vector backend -/

def Request.count (n : Nat) : Request → Nat
  | .block => 1
  | .par => n
  | .tail blocks => blocks.length

def Request.Valid (n : Nat) : Request → Prop
  | .tail blocks => blocks.length < n
  | _ => True

namespace Backend
variable {n : Nat}

theorem gen_eq (rounds : Nat) (self : Backend n) {request : Request} (hvalid : request.Valid n) :
    self.gen (laneRound n) rounds request = (blocksFrom rounds self.state self.counter (request.count n),
      { self with counter := self.counter + BitVec.ofNat 64 (request.count n) }) := by
  cases request with
  | block =>
    show ([blockAt rounds self.state self.counter], _) = _
    rw [← blocksFrom_one]
    rfl
  | par =>
    show (List.ofFn _, _) = _
    rw [keystream_list]
    rfl
  | tail blocks =>
    have hlt : blocks.length < n := hvalid
    show self.genTailBlocks (laneRound n) rounds blocks = (blocksFrom rounds self.state self.counter blocks.length,
      { self with counter := self.counter + BitVec.ofNat 64 blocks.length })
    unfold genTailBlocks
    split
    next hempty =>
      show (blocks, self) = (_, { self with counter := self.counter + BitVec.ofNat 64 blocks.length })
      rw [hempty, BitVec.add_zero, length_eq_zero_iff.mp hempty]
      rfl
    simp only [keystream_list]
    rw [take_blocksFrom _ _ _ hlt.le, drop_of_length_le hlt.le, append_nil]

def total (n : Nat) (requests : List Request) : Nat := (requests.map (Request.count n)).sum

theorem genAll_eq (rounds : Nat) {requests : List Request} (hvalid : ∀ request ∈ requests, request.Valid n)
    (self : Backend n) :
    genAll (laneRound n) rounds requests self = (blocksFrom rounds self.state self.counter (total n requests),
      { self with counter := self.counter + BitVec.ofNat 64 (total n requests) }) := by
  induction requests generalizing self with
  | nil =>
    show ([], self) = ([], { self with counter := self.counter + 0#64 })
    rw [BitVec.add_zero]
  | cons request requests ih =>
    have hfirst := hvalid request mem_cons_self
    have hrest := fun r hr => hvalid r (mem_cons_of_mem request hr)
    simp only [genAll]
    rw [gen_eq rounds self hfirst, ih hrest]
    unfold total
    rw [map_cons, sum_cons, blocksFrom_add, ofNat_add, add_assoc]

end Backend

theorem inner_eq (n rounds : Nat) {requests : List Request} (hvalid : ∀ request ∈ requests, request.Valid n)
    (state : Words Word) :
    inner (laneRound n) rounds requests state = Core.genBlocks rounds (Backend.total n requests) state := by
  have hscalar := Core.genBlocks_eq rounds (Backend.total n requests) state (counterOf state)
  rw [setCounter_counterOf] at hscalar
  rw [hscalar]
  simp only [inner]
  rw [Backend.genAll_eq rounds hvalid]
  rfl

/-- A vector backend does what the scalar backend does, in whatever calls the cipher asks for its blocks. -/
structure Agrees (parBlocks : Nat) (group : Nat → Words Word → BitVec 64 → Fin parBlocks → Block)
    (inner : Nat → List Request → Words Word → List Block × Words Word) : Prop where
  group : ∀ rounds state counter j, group rounds state counter j =
    (Core.genKsBlock rounds (Core.setBlockPos state (counter + BitVec.ofNat 64 j))).1
  same : ∀ rounds requests state, (∀ request ∈ requests, request.Valid parBlocks) →
    inner rounds requests state = Core.genBlocks rounds (Backend.total parBlocks requests) state
  counter : ∀ rounds requests state, (∀ request ∈ requests, request.Valid parBlocks) →
    (Core.getBlockPos state).toNat + Backend.total parBlocks requests < 2 ^ 64 →
    (Core.getBlockPos (inner rounds requests state).2).toNat =
      (Core.getBlockPos state).toNat + Backend.total parBlocks requests

theorem inner_agrees {n : Nat} {quarterRound : QuarterRound (Fin n → Word)} (h : quarterRound = laneRound n) :
    Agrees n (keystream quarterRound) (inner quarterRound) := by
  subst h
  refine ⟨fun rounds state counter j => ?_, fun rounds requests state hvalid => inner_eq n rounds hvalid state,
    fun rounds requests state hvalid hlt => ?_⟩
  · rw [keystream_eq, setBlockPos_eq]
    rfl
  have hscalar := Core.genBlocks_eq rounds (Backend.total n requests) state (counterOf state)
  rw [setCounter_counterOf] at hscalar
  rw [getBlockPos_eq] at hlt
  rw [inner_eq n rounds hvalid, hscalar, getBlockPos_eq, getBlockPos_eq, counterOf_setCounter, toNat_add, toNat_ofNat]
  omega

/-- **The vector backends write the keystream of the scalar backend**, for every state, number of rounds and
sequence of calls. -/
theorem simd_keystream : Agrees Avx2.PAR_BLOCKS Avx2.keystream8 Avx2.inner ∧
    Agrees Sse2.PAR_BLOCKS Sse2.keystream4 Sse2.inner ∧ Agrees Neon.PAR_BLOCKS Neon.keystream4 Neon.inner :=
  ⟨inner_agrees (congrArg quarterRound (laneOps_eq 8)), inner_agrees (congrArg quarterRound (laneOps_eq 4)),
    inner_agrees (congrArg quarterRound (laneOps_eq 4))⟩

end Yggdrasil.Salsa
