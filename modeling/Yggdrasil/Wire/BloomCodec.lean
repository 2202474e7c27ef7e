import Mathlib.Data.List.GetD
import Yggdrasil.Router.Bloom
import Yggdrasil.Wire.Messages

/-!
# Bloom filters on the wire

`encode_bloom` and `decode_bloom`: two rows of flags say which of the 128 words are zero and which are all ones, and the
other words follow.
-/

namespace Yggdrasil
open List
open Cursor (Reads Exhausts)

def BLOOM_FILTER_FLAGS : Nat := 16

def BLOOM_FILTER_U64S : Nat := 128

def BloomFilter.fromRaw (raw : List UInt64) : BloomFilter :=
    ⟨BitVec.ofWords BLOOM_FILTER_BITS (raw.map UInt64.toBitVec)⟩

def BloomFilter.asRaw (self : BloomFilter) : List UInt64 :=
  (self.bits.words 64 BLOOM_FILTER_U64S).map UInt64.ofBitVec

@[simp] theorem BloomFilter.fromRaw_asRaw (self : BloomFilter) : fromRaw self.asRaw = self := by
  have hwords : UInt64.toBitVec ∘ UInt64.ofBitVec = id := rfl
  rw [fromRaw, asRaw, map_map, hwords, map_id, BitVec.ofWords_words self.bits rfl]

theorem BloomFilter.length_asRaw (self : BloomFilter) : self.asRaw.length = BLOOM_FILTER_U64S := by
  rw [asRaw, length_map, BitVec.length_words]

def flagMask (idx : Nat) : UInt8 := 0x80 >>> UInt8.ofNat (idx % 8)

def setFlag (flags : Bytes) (idx : Nat) : Bytes := flags.modify (idx / 8) (· ||| flagMask idx)

def hasFlag (flags : Bytes) (idx : Nat) : Bool := flags.getD (idx / 8) 0 &&& flagMask idx ≠ 0

structure BloomWords where
  flags0 : Bytes
  flags1 : Bytes
  keep : List UInt64

def BloomWords.push (self : BloomWords) (u : UInt64) (idx : Nat) : BloomWords :=
  if u = 0 then { self with flags0 := setFlag self.flags0 idx }
  else if u = u64Max then { self with flags1 := setFlag self.flags1 idx }
  else { self with keep := self.keep ++ [u] }

def BloomWords.pushAll (self : BloomWords) (idx : Nat) : List UInt64 → BloomWords
  | [] => self
  | u :: data => (self.push u idx).pushAll (idx + 1) data

def BloomWords.blank : BloomWords :=
  { flags0 := List.replicate BLOOM_FILTER_FLAGS 0, flags1 := List.replicate BLOOM_FILTER_FLAGS 0, keep := [] }

def wordBytes (u : UInt64) : Bytes := u.toBitVec.beBytes 8

def encodeBloom (data : List UInt64) : Bytes :=
  let words := BloomWords.blank.pushAll 0 data
  words.flags0 ++ words.flags1 ++ words.keep.flatMap wordBytes

def readBloomWord (flags0 flags1 : Bytes) (idx : Nat) : WireReader UInt64 := do
  let f0 := hasFlag flags0 idx
  let f1 := hasFlag flags1 idx
  if f0 && f1 then throw .decode -- can't be both zero and all-ones
  else if f0 then return 0
  else if f1 then return u64Max
  else return ⟨BitVec.ofBeBytes 64 (← readFixed 8)⟩

def decodeBloom (data : Bytes) : Except Error (List UInt64) :=
  StateT.run' (s := data) do
    let flags0 ← readFixed BLOOM_FILTER_FLAGS
    let flags1 ← readFixed BLOOM_FILTER_FLAGS
    let result ← (List.range BLOOM_FILTER_U64S).mapM (readBloomWord flags0 flags1)
    Cursor.finish .decode
    return result

/-! ## Flags -/

theorem flagMask_eq (idx : Nat) : flagMask idx = ⟨BitVec.twoPow 8 (7 - idx % 8)⟩ := by
  have h : ∀ k : Fin 8, (0x80 : UInt8) >>> UInt8.ofNat k = ⟨BitVec.twoPow 8 (7 - k)⟩ := by decide
  exact h ⟨idx % 8, Nat.mod_lt _ (by decide)⟩

theorem and_flagMask_ne_zero (b : UInt8) (idx : Nat) :
    b &&& flagMask idx ≠ 0 ↔ b.toBitVec.getLsbD (7 - idx % 8) = true := by
  have hne : BitVec.twoPow 8 (7 - idx % 8) ≠ 0 := by
    intro h
    have hbit := congrArg (BitVec.getLsbD · (7 - idx % 8)) h
    simp at hbit
    omega
  rw [flagMask_eq, ne_eq, ← UInt8.toBitVec_inj, UInt8.toBitVec_and, BitVec.and_twoPow]
  split
  next h => exact iff_of_true hne h
  next h => exact iff_of_false (fun hn => hn rfl) h

theorem hasFlag_eq (flags : Bytes) (idx : Nat) :
    hasFlag flags idx = (flags.getD (idx / 8) 0).toBitVec.getLsbD (7 - idx % 8) := by
  rw [Bool.eq_iff_iff, hasFlag, decide_eq_true_iff, and_flagMask_ne_zero]

@[simp] theorem length_setFlag (flags : Bytes) (idx : Nat) : (setFlag flags idx).length = flags.length := by
  rw [setFlag, length_modify]

theorem hasFlag_setFlag {flags : Bytes} {idx : Nat} (h : idx / 8 < flags.length) (i : Nat) :
    hasFlag (setFlag flags idx) i = (hasFlag flags i || decide (i = idx)) := by
  rw [hasFlag_eq, hasFlag_eq, setFlag, getD_eq_getElem?_getD, getD_eq_getElem?_getD, getElem?_modify]
  by_cases hi : idx / 8 = i / 8
  · simp only [if_pos hi]
    rw [← hi, getElem?_eq_getElem h]
    simp only [Option.map_eq_map, Option.map_some, Option.getD_some, UInt8.toBitVec_or, flagMask_eq, BitVec.getLsbD_or,
      BitVec.getLsbD_twoPow]
    congr 1
    rw [Bool.eq_iff_iff, Bool.and_eq_true, decide_eq_true_iff, decide_eq_true_iff, decide_eq_true_iff]
    omega
  simp only [if_neg hi, id_map']
  have hne : i ≠ idx := fun heq => hi (by rw [heq])
  rw [decide_eq_false hne, Bool.or_false]

/-! ## All words -/

structure Pushed (s : BloomWords) (idx : Nat) (data : List UInt64) (s' : BloomWords) : Prop where
  length0 : s'.flags0.length = BLOOM_FILTER_FLAGS
  length1 : s'.flags1.length = BLOOM_FILTER_FLAGS
  flags0 : ∀ i, hasFlag s'.flags0 i = true ↔ hasFlag s.flags0 i = true ∨ ∃ j, data[j]? = some 0 ∧ i = idx + j
  flags1 : ∀ i, hasFlag s'.flags1 i = true ↔ hasFlag s.flags1 i = true ∨ ∃ j, data[j]? = some u64Max ∧ i = idx + j
  keep : s'.keep = s.keep ++ data.filter fun u => u ≠ 0 ∧ u ≠ u64Max

theorem exists_getElem?_cons {u c : UInt64} {data : List UInt64} {i idx : Nat} :
    (∃ j, (u :: data)[j]? = some c ∧ i = idx + j) ↔ (u = c ∧ i = idx) ∨ ∃ j, data[j]? = some c ∧ i = idx + 1 + j := by
  constructor
  · rintro ⟨j, hj, rfl⟩
    cases j with
    | zero => exact Or.inl ⟨Option.some.inj hj, rfl⟩
    | succ j => exact Or.inr ⟨j, hj, by omega⟩
  rintro (⟨rfl, rfl⟩ | ⟨j, hj, rfl⟩)
  · exact ⟨0, rfl, rfl⟩
  · exact ⟨j + 1, hj, by omega⟩

theorem pushAll_pushed (data : List UInt64) : ∀ (s : BloomWords) (idx : Nat), s.flags0.length = BLOOM_FILTER_FLAGS →
    s.flags1.length = BLOOM_FILTER_FLAGS → idx + data.length ≤ BLOOM_FILTER_U64S →
      Pushed s idx data (s.pushAll idx data) := by
  induction data with
  | nil => exact fun s idx h0 h1 _ => ⟨h0, h1, by simp [BloomWords.pushAll], by simp [BloomWords.pushAll],
      by simp [BloomWords.pushAll]⟩
  | cons u data ih =>
    intro s idx h0 h1 hle
    rw [length_cons] at hle
    have hbyte : idx / 8 < BLOOM_FILTER_FLAGS := by
      simp only [BLOOM_FILTER_U64S] at hle
      simp only [BLOOM_FILTER_FLAGS]
      omega
    have hlengths : (s.push u idx).flags0.length = BLOOM_FILTER_FLAGS ∧
        (s.push u idx).flags1.length = BLOOM_FILTER_FLAGS := by
      rw [BloomWords.push]
      split
      · exact ⟨by rw [length_setFlag, h0], h1⟩
      split
      · exact ⟨h0, by rw [length_setFlag, h1]⟩
      · exact ⟨h0, h1⟩
    have hmax : u64Max ≠ 0 := by decide
    have hflags0 : ∀ i, hasFlag (s.push u idx).flags0 i = true ↔ hasFlag s.flags0 i = true ∨ u = 0 ∧ i = idx := by
      rw [BloomWords.push]
      split
      next hu => simp [hasFlag_setFlag (h0 ▸ hbyte), hu]
      next hu =>
        split <;> simp [hu]
    have hflags1 : ∀ i, hasFlag (s.push u idx).flags1 i = true ↔ hasFlag s.flags1 i = true ∨ u = u64Max ∧ i = idx := by
      rw [BloomWords.push]
      split
      next hu => simp [hu, hmax.symm]
      next hu =>
        split
        next hu => simp [hasFlag_setFlag (h1 ▸ hbyte), hu]
        next hu => simp [hu]
    have hkeep : (s.push u idx).keep = s.keep ++ [u].filter fun u => u ≠ 0 ∧ u ≠ u64Max := by
      rw [BloomWords.push]
      split
      next hu => simp [hu]
      next hu =>
        split
        next hu => simp [hu]
        next hu' => simp [hu, hu']
    have hrest := ih (s.push u idx) (idx + 1) hlengths.1 hlengths.2 (by omega)
    refine ⟨hrest.length0, hrest.length1, fun i => ?_, fun i => ?_, ?_⟩
    · rw [BloomWords.pushAll, hrest.flags0, hflags0, exists_getElem?_cons, or_assoc]
    · rw [BloomWords.pushAll, hrest.flags1, hflags1, exists_getElem?_cons, or_assoc]
    · rw [BloomWords.pushAll, hrest.keep, hkeep, append_assoc, ← filter_append, singleton_append]

theorem hasFlag_blank (i : Nat) : hasFlag (List.replicate BLOOM_FILTER_FLAGS 0) i = false := by
  rw [hasFlag_eq, getD_eq_getElem?_getD, getElem?_replicate]
  split <;> simp

def keptBytes (u : UInt64) : Bytes := if u ≠ 0 ∧ u ≠ u64Max then wordBytes u else []

theorem flatMap_filter_wordBytes (data : List UInt64) :
    (data.filter fun u => u ≠ 0 ∧ u ≠ u64Max).flatMap wordBytes = data.flatMap keptBytes := by
  induction data with
  | nil => rfl
  | cons u data ih =>
    rw [filter_cons, flatMap_cons, keptBytes, ← ih]
    split
    next h => rw [if_pos (of_decide_eq_true h), flatMap_cons]
    next h => rw [if_neg (mt decide_eq_true h), nil_append]

theorem reads_word (u : UInt64) : Reads (do return ⟨BitVec.ofBeBytes 64 (← readFixed 8)⟩) (wordBytes u) u := by
  have htake := Cursor.reads_take Error.decode (wordBytes u)
  rw [wordBytes, BitVec.length_beBytes] at htake
  have h := htake.bind_pure fun bs => (⟨BitVec.ofBeBytes 64 bs⟩ : UInt64)
  rw [BitVec.ofBeBytes_beBytes u.toBitVec rfl] at h
  exact h

theorem reads_bloomWord {flags0 flags1 : Bytes} {idx : Nat} {u : UInt64} (h0 : hasFlag flags0 idx = true ↔ u = 0)
    (h1 : hasFlag flags1 idx = true ↔ u = u64Max) : Reads (readBloomWord flags0 flags1 idx) (keptBytes u) u := by
  have hmax : u64Max ≠ 0 := by decide
  by_cases hzero : u = 0
  · have hf1 : hasFlag flags1 idx = false := by
      rw [Bool.eq_false_iff, ne_eq, h1, hzero]
      exact hmax.symm
    simp only [readBloomWord, h0.mpr hzero, hf1, Bool.and_false, Bool.false_eq_true, if_false, if_true,
      keptBytes, hzero]
    exact Reads.pure 0
  have hf0 : hasFlag flags0 idx = false := by
    rw [Bool.eq_false_iff, ne_eq, h0]
    exact hzero
  by_cases hones : u = u64Max
  · simp only [readBloomWord, hf0, h1.mpr hones, Bool.false_and, Bool.false_eq_true, if_false, if_true,
      keptBytes, hones]
    exact Reads.pure u64Max
  have hf1 : hasFlag flags1 idx = false := by
    rw [Bool.eq_false_iff, ne_eq, h1]
    exact hones
  simp only [readBloomWord, hf0, hf1, Bool.false_and, Bool.false_eq_true, if_false, keptBytes]
  rw [if_pos ⟨hzero, hones⟩]
  exact reads_word u

/-- Filters are decoded from their encoding. -/
theorem decodeBloom_decodes {data : List UInt64} (hlen : data.length = BLOOM_FILTER_U64S) :
    Decodes decodeBloom (encodeBloom data) data := by
  have h := pushAll_pushed data BloomWords.blank 0 length_replicate length_replicate (by omega)
  have hdata : (List.range BLOOM_FILTER_U64S).map (fun i => data.getD i 0) = data := by
    rw [← hlen]
    refine ext_getElem (by simp) fun i hi hi' => ?_
    rw [getElem_map, getElem_range, getD_eq_getElem _ _ hi']
  have hwords : ∀ i ∈ List.range BLOOM_FILTER_U64S,
      Reads (readBloomWord (BloomWords.blank.pushAll 0 data).flags0 (BloomWords.blank.pushAll 0 data).flags1 i)
        (keptBytes (data.getD i 0)) (data.getD i 0) := by
    intro i hi
    rw [mem_range, ← hlen] at hi
    have hplace : ∀ c, (∃ j, data[j]? = some c ∧ i = 0 + j) ↔ data.getD i 0 = c := by
      intro c
      rw [getD_eq_getElem _ _ hi]
      constructor
      · rintro ⟨j, hj, hij⟩
        rw [Nat.zero_add] at hij
        subst hij
        rw [getElem?_eq_getElem hi] at hj
        exact Option.some.inj hj
      rintro rfl
      exact ⟨i, getElem?_eq_getElem hi, (Nat.zero_add i).symm⟩
    refine reads_bloomWord ?_ ?_
    · rw [h.flags0, hplace]
      simp [BloomWords.blank, hasFlag_blank]
    rw [h.flags1, hplace]
    simp [BloomWords.blank, hasFlag_blank]
  have hreads := Reads.mapM hwords
  rw [hdata, ← flatMap_map (fun i => data.getD i 0) keptBytes, hdata] at hreads
  have hflags0 := Cursor.reads_take Error.decode (BloomWords.blank.pushAll 0 data).flags0
  have hflags1 := Cursor.reads_take Error.decode (BloomWords.blank.pushAll 0 data).flags1
  rw [h.length0] at hflags0
  rw [h.length1] at hflags1
  have hkeep : (BloomWords.blank.pushAll 0 data).keep.flatMap wordBytes = data.flatMap keptBytes := by
    rw [h.keep, ← flatMap_filter_wordBytes]
    rfl
  simp only [encodeBloom, hkeep, append_assoc]
  exact Exhausts.bind hflags0 <| Exhausts.bind hflags1 <| Exhausts.finish hreads _ _

end Yggdrasil
