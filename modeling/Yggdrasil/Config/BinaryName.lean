import Mathlib.Data.List.Basic

/-!
# Prefix and port in the name of the binary

`parse_prefix_port` of `main.rs`. The source compares bytes, all of them those of ASCII characters.
-/

namespace Yggdrasil.BinaryName

def hexDigits : List Char := "0123456789abcdefABCDEF".toList

def hexValue (c : Char) : Nat :=
  if c.toNat ≤ '9'.toNat then c.toNat - '0'.toNat else (c.toNat - 'A'.toNat) % 32 + 10

def fromStrRadix (p0 p1 : Char) : Nat := 16 * hexValue p0 + hexValue p1

def DERIVED_PORT_OFFSET : Nat := 0x2328

def portFromPrefix (p : Nat) : Nat := p / 2 + DERIVED_PORT_OFFSET

def validPrefix (p0 p1 : Char) : Bool :=
  "0123456789abcdeABCDE".toList.contains p0 && "02468aceACE".toList.contains p1 ||
    "fF".toList.contains p0 && "02468acAC".toList.contains p1

def digitsValue (digits : List Char) : Nat := digits.foldl (fun n c => 10 * n + (c.toNat - '0'.toNat)) 0

/-- `str::parse` for decimal digits, at least one. -/
def parseU16 (digits : List Char) : Option Nat := if digitsValue digits < 65536 then some (digitsValue digits) else none

def numericPart : List Char → Option (List Char)
  | [] => none
  | c :: tail => if hexDigits.contains c then some (c :: tail) else if c.toNat < 128 ∧ c ≠ ' ' then some tail else none

def parsePort (numeric : List Char) : Option Nat :=
  let numStr := numeric.filter Char.isDigit
  if numStr = [] then none
  else do
    let port ← parseU16 numStr
    if 1024 ≤ port ∧ port ≤ 65535 then some port else none

def parsePrefixPort : List Char → Option (Nat × Nat)
  | p0 :: p1 :: rest =>
    if validPrefix p0 p1 then
      let p := fromStrRadix p0 p1
      if rest = [] then some (p, portFromPrefix p) else do return (p, ← parsePort (← numericPart rest))
    else none
  | _ => none

/-! ## The documented forms -/

/-- An even prefix of two hex digits. -/
def Prefixed (s : List Char) (p : Nat) (rest : List Char) : Prop :=
  ∃ p0 p1, s = p0 :: p1 :: rest ∧ p = fromStrRadix p0 p1 ∧ (p0 ∈ hexDigits ∧ p1 ∈ hexDigits) ∧ p % 2 = 0 ∧ p ≤ 0xfc

/-- What is left without a separator: a character that is neither a hex digit nor a space. -/
def Numeric (rest numeric : List Char) : Prop :=
  ∃ c tail, rest = c :: tail ∧
    (c ∈ hexDigits ∧ numeric = c :: tail ∨ c ∉ hexDigits ∧ (c.toNat < 128 ∧ c ≠ ' ') ∧ numeric = tail)

/-- The port that the digits of a numeric part stand for. -/
def Port (ok : List Char → Prop) (rest : List Char) (q : Nat) : Prop :=
  ∃ numeric, Numeric rest numeric ∧ ok numeric ∧ digitsValue (numeric.filter Char.isDigit) = q ∧ 1024 ≤ q ∧ q ≤ 65535

def Suffix (ok : List Char → Prop) (s : List Char) (p q : Nat) : Prop :=
  ∃ rest, Prefixed s p rest ∧ (rest = [] ∧ q = p / 2 + 0x2328 ∨ Port ok rest q)

def Digits (numeric : List Char) : Prop := ∀ c ∈ numeric, c.isDigit = true

def Stray (s : List Char) : Prop := ∃ p q rest, Prefixed s p rest ∧ Port (¬ Digits ·) rest q

variable {p0 p1 : Char} {s rest numeric : List Char} {p q : Nat}

theorem validPrefix_iff : validPrefix p0 p1 = true ↔ (p0 ∈ hexDigits ∧ p1 ∈ hexDigits) ∧
    fromStrRadix p0 p1 % 2 = 0 ∧ fromStrRadix p0 p1 ≤ 0xfc := by
  have hhex : validPrefix p0 p1 = true → p0 ∈ hexDigits ∧ p1 ∈ hexDigits := by
    intro h
    simp only [validPrefix, Bool.or_eq_true, Bool.and_eq_true, List.contains_iff_mem] at h
    rcases h with ⟨h0, h1⟩ | ⟨h0, h1⟩ <;>
      exact ⟨(by decide +kernel : _ ⊆ hexDigits) h0, (by decide +kernel : _ ⊆ hexDigits) h1⟩
  have hall : hexDigits.all fun p0 => hexDigits.all fun p1 => validPrefix p0 p1 ==
      decide (fromStrRadix p0 p1 % 2 = 0 ∧ fromStrRadix p0 p1 ≤ 0xfc) := by decide +kernel
  simp only [List.all_eq_true, beq_iff_eq] at hall
  refine ⟨fun h => ⟨hhex h, ?_⟩, fun h => by simp [hall p0 h.1.1 p1 h.1.2, h.2]⟩
  simpa [hall p0 (hhex h).1 p1 (hhex h).2] using h

theorem numericPart_iff : numericPart rest = some numeric ↔ Numeric rest numeric := by
  cases rest with
  | nil => exact ⟨nofun, by rintro ⟨_, _, ⟨⟩, _⟩⟩
  | cons c tail =>
    simp only [numericPart, Numeric, List.contains_iff_mem]
    split
    next hhex => simp [hhex, eq_comm]
    next hhex => simp [hhex, eq_comm, and_assoc]

theorem parsePort_iff : parsePort numeric = some q ↔
    digitsValue (numeric.filter Char.isDigit) = q ∧ 1024 ≤ q ∧ q ≤ 65535 := by
  unfold parsePort parseU16
  generalize hdigits : numeric.filter Char.isDigit = digits
  by_cases hnil : digits = []
  · rw [if_pos hnil, hnil]
    exact ⟨nofun, fun h => absurd (h.1 ▸ h.2.1) (by decide)⟩
  · simp [hnil]
    grind

theorem parsePrefixPort_iff_suffix : parsePrefixPort s = some (p, q) ↔ Suffix (fun _ => True) s p q := by
  rcases s with _ | ⟨p0, _ | ⟨p1, rest⟩⟩
  · exact ⟨nofun, by rintro ⟨_, ⟨_, _, ⟨⟩, _⟩, _⟩⟩
  · exact ⟨nofun, by rintro ⟨_, ⟨_, _, ⟨⟩, _⟩, _⟩⟩
  simp only [parsePrefixPort, Option.ite_none_right_eq_some, validPrefix_iff]
  constructor
  · rintro ⟨hvalid, h⟩
    split at h
    next hrest =>
      cases h
      exact ⟨rest, ⟨p0, p1, rfl, rfl, hvalid⟩, .inl ⟨hrest, rfl⟩⟩
    · obtain ⟨numeric, hnumeric, h⟩ := Option.bind_eq_some_iff.mp h
      obtain ⟨port, hport, ⟨⟩⟩ := Option.bind_eq_some_iff.mp h
      exact ⟨rest, ⟨p0, p1, rfl, rfl, hvalid⟩,
        .inr ⟨numeric, numericPart_iff.mp hnumeric, trivial, parsePort_iff.mp hport⟩⟩
  · rintro ⟨_, ⟨_, _, ⟨⟩, rfl, hvalid⟩, hport⟩
    refine ⟨hvalid, ?_⟩
    rcases hport with ⟨rfl, rfl⟩ | ⟨numeric, hnumeric, -, hport⟩
    · rfl
    have hne : rest ≠ [] := by
      rintro rfl
      obtain ⟨_, _, ⟨⟩, _⟩ := hnumeric
    rw [if_neg hne, numericPart_iff.mpr hnumeric]
    simp [parsePort_iff.mpr hport]

theorem Suffix.not_stray (h : Suffix Digits s p q) : ¬ Stray s := by
  rintro ⟨_, _, _, ⟨p0, p1, rfl, -⟩, numeric, hnumeric, hstray, -⟩
  obtain ⟨_, ⟨_, _, ⟨⟩, -⟩, ⟨rfl, -⟩ | ⟨_, hnumeric', hdigits, -⟩⟩ := h
  · obtain ⟨_, _, ⟨⟩, _⟩ := hnumeric
  · rw [← numericPart_iff] at hnumeric hnumeric'
    cases hnumeric.symm.trans hnumeric'
    exact hstray hdigits

/-- The documented forms are what is accepted, exactly for a suffix without other characters among its digits. -/
theorem parsePrefixPort_iff (s : List Char) :
    (∀ p q, parsePrefixPort s = some (p, q) ↔ Suffix Digits s p q) ↔ ¬ Stray s := by
  simp only [parsePrefixPort_iff_suffix]
  constructor
  · rintro h ⟨p, q, rest, hprefixed, numeric, hnumeric, hstray, hport⟩
    exact ((h p q).mp ⟨rest, hprefixed, .inr ⟨numeric, hnumeric, trivial, hport⟩⟩).not_stray
      ⟨p, q, rest, hprefixed, numeric, hnumeric, hstray, hport⟩
  · intro h p q
    constructor
    · rintro ⟨rest, hprefixed, hport⟩
      refine ⟨rest, hprefixed, hport.imp_right ?_⟩
      rintro ⟨numeric, hnumeric, -, hport⟩
      exact ⟨numeric, hnumeric, by_contra fun hstray =>
        h ⟨p, q, rest, hprefixed, numeric, hnumeric, hstray, hport⟩, hport⟩
    · rintro ⟨rest, hprefixed, hport⟩
      refine ⟨rest, hprefixed, hport.imp_right ?_⟩
      rintro ⟨numeric, hnumeric, -, hport⟩
      exact ⟨numeric, hnumeric, trivial, hport⟩

theorem stray_accepted : parsePrefixPort "02-90x01".toList = some (2, 9001) ∧
    ¬ Suffix Digits "02-90x01".toList 2 9001 := by
  refine ⟨by decide +kernel, fun h => h.not_stray ⟨2, 9001, _, ⟨'0', '2', rfl, by decide +kernel⟩, ?_⟩⟩
  exact ⟨"90x01".toList, ⟨'-', _, rfl, by decide⟩, fun h => absurd (h 'x' (by decide)) (by decide), by decide +kernel⟩

end Yggdrasil.BinaryName
