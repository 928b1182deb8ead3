import TraceDisasm.Json.Basic

/-!
# JSON numbers

A number is written with an optional minus sign, digits without needless zeros in front, and perhaps a fraction and an
exponent. `Numeral.scan` takes such a numeral off the front of a text. Where a digit is needed and the text ends, the
fault is up to the reader.

Two things are asked of a numeral: whether it is a plain unsigned number of at most 64 bits (`Numeral.natural?`), and
whether its value is in the range of the binary floating-point numbers of 64 bits (`Numeral.inRange`). The value is
formed as such a number in two roundings, from the leading digits as far as they fit into 64 bits and from the power
of ten that goes with them; it is out of range if the product is infinite.
-/

namespace TraceDisasm.Json

/-- A number as it is written. -/
structure Numeral where
  negative : Bool
  /-- The digits before the point. -/
  integer : List Char
  /-- The digits behind the point. -/
  fraction : Option (List Char)
  /-- The digits of the exponent, and whether it is negative. -/
  exponent : Option (Bool × List Char)
  deriving DecidableEq

/-! ## Reading -/

/-- Takes digits off the front of a text, at least one. -/
def scanDigits (atEnd : Fault) (text : List Char) : Except Fault (List Char × List Char) :=
  let digits := text.takeWhile Char.isDigit
  if digits.isEmpty then .error (if text.isEmpty then atEnd else .malformed)
  else .ok (digits, text.dropWhile Char.isDigit)

theorem scanDigits_length {atEnd : Fault} {text digits rest : List Char}
    (h : scanDigits atEnd text = .ok (digits, rest)) : rest.length < text.length := by
  have hsplit := congrArg List.length (List.takeWhile_append_dropWhile (p := Char.isDigit) (l := text))
  simp only [scanDigits] at h
  split at h
  · cases h
  · next hne =>
    cases h
    have hpos : 0 < (text.takeWhile Char.isDigit).length := by
      rw [List.isEmpty_iff] at hne
      exact List.length_pos_iff.2 hne
    simp only [List.length_append] at hsplit
    omega

namespace Numeral

/-- Takes the digits before the point off the front of a text. -/
def scanInteger (atEnd : Fault) (text : List Char) : Except Fault (List Char × List Char) := do
  let (digits, rest) ← scanDigits atEnd text
  if digits.head? = some '0' ∧ 1 < digits.length then .error .malformed else .ok (digits, rest)

/-- Takes a fraction off the front of a text, if there is one. -/
def scanFraction (atEnd : Fault) (text : List Char) : Except Fault (Option (List Char) × List Char) :=
  match text with
  | '.' :: text => (scanDigits atEnd text).map fun (digits, rest) => (some digits, rest)
  | text => .ok (none, text)

/-- Takes an exponent off the front of a text, if there is one. -/
def scanExponent (atEnd : Fault) (text : List Char) : Except Fault (Option (Bool × List Char) × List Char) :=
  match text with
  | c :: text =>
    if c = 'e' ∨ c = 'E' then
      let (negative, text) := match text with
        | '-' :: text => (true, text)
        | '+' :: text => (false, text)
        | text => (false, text)
      (scanDigits atEnd text).map fun (digits, rest) => (some (negative, digits), rest)
    else .ok (none, c :: text)
  | [] => .ok (none, [])

/-- Takes a numeral off the front of a text. -/
def scan (atEnd : Fault) (text : List Char) : Except Fault (Numeral × List Char) := do
  let (negative, text) := match text with
    | '-' :: text => (true, text)
    | text => (false, text)
  let (integer, text) ← scanInteger atEnd text
  let (fraction, text) ← scanFraction atEnd text
  let (exponent, text) ← scanExponent atEnd text
  .ok (⟨negative, integer, fraction, exponent⟩, text)

theorem scanInteger_length {atEnd : Fault} {text digits rest : List Char}
    (h : scanInteger atEnd text = .ok (digits, rest)) : rest.length < text.length := by
  obtain ⟨⟨ds, r⟩, hs, h⟩ := exists_of_bind_eq_ok h
  dsimp only at h
  split at h
  · cases h
  · cases h
    exact scanDigits_length hs

theorem scanFraction_length {atEnd : Fault} {text rest : List Char} {fraction : Option (List Char)}
    (h : scanFraction atEnd text = .ok (fraction, rest)) : rest.length ≤ text.length := by
  simp only [scanFraction] at h
  split at h
  · obtain ⟨⟨ds, r⟩, hs, heq⟩ := exists_of_map_eq_ok h
    cases heq
    exact Nat.le_of_lt (Nat.lt_succ_of_lt (scanDigits_length hs))
  · cases h
    exact Nat.le_refl _

theorem scanExponent_length {atEnd : Fault} {text rest : List Char} {exponent : Option (Bool × List Char)}
    (h : scanExponent atEnd text = .ok (exponent, rest)) : rest.length ≤ text.length := by
  simp only [scanExponent] at h
  split at h
  · next c tail =>
    split at h
    · obtain ⟨⟨ds, r⟩, hs, heq⟩ := exists_of_map_eq_ok h
      cases heq
      have := scanDigits_length hs
      split at this <;> simp only [List.length_cons] at * <;> omega
    · cases h
      exact Nat.le_refl _
  · cases h
    exact Nat.le_refl _

theorem scan_length {atEnd : Fault} {text rest : List Char} {numeral : Numeral}
    (h : scan atEnd text = .ok (numeral, rest)) : rest.length < text.length := by
  simp only [scan] at h
  obtain ⟨⟨integer, afterInteger⟩, hi, h⟩ := exists_of_bind_eq_ok h
  obtain ⟨⟨fraction, afterFraction⟩, hf, h⟩ := exists_of_bind_eq_ok h
  obtain ⟨⟨exponent, afterExponent⟩, he, h⟩ := exists_of_bind_eq_ok h
  cases h
  have h₁ := scanInteger_length hi
  have h₂ := scanFraction_length hf
  have h₃ := scanExponent_length he
  split at h₁ <;> simp only [List.length_cons] at * <;> omega

/-! ## The value -/

/-- The number that digits stand for. -/
def digitsValue (digits : List Char) : Nat := Nat.ofDigitChars 10 digits 0

/-- The value of a plain unsigned number of at most 64 bits. -/
def natural? (numeral : Numeral) : Option Nat :=
  if numeral.negative || numeral.fraction.isSome || numeral.exponent.isSome then none
  else
    let value := digitsValue numeral.integer
    if value < UInt64.size then some value else none

/-- Appends digits to a number as long as it fits into 64 bits; gives the number and the digits that are left. -/
def absorb (value : Nat) : List Char → Nat × List Char
  | [] => (value, [])
  | c :: digits =>
    let next := value * 10 + (c.toNat - 48)
    if next < UInt64.size then absorb next digits else (value, c :: digits)

/-- The nearest number with 53 significant bits; of two that are equally near, the even one. -/
def roundSignificand (n : Nat) : Nat :=
  let dropped := n.log2 - 52
  let unit := 1 <<< dropped
  let quotient := n / unit
  let twice := 2 * (n % unit)
  if unit < twice ∨ (unit = twice ∧ quotient % 2 = 1) then (quotient + 1) * unit else quotient * unit

/-- The smallest number that is rounded to infinity: half a unit of the last place above the largest finite one. -/
def infinityThreshold : Nat := (1 <<< 1024) - (1 <<< 970)

/-- Whether `significand * 10 ^ exponent` is in range. -/
def scaledInRange (significand : Nat) (exponent : Int) : Bool :=
  if significand = 0 ∨ exponent < 0 then true
  else if 308 < exponent then false
  else roundSignificand significand * roundSignificand (Nat.pow 10 exponent.toNat) < infinityThreshold

/-- Whether the value of a numeral is in range. -/
def inRange (numeral : Numeral) : Bool :=
  let (leading, left) := absorb 0 numeral.integer
  let fraction := numeral.fraction.getD []
  let (significand, dropped) := absorb leading fraction
  let shift : Int := match numeral.exponent with
    | some (negative, digits) => if negative then -(digitsValue digits : Int) else digitsValue digits
    | none => 0
  scaledInRange significand (left.length - (fraction.length - dropped.length) + shift)

end Numeral

/-- Reads a number that is to be used. -/
def readNumber (text : List Char) : Except Fault (Numeral × List Char) := do
  let (numeral, rest) ← Numeral.scan .ended text
  if numeral.inRange then .ok (numeral, rest) else .error .malformed

/-- Skips a number. -/
def skipNumber (text : List Char) : Except Fault (List Char) :=
  (Numeral.scan .malformed text).map Prod.snd

theorem readNumber_length {text rest : List Char} {numeral : Numeral} (h : readNumber text = .ok (numeral, rest)) :
    rest.length < text.length := by
  obtain ⟨⟨n, r⟩, hs, h⟩ := exists_of_bind_eq_ok h
  dsimp only at h
  split at h
  · cases h
    exact Numeral.scan_length hs
  · cases h

theorem skipNumber_length {text rest : List Char} (h : skipNumber text = .ok rest) : rest.length < text.length := by
  obtain ⟨⟨n, r⟩, hs, heq⟩ := exists_of_map_eq_ok h
  cases heq
  exact Numeral.scan_length hs

end TraceDisasm.Json
