/-!
# Hexadecimal fields

Numbers are written in base sixteen in two shapes: a field of a fixed number of digits (`fixed`) and
the shortest text that still has a least number of digits (`atLeast`). A digit is read back in either
spelling (`digitValue?_digit`).
-/

namespace TraceDisasm.Hex

/-- Whether the digits ten to fifteen are written `a`–`f` or `A`–`F`. -/
inductive Letters
  | lower
  | upper
  deriving DecidableEq

/-- The digit of a value below sixteen. -/
def digit (letters : Letters) (value : Nat) : Char :=
  if value < 10 then Char.ofNat (48 + value)
  else match letters with
    | .lower => Char.ofNat (87 + value)
    | .upper => Char.ofNat (55 + value)

/-- The lowest `width` digits of a number, the highest of them first. -/
def fixed (letters : Letters) : Nat → Nat → List Char
  | 0, _ => []
  | width + 1, n => fixed letters width (n / 16) ++ [digit letters (n % 16)]

/-- Removes at most `count` leading zeros. -/
def dropZeros : Nat → List Char → List Char
  | count + 1, '0' :: digits => dropZeros count digits
  | _, digits => digits

/-- The digits of a 32-bit number without leading zeros, but never fewer than `least` of them. -/
def atLeast (letters : Letters) (least : Nat) (n : UInt32) : List Char :=
  dropZeros (8 - least) (fixed letters 8 n.toNat)

/-- The value of a digit in either spelling. -/
def digitValue? (c : Char) : Option Nat :=
  if '0' ≤ c ∧ c ≤ '9' then some (c.toNat - 48)
  else if 'a' ≤ c ∧ c ≤ 'f' then some (c.toNat - 87)
  else if 'A' ≤ c ∧ c ≤ 'F' then some (c.toNat - 55)
  else none

@[simp] theorem length_fixed (letters : Letters) (width n : Nat) : (fixed letters width n).length = width := by
  induction width generalizing n with
  | zero => rfl
  | succ width ih => simp [fixed, ih]

theorem digitValue?_digit (letters : Letters) {value : Nat} (h : value < 16) :
    digitValue? (digit letters value) = some value := by
  have all : ∀ l : Bool, ∀ v : Fin 16, digitValue? (digit (if l then .lower else .upper) v) = some v.val := by
    decide
  cases letters
  · exact all true ⟨value, h⟩
  · exact all false ⟨value, h⟩

end TraceDisasm.Hex
