import Std.Data.ExtTreeSet
import TraceDisasm.Text.Hex

/-!
# Labels

The addresses that are known as branch targets. Each of them is named by a common stem and its own hexadecimal
digits, so a label is never stored, and an address keeps its label for as long as it is in the table
(`lookup_eq_some_iff`).
-/

namespace TraceDisasm

/-- The stem that labels have unless the configuration says otherwise. -/
def defaultStem : String := "loc_"

/-- The labelled addresses, and the stem of their labels. -/
structure Symbols where
  stem : String
  addresses : Std.ExtTreeSet UInt32

namespace Symbols

/-- The table without labels. -/
def empty (stem : String) : Symbols := ⟨stem, ∅⟩

/-- The label that an address has or would have. -/
def name (symbols : Symbols) (address : UInt32) : String :=
  symbols.stem ++ String.ofList (Hex.atLeast .lower 1 address)

/-- Whether an address is labelled. -/
def contains (symbols : Symbols) (address : UInt32) : Bool :=
  symbols.addresses.contains address

/-- The label of an address. -/
def lookup (symbols : Symbols) (address : UInt32) : Option String :=
  if symbols.contains address then some (symbols.name address) else none

/-- Labels an address. -/
def insert (symbols : Symbols) (address : UInt32) : Symbols :=
  { symbols with addresses := symbols.addresses.insert address }

/-- Number of labels. -/
def size (symbols : Symbols) : Nat := symbols.addresses.size

/-- All labels in the order of their addresses. -/
def toList (symbols : Symbols) : List (UInt32 × String) :=
  symbols.addresses.toList.map fun address => (address, symbols.name address)

/-- Forgets the labels at and above an address. -/
def discardFrom (symbols : Symbols) (address : UInt32) : Symbols :=
  { symbols with addresses := symbols.addresses.filter (· < address) }

@[simp] theorem contains_empty (stem : String) (address : UInt32) : (empty stem).contains address = false := by
  simp [contains, empty]

@[simp] theorem contains_insert (symbols : Symbols) (a b : UInt32) :
    (symbols.insert a).contains b = (a == b || symbols.contains b) := by
  rw [Bool.eq_iff_iff]
  simp [contains, insert]

@[simp] theorem contains_discardFrom (symbols : Symbols) (a b : UInt32) :
    (symbols.discardFrom a).contains b = (symbols.contains b && decide (b < a)) := by
  rw [Bool.eq_iff_iff]
  simp [contains, discardFrom]

/-- A table is its stem and the addresses that are labelled. -/
theorem eq_of_contains {a b : Symbols} (hstem : a.stem = b.stem)
    (hcontains : ∀ address, a.contains address = b.contains address) : a = b := by
  obtain ⟨stem, addresses⟩ := a
  obtain ⟨stem', addresses'⟩ := b
  obtain rfl : stem = stem' := hstem
  exact congrArg (mk stem) (Std.ExtTreeSet.ext_contains fun {address} => hcontains address)

/-- An address that is labelled is not labelled again. -/
theorem insert_eq_self {symbols : Symbols} {address : UInt32} (h : symbols.contains address = true) :
    symbols.insert address = symbols := by
  refine eq_of_contains rfl fun other => ?_
  rw [contains_insert, Bool.or_eq_right_iff_imp, beq_iff_eq]
  rintro rfl
  exact h

theorem lookup_insert (symbols : Symbols) (a b : UInt32) :
    (symbols.insert a).lookup b = if b = a then some (symbols.name a) else symbols.lookup b := by
  rw [lookup, contains_insert]
  by_cases hsame : b = a
  · rw [hsame, beq_self_eq_true, Bool.true_or, if_pos rfl, if_pos rfl]
    rfl
  · rw [if_neg hsame, beq_false_of_ne (Ne.symm hsame), Bool.false_or]
    rfl

theorem lookup_eq_some_iff {symbols : Symbols} {address : UInt32} {label : String} :
    symbols.lookup address = some label ↔ symbols.contains address = true ∧ label = symbols.name address := by
  cases h : symbols.contains address <;> simp [lookup, h, eq_comm]

end Symbols

end TraceDisasm
