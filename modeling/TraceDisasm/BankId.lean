import TraceDisasm.Address
import TraceDisasm.Error

/-!
# Bank identifiers

The banks of the address space: the BIOS, the RAM, and one ROM bank for each page of 32 KiB. An identifier is
written `bios`, `ram` or `rom:<page>` with the page number in decimal. It is read from the same spellings; the number
may have one plus sign and leading zeros, and must name one of the 64 pages of the address space.
-/

namespace TraceDisasm

/-- The identifier of a bank. -/
inductive BankId
  | bios
  | ram
  | rom (page : UInt8)
  deriving DecidableEq

namespace BankId

/-- Number of pages in the physical address space. -/
def pageCount : Nat := 64

/-- The bank that owns an address while the whole space is populated. The registers, and everything past the space,
belong to none. -/
def ofAddress? (address : UInt32) : Option BankId :=
  if address < Address.ramStart then some bios
  else if address < Address.registersStart then some ram
  else if Address.isRegister address || Address.spaceEnd ≤ address then none
  else some (rom (address >>> 15).toUInt8)

/-- The place of a bank in the display order. -/
def rank : BankId → Nat
  | bios => 0
  | ram => 1
  | rom page => 2 + page.toNat

/-- The written form of an identifier. -/
def text : BankId → String
  | bios => "bios"
  | ram => "ram"
  | rom page => "rom:" ++ page.toNat.repr

/-- A number in a byte with one more decimal digit behind it. There is none if the character is no digit, or if ten times
the number, or the sum of this and the digit, is too large for a byte. -/
def appendDigit? (number : UInt8) (c : Char) : Option UInt8 :=
  let digit := UInt8.ofNat (c.toNat - '0'.toNat)
  if !c.isDigit || UInt8.size ≤ number.toNat * 10 || UInt8.size ≤ (number * 10).toNat + digit.toNat then none
  else some (number * 10 + digit)

/-- The number in a byte that decimal digits spell, at least one of them. -/
def decimal? (digits : List Char) : Option UInt8 :=
  if digits.isEmpty then none else digits.foldlM appendDigit? 0

/-- The page number that is written after `rom:`. -/
def page? (number : List Char) : Option UInt8 :=
  let digits := match number with
    | '+' :: digits => digits
    | digits => digits
  (decimal? digits).filter fun page => page.toNat < pageCount

/-- The identifier that a text spells, if it spells one. -/
def ofText? (text : String) : Option BankId :=
  if text = "bios" then some bios
  else if text = "ram" then some ram
  else match text.toList with
    | 'r' :: 'o' :: 'm' :: ':' :: number => (page? number).map rom
    | _ => none

/-- Reads an identifier. -/
def ofText (text : String) : Except Error BankId :=
  match ofText? text with
  | some id => .ok id
  | none => .error (.unknownBank text)

example : ofText? "rom:+007" = some (rom 7) ∧ ofText? "rom:257" = none ∧ (rom 7).text = "rom:7" := by decide

end BankId

end TraceDisasm
