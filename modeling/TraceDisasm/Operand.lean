import TraceDisasm.Opcode.Basic
import TraceDisasm.Text.Hex

/-!
# Operands

What stands behind the mnemonic of a row. Every kind of operand has a spelling of its own (`Operand.text`): brackets
mark a place in memory, `#` a number or an unlabelled branch target, and a hexadecimal number starts with `0` and ends
with `h`.
-/

namespace TraceDisasm

/-- One operand of a row. -/
inductive Operand
  /-- The condition of a branch. -/
  | condition (condition : Condition)
  /-- A register or group of registers. -/
  | register (name : String)
  /-- The place a register points at. -/
  | indirect (name : String)
  /-- The place a register and `L` point at. -/
  | indexedByL (name : String)
  /-- The place at a distance from the one a register points at. -/
  | displaced (name : String) (distance : Int8)
  /-- The place at an address. -/
  | absolute (address : UInt16)
  /-- The place at an offset in the page of `BR`. -/
  | brPage (offset : UInt8)
  /-- An entry of the vector table. -/
  | vector (entry : UInt8)
  /-- An 8-bit number. -/
  | immediate8 (value : UInt8)
  /-- A 16-bit number. -/
  | immediate16 (value : UInt16)
  /-- The place a relative branch leads to. -/
  | target (address : UInt32) (label : Option String)
  /-- A word of data; if it is a vector to a labelled address, with that label. -/
  | word (value : UInt16) (label : Option String)
  /-- A byte of data. -/
  | byte (value : UInt8)
  deriving DecidableEq

namespace Operand

/-- The address that an operand refers to. -/
def address? : Operand → Option UInt32
  | target address _ => some address
  | word value _ => some value.toUInt32
  | absolute address => some address.toUInt32
  | _ => none

/-- A byte as two digits between `0` and `h`. -/
def byteText (value : UInt8) : String :=
  "0" ++ String.ofList (Hex.fixed .upper 2 value.toNat) ++ "h"

/-- A word as four digits between `0` and `h`. -/
def wordText (value : UInt16) : String :=
  "0" ++ String.ofList (Hex.fixed .upper 4 value.toNat) ++ "h"

/-- A number in decimal, always with its sign. -/
def signedText (value : Int8) : String :=
  (if value.toInt < 0 then "-" else "+") ++ value.toInt.natAbs.repr

/-- The written form of an operand. -/
def text : Operand → String
  | condition c => c.name
  | register name => name
  | indirect name => "[" ++ name ++ "]"
  | indexedByL name => "[" ++ name ++ "+L]"
  | displaced name distance => "[" ++ name ++ signedText distance ++ "]"
  | absolute address => "[" ++ wordText address ++ "]"
  | brPage offset => "[BR:" ++ byteText offset ++ "]"
  | vector entry => "[" ++ byteText entry ++ "]"
  | immediate8 value => "#" ++ byteText value
  | immediate16 value => "#" ++ wordText value
  | target _ (some label) => label
  | target address none => "#" ++ String.ofList (Hex.atLeast .upper 6 address) ++ "h"
  | word _ (some label) => label
  | word value none => wordText value
  | byte value => byteText value

example : (displaced "IX" (-2)).text = "[IX-2]" ∧ (brPage 0x21).text = "[BR:021h]" := by decide

end Operand

end TraceDisasm
