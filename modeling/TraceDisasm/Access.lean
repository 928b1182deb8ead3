import TraceDisasm.Error
import TraceDisasm.Text.Hex

/-!
# Access words

The CPU reports each memory access with a 32-bit word that tells how the byte was used. Fifteen of
its bits have names. The two highest, the direction of the access, belong to the access in flight;
all other bits, named or not, may be kept as knowledge about the address (`Access.persistent`).
-/

namespace TraceDisasm

/-- The named bits of an access word. -/
inductive Flag
  | wordLo
  | wordHi
  | data
  | instruction
  | extendedInstruction
  | immediate
  | stack
  | vector
  | branchTarget
  | offset
  | tileData
  | spriteData
  | returnAddress
  | read
  | write
  deriving DecidableEq

namespace Flag

/-- All named bits, lowest first. -/
def all : List Flag :=
  [wordLo, wordHi, data, instruction, extendedInstruction, immediate, stack, vector, branchTarget, offset,
    tileData, spriteData, returnAddress, read, write]

/-- The position of a flag in the word. -/
def index : Flag → Nat
  | wordLo => 0
  | wordHi => 1
  | data => 2
  | instruction => 3
  | extendedInstruction => 4
  | immediate => 5
  | stack => 6
  | vector => 10
  | branchTarget => 11
  | offset => 12
  | tileData => 20
  | spriteData => 21
  | returnAddress => 22
  | read => 30
  | write => 31

/-- The name a flag is shown with. -/
def name : Flag → String
  | wordLo => "WORD_LO"
  | wordHi => "WORD_HI"
  | data => "DATA"
  | instruction => "INSTRUCTION"
  | extendedInstruction => "EX_INST"
  | immediate => "IMMEDIATE"
  | stack => "STACK"
  | vector => "VECTOR"
  | branchTarget => "BRANCH_TARGET"
  | offset => "OFFSET"
  | tileData => "TILE_DATA"
  | spriteData => "SPRITE_DATA"
  | returnAddress => "RETURN_ADDRESS"
  | read => "READ"
  | write => "WRITE"

/-- The word in which only this flag is set. -/
def mask (flag : Flag) : UInt32 :=
  1 <<< UInt32.ofNat flag.index

end Flag

/-- What is known about the use of a byte, as a set of 32 bits. -/
structure Access where
  bits : UInt32
  deriving DecidableEq

namespace Access

/-- Nothing is known: an unclassified byte. -/
def none : Access := ⟨0⟩

/-- The word with exactly the listed flags. -/
def ofFlags (flags : List Flag) : Access :=
  ⟨flags.foldl (fun word flag => word ||| flag.mask) 0⟩

/-- Whether a flag is set. -/
def has (access : Access) (flag : Flag) : Bool :=
  access.bits.toNat.testBit flag.index

/-- The two bits that give the direction of an access in flight. -/
def direction : UInt32 := 0xC0000000

/-- The part of the word that may be stored: all but its direction. -/
def persistent (access : Access) : Access :=
  ⟨access.bits &&& ~~~direction⟩

/-- What two words tell together. -/
def union (a b : Access) : Access :=
  ⟨a.bits ||| b.bits⟩

/-- An access with the write bit is a write; every other one is a read. -/
def isWrite (access : Access) : Bool :=
  access.has .write

/-- The bits that have no name. -/
def unnamed (access : Access) : UInt32 :=
  access.bits &&& ~~~(ofFlags Flag.all).bits

/-- A word as it is shown: the names of its flags, lowest first, and then its other bits as one number. -/
def describe (access : Access) : String :=
  let names := (Flag.all.filter access.has).map Flag.name
  let number := "0x" ++ String.ofList (Hex.atLeast .lower 1 access.unnamed)
  let parts := if access.unnamed = 0 ∧ names ≠ [] then names else names ++ [number]
  "TraceAccess(" ++ String.intercalate " | " parts ++ ")"

@[simp] theorem has_none (flag : Flag) : none.has flag = false := by
  simp [has, none]

@[simp] theorem has_union (a b : Access) (flag : Flag) : (a.union b).has flag = (a.has flag || b.has flag) := by
  simp [has, union, Nat.testBit_or]

end Access

/-- The classifications that an operator may force onto an address. -/
inductive Override
  | unknown
  | code
  | data
  | word
  deriving DecidableEq

namespace Override

/-- The word that an override stores. -/
def access : Override → Access
  | unknown => .none
  | code => .ofFlags [.instruction]
  | data => .ofFlags [.data]
  | word => .ofFlags [.data, .wordLo]

/-- The override that a key of the debugger stands for. -/
def ofKey : String → Except Error Override
  | "u" => .ok unknown
  | "c" => .ok code
  | "d" => .ok data
  | "w" => .ok word
  | key => .error (.unknownKey key)

end Override

end TraceDisasm
