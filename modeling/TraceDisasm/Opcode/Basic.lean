/-!
# Operations

What one entry of the instruction set says: a mnemonic, perhaps a branch condition, and the arguments in
the order in which they are encoded and written. An argument is a register, a place in memory or a number,
and takes none, one or two bytes of the instruction (`Argument.size`).
-/

namespace TraceDisasm

/-- The registers that an instruction may name. `all` and `ale` are the groups that `PUSH` and `POP` take
together. -/
inductive Register
  | a | b | l | h | ba | hl | ix | iy
  | nb | br | ep | ip | xp | yp | sc | sp | pc
  | all | ale
  deriving DecidableEq

/-- The assembler's name of a register. -/
def Register.name : Register → String
  | a => "A" | b => "B" | l => "L" | h => "H" | ba => "BA" | hl => "HL" | ix => "IX" | iy => "IY"
  | nb => "NB" | br => "BR" | ep => "EP" | ip => "IP" | xp => "XP" | yp => "YP" | sc => "SC" | sp => "SP"
  | pc => "PC" | all => "ALL" | ale => "ALE"

/-- The kinds of argument. -/
inductive Argument
  /-- A register. -/
  | register (r : Register)
  /-- The byte or word that a register points at. -/
  | indirect (r : Register)
  /-- The place that a register and the register `L` point at together. -/
  | indexedByL (r : Register)
  /-- The place at a signed 8-bit distance from the one that a register points at. -/
  | displaced (r : Register)
  /-- The place at a 16-bit address. -/
  | absolute
  /-- The place at an 8-bit offset in the page that the register `BR` selects. -/
  | brPage
  /-- An entry of the vector table. -/
  | vector
  /-- An 8-bit number. -/
  | immediate8
  /-- A 16-bit number. -/
  | immediate16
  /-- A branch target at a signed 8-bit distance. -/
  | relative8
  /-- A branch target at a signed 16-bit distance. -/
  | relative16
  deriving DecidableEq

/-- The number of bytes that an argument takes after the opcode. -/
def Argument.size : Argument → Nat
  | register _ | indirect _ | indexedByL _ => 0
  | displaced _ | brPage | vector | immediate8 | relative8 => 1
  | absolute | immediate16 | relative16 => 2

/-- The conditions of branches and calls. -/
inductive Condition
  | less | lessEqual | greater | greaterEqual
  | overflow | notOverflow | positive | minus
  | carry | notCarry | zero | notZero
  | flag0 | flag1 | flag2 | flag3
  | notFlag0 | notFlag1 | notFlag2 | notFlag3
  deriving DecidableEq

namespace Condition

/-- All conditions, in the order of their codes. -/
def all : List Condition :=
  [less, lessEqual, greater, greaterEqual, overflow, notOverflow, positive, minus, carry, notCarry, zero, notZero,
    flag0, flag1, flag2, flag3, notFlag0, notFlag1, notFlag2, notFlag3]

/-- The assembler's spelling of a condition. -/
def name : Condition → String
  | less => "LT" | lessEqual => "LE" | greater => "GT" | greaterEqual => "GE"
  | overflow => "V" | notOverflow => "NV" | positive => "P" | minus => "M"
  | carry => "C" | notCarry => "NC" | zero => "Z" | notZero => "NZ"
  | flag0 => "F0" | flag1 => "F1" | flag2 => "F2" | flag3 => "F3"
  | notFlag0 => "NF0" | notFlag1 => "NF1" | notFlag2 => "NF2" | notFlag3 => "NF3"

end Condition

/-- The operations of the instruction set. -/
inductive Mnemonic
  | adc | add | and | bit | call | carl | cars | cp | cpl | dec | div | djr | ex | inc | int | jp | jrl | jrs
  | ld | mlt | neg | nop | or | pack | pop | push | ret | rete | rets | rl | rlc | rr | rrc | sbc | sep | sla
  | sll | sra | srl | sub | swap | upck | xor
  deriving DecidableEq

namespace Mnemonic

/-- The assembler's spelling of an operation. -/
def text : Mnemonic → String
  | adc => "ADC" | add => "ADD" | and => "AND" | bit => "BIT" | call => "CALL" | carl => "CARL"
  | cars => "CARS" | cp => "CP" | cpl => "CPL" | dec => "DEC" | div => "DIV" | djr => "DJR" | ex => "EX"
  | inc => "INC" | int => "INT" | jp => "JP" | jrl => "JRL" | jrs => "JRS" | ld => "LD" | mlt => "MLT"
  | neg => "NEG" | nop => "NOP" | or => "OR" | pack => "PACK" | pop => "POP" | push => "PUSH" | ret => "RET"
  | rete => "RETE" | rets => "RETS" | rl => "RL" | rlc => "RLC" | rr => "RR" | rrc => "RRC" | sbc => "SBC"
  | sep => "SEP" | sla => "SLA" | sll => "SLL" | sra => "SRA" | srl => "SRL" | sub => "SUB" | swap => "SWAP"
  | upck => "UPCK" | xor => "XOR"

/-- Whether control may leave for another place after the operation, so that the bytes behind it need not be
code. -/
def endsRun : Mnemonic → Bool
  | call | cars | carl | jrs | jrl | jp | djr | int | ret | rete | rets => true
  | _ => false

end Mnemonic

/-- One entry of the instruction set. -/
structure Operation where
  mnemonic : Mnemonic
  condition : Option Condition
  arguments : List Argument
  deriving DecidableEq

/-- The number of bytes that follow the opcode. -/
def Operation.operandSize (operation : Operation) : Nat :=
  operation.arguments.foldr (fun argument size => argument.size + size) 0

/-- The bytes that lead to a second table of operations. -/
inductive Extension
  | ce
  | cf
  deriving DecidableEq

/-- What the first byte of an instruction may mean. -/
inductive Slot
  | undefined
  | operation (operation : Operation)
  | extension (extension : Extension)
  deriving DecidableEq

end TraceDisasm
