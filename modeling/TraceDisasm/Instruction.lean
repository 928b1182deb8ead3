import TraceDisasm.Address
import TraceDisasm.Cursor
import TraceDisasm.Opcode.Table
import TraceDisasm.Row
import TraceDisasm.Symbols

/-!
# Decoding an instruction

`Instruction.decode` reads one instruction and makes its row. If the bytes lead to an undefined opcode, the row is
illegal and covers the bytes read up to there; if they end inside the instruction, it covers all that were left.

Relative branches are resolved against a jump page, the page that the banked window shows. The operation `LD NB,#nn`
changes it for the instructions that follow. At least one byte is read whenever there is one
(`Instruction.decode_remaining_lt`).
-/

namespace TraceDisasm

/-! ## Reading an opcode -/

/-- Reads an opcode. There is no operation if the bytes end inside it or lead to an undefined entry; the bytes that
were looked at are read in any case. -/
def Cursor.operation (cursor : Cursor) : Option Operation × Cursor :=
  match cursor.byte with
  | (none, cursor) => (none, cursor)
  | (some first, cursor) =>
    match Slot.ofByte first with
    | .undefined => (none, cursor)
    | .operation operation => (some operation, cursor)
    | .extension extension =>
      match cursor.byte with
      | (none, cursor) => (none, cursor)
      | (some second, cursor) => (extension.operation? second, cursor)

/-! ## Reading operands -/

/-- Reads the operand that an argument announces. `branch` makes the operand of a relative branch from its
displacement. -/
def Argument.read (branch : Int32 → Operand) (argument : Argument) (cursor : Cursor) : Option Operand × Cursor :=
  let ofByte (make : UInt8 → Operand) := (cursor.byte.1.map make, cursor.byte.2)
  let ofWord (make : UInt16 → Operand) := (cursor.word.1.map make, cursor.word.2)
  match argument with
  | .register r => (some (.register r.name), cursor)
  | .indirect r => (some (.indirect r.name), cursor)
  | .indexedByL r => (some (.indexedByL r.name), cursor)
  | .displaced r => ofByte fun byte => .displaced r.name byte.toInt8
  | .absolute => ofWord .absolute
  | .brPage => ofByte .brPage
  | .vector => ofByte .vector
  | .immediate8 => ofByte .immediate8
  | .immediate16 => ofWord .immediate16
  | .relative8 => ofByte fun byte => branch byte.toInt8.toInt32
  | .relative16 => ofWord fun word => branch word.toInt16.toInt32

/-- Reads the operands of a list of arguments, in order, as far as the bytes last. -/
def Argument.readAll (branch : Int32 → Operand) : List Argument → Cursor → Option (List Operand) × Cursor
  | [], cursor => (some [], cursor)
  | argument :: arguments, cursor =>
    match argument.read branch cursor with
    | (none, cursor) => (none, cursor)
    | (some operand, cursor) =>
      match readAll branch arguments cursor with
      | (none, cursor) => (none, cursor)
      | (some operands, cursor) => (some (operand :: operands), cursor)

/-! ## Instructions -/

/-- The page that an operation selects for the branches behind it. -/
def Operation.loadedPage? (operation : Operation) (operands : List Operand) : Option UInt32 :=
  match operation.mnemonic, operation.arguments, operands with
  | .ld, [.register .nb, .immediate8], [_, .immediate8 number] => some (Address.pageOfNumber number)
  | _, _, _ => none

/-- What has been decoded. -/
structure Instruction where
  row : Row
  /-- Whether the bytes behind the instruction need not be code. -/
  endsRun : Bool
  /-- The jump page behind the instruction. -/
  jumpPage : UInt32
  /-- The position behind the instruction. -/
  after : Cursor

namespace Instruction

/-- The bytes between two positions, as an illegal row. -/
def illegal (jumpPage : UInt32) (cursor after : Cursor) : Instruction where
  row := ⟨cursor.address, .illegal, Row.illegalMnemonic, [], cursor.bytesTo after, none⟩
  endsRun := true
  jumpPage := jumpPage
  after := after

/-- The operand of a branch to an address. -/
def branchTo (symbols : Symbols) (address : UInt32) : Operand :=
  .target address (symbols.lookup address)

/-- Decodes the instruction at the cursor. -/
def decode (symbols : Symbols) (jumpPage : UInt32) (cursor : Cursor) : Instruction :=
  match cursor.operation with
  | (none, after) => illegal jumpPage cursor after
  | (some operation, opcodeEnd) =>
    let next := (opcodeEnd.skip operation.operandSize).address
    let branch := fun displacement => branchTo symbols (Address.relativeTarget next displacement jumpPage)
    match Argument.readAll branch operation.arguments opcodeEnd with
    | (none, after) => illegal jumpPage cursor after
    | (some operands, after) =>
      { row :=
          { address := cursor.address
            kind := .instruction
            mnemonic := operation.mnemonic.text
            operands := operation.condition.toList.map .condition ++ operands
            raw := cursor.bytesTo after
            label := none }
        endsRun := operation.mnemonic.endsRun
        jumpPage := (operation.loadedPage? operands).getD jumpPage
        after := after }

/-! ## Progress -/

theorem byte_remaining (cursor : Cursor) : cursor.byte.2.remaining = cursor.remaining - 1 := by
  rcases cursor with ⟨start, index, _ | ⟨b, rest⟩⟩ <;> simp [Cursor.byte, Cursor.remaining, Cursor.skip]

theorem word_remaining (cursor : Cursor) : cursor.word.2.remaining = cursor.remaining - 2 := by
  rcases cursor with ⟨start, index, _ | ⟨a, _ | ⟨b, rest⟩⟩⟩ <;>
    simp [Cursor.word, Cursor.remaining, Cursor.skip]

theorem read_remaining_le (branch : Int32 → Operand) (argument : Argument) (cursor : Cursor) :
    (argument.read branch cursor).2.remaining ≤ cursor.remaining := by
  have hb := byte_remaining cursor
  have hw := word_remaining cursor
  cases argument <;> simp only [Argument.read] <;> omega

theorem readAll_remaining_le (branch : Int32 → Operand) (arguments : List Argument) (cursor : Cursor) :
    (Argument.readAll branch arguments cursor).2.remaining ≤ cursor.remaining := by
  induction arguments generalizing cursor with
  | nil => simp [Argument.readAll]
  | cons argument arguments ih =>
    have h := read_remaining_le branch argument cursor
    simp only [Argument.readAll]
    split
    · simp_all
    · next operand next hr =>
      rw [hr] at h
      have := ih next
      split <;> simp_all <;> omega

theorem operation_remaining_lt (cursor : Cursor) (h : cursor.rest ≠ []) :
    cursor.operation.2.remaining < cursor.remaining := by
  have hpos : 0 < cursor.remaining := List.length_pos_iff.2 h
  have h₁ := byte_remaining cursor
  simp only [Cursor.operation]
  split
  · next after hb =>
    rw [hb] at h₁
    dsimp only at h₁ ⊢
    omega
  · next first after hb =>
    rw [hb] at h₁
    dsimp only at h₁
    have h₂ := byte_remaining after
    split
    · dsimp only
      omega
    · dsimp only
      omega
    · split
      · next last hl =>
        rw [hl] at h₂
        dsimp only at h₂ ⊢
        omega
      · next second last hl =>
        rw [hl] at h₂
        dsimp only at h₂ ⊢
        omega

/-- Decoding takes at least one byte. -/
theorem decode_remaining_lt (symbols : Symbols) (jumpPage : UInt32) (cursor : Cursor) (h : cursor.rest ≠ []) :
    (decode symbols jumpPage cursor).after.remaining < cursor.remaining := by
  have ho := operation_remaining_lt cursor h
  simp only [decode]
  split
  · simp_all [illegal]
  · next operation opcodeEnd hop =>
    rw [hop] at ho
    have hr := readAll_remaining_le
      (fun d => branchTo symbols
        (Address.relativeTarget (opcodeEnd.skip operation.operandSize).address d jumpPage))
      operation.arguments opcodeEnd
    split <;> simp_all [illegal] <;> omega

end Instruction

end TraceDisasm
