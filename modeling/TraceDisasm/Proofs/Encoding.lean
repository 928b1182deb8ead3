import TraceDisasm.Proofs.CheckedListing

/-!
# How instructions are encoded

The tables of opcodes are followed twice. `Opcode.lookup` finds the operation at the front of some bytes; the decoder
follows the tables on its own, a byte at a time, and then reads the operands one behind the other. Both come to the same
end (`Instruction.decode_agrees`). Where the tables lead to an operation and its bytes are all there, the decoder makes an
instruction of just these, and each operand is made from bytes of its own (`Argument.Encodes`). Everywhere else it makes an
illegal row. This covers the bytes up to the undefined entry that they lead to (`Opcode.DeadEnd`), and if they end too
early, all that are left, for an operand that is cut off takes along what there is of it.
-/

namespace TraceDisasm

/-! ## Operands -/

namespace Argument

/-- The bytes that follow an opcode for an argument, and the operand that they make. -/
inductive Encodes (branch : Int32 → Operand) : Argument → List UInt8 → Operand → Prop
  | register (r : Register) : Encodes branch (.register r) [] (.register r.name)
  | indirect (r : Register) : Encodes branch (.indirect r) [] (.indirect r.name)
  | indexedByL (r : Register) : Encodes branch (.indexedByL r) [] (.indexedByL r.name)
  | displaced (r : Register) (distance : UInt8) :
      Encodes branch (.displaced r) [distance] (.displaced r.name distance.toInt8)
  | absolute (low high : UInt8) : Encodes branch .absolute [low, high] (.absolute (Cursor.wordOf low high))
  | brPage (offset : UInt8) : Encodes branch .brPage [offset] (.brPage offset)
  | vector (entry : UInt8) : Encodes branch .vector [entry] (.vector entry)
  | immediate8 (value : UInt8) : Encodes branch .immediate8 [value] (.immediate8 value)
  | immediate16 (low high : UInt8) : Encodes branch .immediate16 [low, high] (.immediate16 (Cursor.wordOf low high))
  | relative8 (distance : UInt8) : Encodes branch .relative8 [distance] (branch distance.toInt8.toInt32)
  | relative16 (low high : UInt8) :
      Encodes branch .relative16 [low, high] (branch (Cursor.wordOf low high).toInt16.toInt32)

/-- The same for a list of arguments: each has bytes of its own, and they follow each other in order. -/
inductive EncodesAll (branch : Int32 → Operand) : List Argument → List UInt8 → List Operand → Prop
  | nil : EncodesAll branch [] [] []
  | cons {argument : Argument} {bytes : List UInt8} {operand : Operand} {arguments : List Argument} {rest : List UInt8}
      {operands : List Operand} : Encodes branch argument bytes operand → EncodesAll branch arguments rest operands →
        EncodesAll branch (argument :: arguments) (bytes ++ rest) (operand :: operands)

variable {branch : Int32 → Operand} {argument : Argument} {arguments : List Argument} {bytes : List UInt8}
  {operand : Operand} {operands : List Operand}

theorem Encodes.length (h : Encodes branch argument bytes operand) : bytes.length = argument.size := by
  cases h <;> rfl

theorem EncodesAll.length (h : EncodesAll branch arguments bytes operands) : bytes.length = totalSize arguments := by
  induction h with
  | nil => rfl
  | cons hfirst _ ih =>
    rw [List.length_append, hfirst.length, ih]
    rfl

/-- To read an operand is to take its bytes off the front. If there are too few, all of them are taken. -/
theorem read_cases (branch : Int32 → Operand) (argument : Argument) (cursor : Cursor) :
    (cursor.remaining < argument.size ∧ argument.read branch cursor = (none, cursor.skip cursor.remaining)) ∨
      ∃ bytes rest operand, cursor.rest = bytes ++ rest ∧ Encodes branch argument bytes operand ∧
        argument.read branch cursor = (some operand, cursor.skip bytes.length) := by
  obtain ⟨start, index, rest⟩ := cursor
  cases argument with
  | register r => exact .inr ⟨[], rest, _, rfl, .register r, by simp [read]⟩
  | indirect r => exact .inr ⟨[], rest, _, rfl, .indirect r, by simp [read]⟩
  | indexedByL r => exact .inr ⟨[], rest, _, rfl, .indexedByL r, by simp [read]⟩
  | displaced _ | brPage | vector | immediate8 | relative8 =>
    cases rest with
    | nil => exact .inl ⟨by simp [Cursor.remaining, size], by simp [read, Cursor.byte, Cursor.remaining]⟩
    | cons byte rest => exact .inr ⟨[byte], rest, _, rfl, by constructor, rfl⟩
  | absolute | immediate16 | relative16 =>
    cases rest with
    | nil => exact .inl ⟨by simp [Cursor.remaining, size], by simp [read, Cursor.word, Cursor.remaining]⟩
    | cons low rest =>
      cases rest with
      | nil => exact .inl ⟨by simp [Cursor.remaining, size], by simp [read, Cursor.word, Cursor.remaining]⟩
      | cons high rest => exact .inr ⟨[low, high], rest, _, rfl, by constructor, rfl⟩

theorem readAll_cases (branch : Int32 → Operand) (arguments : List Argument) (cursor : Cursor) :
    (cursor.remaining < totalSize arguments ∧
        readAll branch arguments cursor = (none, cursor.skip cursor.remaining)) ∨
      ∃ bytes rest operands, cursor.rest = bytes ++ rest ∧ EncodesAll branch arguments bytes operands ∧
        readAll branch arguments cursor = (some operands, cursor.skip bytes.length) := by
  induction arguments generalizing cursor with
  | nil => exact .inr ⟨[], cursor.rest, [], rfl, .nil, by simp [readAll]⟩
  | cons argument arguments ih =>
    have hsize : totalSize (argument :: arguments) = argument.size + totalSize arguments := rfl
    rcases read_cases branch argument cursor with ⟨hlt, hread⟩ | ⟨bytes, rest, operand, hrest, hbytes, hread⟩
    · refine .inl ⟨by omega, ?_⟩
      simp only [readAll, hread]
    · have hlength := hbytes.length
      have hremaining : cursor.remaining = bytes.length + rest.length := by
        rw [Cursor.remaining, hrest, List.length_append]
      rcases ih (cursor.skip bytes.length) with ⟨hlt, hreadAll⟩ | ⟨others, rest', operands, hrest', hothers, hreadAll⟩
      · -- a later operand is cut off: the bytes of the earlier ones and of this one are all that there are
        rw [Cursor.remaining_skip] at hlt
        refine .inl ⟨by omega, ?_⟩
        simp only [readAll, hread, hreadAll, Cursor.remaining_skip, Cursor.skip_skip]
        rw [Nat.add_sub_cancel' (by omega)]
      · rw [Cursor.rest_skip, hrest, List.drop_left] at hrest'
        refine .inr ⟨bytes ++ others, rest', operand :: operands, ?_, .cons hbytes hothers, ?_⟩
        · rw [hrest, hrest', List.append_assoc]
        · simp only [readAll, hread, hreadAll, Cursor.skip_skip, List.length_append]

end Argument

/-! ## Opcodes -/

/-- The first `length` bytes lead to an undefined entry of the tables, and to none before. -/
inductive Opcode.DeadEnd : List UInt8 → (length : Nat) → Prop
  | first {byte : UInt8} {rest : List UInt8} : Slot.ofByte byte = .undefined → DeadEnd (byte :: rest) 1
  | second {byte next : UInt8} {rest : List UInt8} {extension : Extension} :
      Slot.ofByte byte = .extension extension → extension.operation? next = none → DeadEnd (byte :: next :: rest) 2

namespace Opcode

variable {bytes : List UInt8} {size length : Nat} {operation : Operation}

theorem DeadEnd.unique (h : DeadEnd bytes size) (h' : DeadEnd bytes length) : size = length := by
  cases h with
  | first hslot =>
    cases h' with
    | first _ => rfl
    | second hslot' _ => simp [hslot] at hslot'
  | second hslot _ =>
    cases h' with
    | first hslot' => simp [hslot] at hslot'
    | second _ _ => rfl

theorem DeadEnd.length_le (h : DeadEnd bytes length) : length ≤ bytes.length := by
  cases h <;> simp

theorem DeadEnd.lookup_eq_none (h : DeadEnd bytes length) : lookup bytes = none := by
  cases h with
  | first hslot => simp [lookup, hslot]
  | second hslot hnone => simp [lookup, hslot, hnone]

/-- An opcode is found where it has all its bytes. -/
theorem lookup_take (h : lookup bytes = some (size, operation)) {count : Nat} (hsize : size ≤ count) :
    lookup (bytes.take count) = some (size, operation) := by
  unfold lookup at h
  split at h
  · cases h
  · next first rest =>
    split at h
    · cases h
    · next found hslot =>
      obtain ⟨rfl, rfl⟩ := Prod.mk.inj (Option.some.inj h)
      obtain ⟨count, rfl⟩ := Nat.exists_eq_add_of_le' hsize
      simp [lookup, hslot]
    · next extension hslot =>
      split at h
      · cases h
      · next second rest =>
        obtain ⟨found, hfound, heq⟩ := Option.map_eq_some_iff.1 h
        obtain ⟨rfl, rfl⟩ := Prod.mk.inj heq
        obtain ⟨count, rfl⟩ := Nat.exists_eq_add_of_le' hsize
        simp [lookup, hslot, hfound]

end Opcode

/-- The decoder follows the tables as a look-up does. It stops behind the opcode, at a dead end, or where the bytes end. -/
theorem Cursor.operation_cases (cursor : Cursor) :
    (∃ size operation, Opcode.lookup cursor.rest = some (size, operation) ∧ size ≤ cursor.remaining ∧
        cursor.operation = (some operation, cursor.skip size)) ∨
      Opcode.lookup cursor.rest = none ∧ ∃ length, cursor.operation = (none, cursor.skip length) ∧
        (Opcode.DeadEnd cursor.rest length ∨
          length = cursor.remaining ∧ ∀ other, ¬ Opcode.DeadEnd cursor.rest other) := by
  obtain ⟨start, index, rest⟩ := cursor
  cases rest with
  | nil => exact .inr ⟨rfl, 0, by simp [operation, byte], .inr ⟨rfl, fun _ h => nomatch h⟩⟩
  | cons first rest =>
    cases hslot : Slot.ofByte first with
    | undefined =>
      exact .inr ⟨by simp [Opcode.lookup, hslot], 1, by simp [operation, byte, hslot], .inl (.first hslot)⟩
    | operation found =>
      refine .inl ⟨1, found, by simp [Opcode.lookup, hslot], by simp [remaining], by simp [operation, byte, hslot]⟩
    | extension extension =>
      cases rest with
      | nil =>
        refine .inr ⟨by simp [Opcode.lookup, hslot], 1, by simp [operation, byte, hslot, skip], .inr ⟨rfl, ?_⟩⟩
        intro other h
        cases h with
        | first hundefined => simp [hslot] at hundefined
      | cons second rest =>
        have hread : Cursor.operation ⟨start, index, first :: second :: rest⟩ =
            (extension.operation? second, skip ⟨start, index, first :: second :: rest⟩ 2) := by
          simp [operation, byte, hslot, skip]
        cases hfound : extension.operation? second with
        | none =>
          refine .inr ⟨by simp [Opcode.lookup, hslot, hfound], 2, ?_, .inl (.second hslot hfound)⟩
          rw [hread, hfound]
        | some found =>
          refine .inl ⟨2, found, by simp [Opcode.lookup, hslot, hfound], by simp [remaining], ?_⟩
          rw [hread, hfound]

/-- The bytes ahead are those of an operation, or there is none that has all its bytes. -/
theorem Cursor.complete_or_cut (cursor : Cursor) :
    (∃ size operation, Opcode.lookup cursor.rest = some (size, operation) ∧
        size + operation.operandSize ≤ cursor.remaining) ∨
      ∀ size operation, Opcode.lookup cursor.rest = some (size, operation) →
        cursor.remaining < size + operation.operandSize := by
  by_cases h : ∃ size operation, Opcode.lookup cursor.rest = some (size, operation) ∧
      size + operation.operandSize ≤ cursor.remaining
  · exact .inl h
  · exact .inr fun size operation hlookup => Nat.lt_of_not_le fun hbytes => h ⟨size, operation, hlookup, hbytes⟩

/-! ## Instructions -/

/-- The mnemonics of rows behind which the bytes need not be code. -/
def Mnemonic.breaks : List String :=
  ["CALL", "CARS", "CARL", "JRS", "JRL", "JP", "DJR", "INT", "RET", "RETE", "RETS", Row.illegalMnemonic]

theorem Mnemonic.text_mem_breaks_iff (mnemonic : Mnemonic) : mnemonic.text ∈ breaks ↔ mnemonic.endsRun = true := by
  cases mnemonic <;> decide

/-- The row is an instruction, and its bytes are those of an operation with these operands. -/
structure Row.Shows (branch : Int32 → Operand) (row : Row) (size : Nat) (operation : Operation)
    (operands : List Operand) : Prop where
  kind : row.kind = .instruction
  mnemonic : row.mnemonic = operation.mnemonic.text
  lookup : Opcode.lookup row.raw = some (size, operation)
  encodes : Argument.EncodesAll branch operation.arguments (row.raw.drop size) operands
  operands : row.operands = operation.condition.toList.map .condition ++ operands

namespace Instruction

variable {symbols : Symbols} {jumpPage : UInt32} {cursor : Cursor} {size : Nat} {operation : Operation}

/-- The operand of a relative branch in front of an address. -/
def branchBefore (symbols : Symbols) (next jumpPage : UInt32) (displacement : Int32) : Operand :=
  branchTo symbols (Address.relativeTarget next displacement jumpPage)

/-- The bytes of an operation and its operands, as an instruction. -/
def ofOperation (jumpPage : UInt32) (cursor : Cursor) (size : Nat) (operation : Operation) (operands : List Operand) :
    Instruction where
  row :=
    { address := cursor.address
      kind := .instruction
      mnemonic := operation.mnemonic.text
      operands := operation.condition.toList.map .condition ++ operands
      raw := cursor.rest.take (size + operation.operandSize)
      label := none }
  endsRun := operation.mnemonic.endsRun
  jumpPage := (operation.loadedPage? operands).getD jumpPage
  after := cursor.skip (size + operation.operandSize)

/-- An operation that has all its bytes. -/
theorem decode_of_complete (symbols : Symbols) (jumpPage : UInt32)
    (hlookup : Opcode.lookup cursor.rest = some (size, operation)) (hbytes : size + operation.operandSize ≤ cursor.remaining) :
    ∃ operands,
      (decode symbols jumpPage cursor).row.Shows
        (branchBefore symbols (decode symbols jumpPage cursor).row.stop jumpPage) size operation operands ∧
      decode symbols jumpPage cursor = ofOperation jumpPage cursor size operation operands := by
  rcases cursor.operation_cases with ⟨size', operation', hfound, -, hoperation⟩ | ⟨hnone, -⟩
  · obtain ⟨rfl, rfl⟩ := Prod.mk.inj (Option.some.inj (hfound.symm.trans hlookup))
    rcases Argument.readAll_cases
      (branchBefore symbols (cursor.skip (size' + operation'.operandSize)).address jumpPage)
      operation'.arguments (cursor.skip size') with ⟨hlt, -⟩ | ⟨bytes, rest, operands, hrest, hencodes, hreadAll⟩
    · rw [Cursor.remaining_skip] at hlt
      have : Argument.totalSize operation'.arguments = operation'.operandSize := rfl
      omega
    · have hlength : bytes.length = operation'.operandSize := hencodes.length
      have hown : (cursor.rest.take (size' + operation'.operandSize)).drop size' = bytes := by
        rw [List.drop_take, Nat.add_sub_cancel_left, ← Cursor.rest_skip, hrest, ← hlength, List.take_left]
      have hdecode : decode symbols jumpPage cursor = ofOperation jumpPage cursor size' operation' operands := by
        unfold branchBefore at hreadAll
        simp only [decode, hoperation, Cursor.skip_skip, hreadAll, hlength, Cursor.bytesTo_skip, ofOperation]
      have hstop : (ofOperation jumpPage cursor size' operation' operands).row.stop =
          (cursor.skip (size' + operation'.operandSize)).address := by
        rw [Cursor.address_skip, Row.stop, Row.length, ofOperation, List.length_take_of_le hbytes]
      refine ⟨operands, ?_, hdecode⟩
      rw [hdecode, hstop]
      exact ⟨rfl, rfl, Opcode.lookup_take hlookup (Nat.le_add_right ..), hown.symm ▸ hencodes, rfl⟩
  · rw [hnone] at hlookup
    cases hlookup

/-- An operation that is undefined or does not have all its bytes. -/
theorem decode_of_incomplete (symbols : Symbols) (jumpPage : UInt32)
    (hcut : ∀ size operation, Opcode.lookup cursor.rest = some (size, operation) →
      cursor.remaining < size + operation.operandSize) :
    ∃ length, decode symbols jumpPage cursor = illegal jumpPage cursor (cursor.skip length) ∧
      (Opcode.DeadEnd cursor.rest length ∨
        length = cursor.remaining ∧ ∀ other, ¬ Opcode.DeadEnd cursor.rest other) := by
  rcases cursor.operation_cases with ⟨size, operation, hlookup, hsize, hoperation⟩ | ⟨-, length, hoperation, hlength⟩
  · have hlt := hcut size operation hlookup
    rcases Argument.readAll_cases
      (branchBefore symbols (cursor.skip (size + operation.operandSize)).address jumpPage)
      operation.arguments (cursor.skip size) with ⟨-, hreadAll⟩ | ⟨bytes, rest, operands, hrest, hencodes, -⟩
    · refine ⟨cursor.remaining, ?_, .inr ⟨rfl, fun other hdead => ?_⟩⟩
      · unfold branchBefore at hreadAll
        rw [Cursor.remaining_skip, Cursor.skip_skip, Nat.add_sub_cancel' hsize] at hreadAll
        simp only [decode, hoperation, Cursor.skip_skip, hreadAll]
      · rw [hdead.lookup_eq_none] at hlookup
        cases hlookup
    · -- operands that are read have their bytes
      have hlength : bytes.length = operation.operandSize := hencodes.length
      have hremaining : (cursor.skip size).remaining = bytes.length + rest.length := by
        rw [Cursor.remaining, hrest, List.length_append]
      rw [Cursor.remaining_skip] at hremaining
      omega
  · refine ⟨length, ?_, hlength⟩
    simp only [decode, hoperation]

/-- An instruction is what the tables say about the bytes ahead. -/
structure Agrees (symbols : Symbols) (jumpPage : UInt32) (cursor : Cursor) (instruction : Instruction) : Prop where
  address : instruction.row.address = cursor.address
  /-- An operation with all its bytes is an instruction of just these. -/
  complete : ∀ size operation, Opcode.lookup cursor.rest = some (size, operation) →
    size + operation.operandSize ≤ cursor.remaining →
      instruction.row.kind = .instruction ∧ instruction.row.mnemonic = operation.mnemonic.text ∧
        instruction.row.raw = cursor.rest.take (size + operation.operandSize) ∧
        ∃ operands, instruction.row.operands = operation.condition.toList.map .condition ++ operands ∧
          Argument.EncodesAll (branchBefore symbols instruction.row.stop jumpPage) operation.arguments
            (instruction.row.raw.drop size) operands
  /-- Everything else is illegal. -/
  incomplete : (∀ size operation, Opcode.lookup cursor.rest = some (size, operation) →
    cursor.remaining < size + operation.operandSize) →
      instruction.row.kind = .illegal ∧ instruction.row.mnemonic = Row.illegalMnemonic ∧ instruction.row.operands = [] ∧
        (∀ length, Opcode.DeadEnd cursor.rest length → instruction.row.raw = cursor.rest.take length) ∧
        ((∀ length, ¬ Opcode.DeadEnd cursor.rest length) → instruction.row.raw = cursor.rest)
  after : instruction.after = cursor.skip instruction.row.length
  endsRun : instruction.endsRun = true ↔
    instruction.row.kind = .illegal ∨ instruction.row.mnemonic ∈ Mnemonic.breaks

theorem agrees_of_complete (hlookup : Opcode.lookup cursor.rest = some (size, operation))
    (hbytes : size + operation.operandSize ≤ cursor.remaining) :
    Agrees symbols jumpPage cursor (decode symbols jumpPage cursor) := by
  obtain ⟨operands, hshows, hdecode⟩ := decode_of_complete symbols jumpPage hlookup hbytes
  have hraw : (decode symbols jumpPage cursor).row.raw = cursor.rest.take (size + operation.operandSize) := by
    rw [hdecode]
    rfl
  refine ⟨?_, ?_, ?_, ?_, ?_⟩
  · rw [hdecode]
    rfl
  · intro size' operation' hlookup' _
    obtain ⟨rfl, rfl⟩ := Prod.mk.inj (Option.some.inj (hlookup.symm.trans hlookup'))
    exact ⟨hshows.kind, hshows.mnemonic, hraw, operands, hshows.operands, hshows.encodes⟩
  · intro hcut
    have hlt := hcut size operation hlookup
    omega
  · rw [Row.length, hraw, List.length_take_of_le hbytes, hdecode]
    rfl
  · rw [hdecode]
    simp [ofOperation, operation.mnemonic.text_mem_breaks_iff]

theorem agrees_of_incomplete (hcut : ∀ size operation, Opcode.lookup cursor.rest = some (size, operation) →
      cursor.remaining < size + operation.operandSize) :
    Agrees symbols jumpPage cursor (decode symbols jumpPage cursor) := by
  obtain ⟨length, hdecode, hlength⟩ := decode_of_incomplete symbols jumpPage hcut
  rw [hdecode]
  refine ⟨rfl, ?_, ?_, ?_, ?_⟩
  · intro size operation hlookup hbytes
    have hlt := hcut size operation hlookup
    omega
  · intro _
    refine ⟨rfl, rfl, rfl, ?_, ?_⟩
    · intro length' hdead
      rcases hlength with hdead' | ⟨-, hnone⟩
      · rw [hdead.unique hdead']
        exact cursor.bytesTo_skip length
      · exact absurd hdead (hnone length')
    · intro hnone
      rcases hlength with hdead | ⟨rfl, -⟩
      · exact absurd hdead (hnone length)
      · exact (cursor.bytesTo_skip _).trans (List.take_of_length_le (Nat.le_refl _))
  · have hle : length ≤ cursor.rest.length := by
      rcases hlength with hdead | ⟨rfl, -⟩
      · exact hdead.length_le
      · exact Nat.le_refl _
    have hrow : (illegal jumpPage cursor (cursor.skip length)).row.length = length := by
      show (cursor.bytesTo (cursor.skip length)).length = length
      rw [Cursor.bytesTo_skip, List.length_take_of_le hle]
    rw [hrow]
    rfl
  · simp [illegal]

/-- **The decoder agrees with the tables**, whatever is ahead and wherever it ends. -/
theorem decode_agrees (symbols : Symbols) (jumpPage : UInt32) (cursor : Cursor) :
    Agrees symbols jumpPage cursor (decode symbols jumpPage cursor) := by
  by_cases h : ∃ size operation, Opcode.lookup cursor.rest = some (size, operation) ∧
      size + operation.operandSize ≤ cursor.remaining
  · obtain ⟨size, operation, hlookup, hbytes⟩ := h
    exact agrees_of_complete hlookup hbytes
  · refine agrees_of_incomplete fun size operation hlookup => ?_
    by_contra hbytes
    exact h ⟨size, operation, hlookup, Nat.le_of_not_lt hbytes⟩

/-- A word that is cut off is part of the illegal row. -/
example : (decode (.empty defaultStem) 0 (.ofBytes 0x1FFE [0xC4, 0x12])).row.raw = [0xC4, 0x12] := by decide

end Instruction

end TraceDisasm
