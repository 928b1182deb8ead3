import TraceDisasm.Instruction

/-!
# Reading goes forward

Every reader of the decoder takes bytes off the front of what is ahead and does nothing else: the position behind it is
the one before it, moved on by a number of bytes that were there (`Cursor.Reaches`). So what a row covers is settled by
that number alone. For a whole instruction it is at least one, and the row covers exactly the bytes that were read
(`Instruction.decode_reads`), whether the bytes made an operation, led to an undefined opcode or ended too early.
-/

namespace TraceDisasm

/-! ## Moving on -/

theorem Address.add_ofNat_add (address : UInt32) (m n : Nat) :
    address + UInt32.ofNat m + UInt32.ofNat n = address + UInt32.ofNat (m + n) := by
  rw [UInt32.add_assoc, UInt32.ofNat_add]

namespace Cursor

@[simp] theorem skip_zero (cursor : Cursor) : cursor.skip 0 = cursor := by
  simp [skip]

@[simp] theorem skip_skip (cursor : Cursor) (m n : Nat) : (cursor.skip m).skip n = cursor.skip (m + n) := by
  simp [skip, Nat.add_assoc]

@[simp] theorem rest_skip (cursor : Cursor) (n : Nat) : (cursor.skip n).rest = cursor.rest.drop n := rfl

@[simp] theorem remaining_skip (cursor : Cursor) (n : Nat) : (cursor.skip n).remaining = cursor.remaining - n := by
  simp [remaining]

theorem address_skip (cursor : Cursor) (n : Nat) : (cursor.skip n).address = cursor.address + UInt32.ofNat n :=
  (Address.add_ofNat_add cursor.start cursor.index n).symm

/-- The later position comes from the earlier one by reading some of the bytes ahead. -/
def Reaches (cursor after : Cursor) : Prop :=
  ∃ count, count ≤ cursor.remaining ∧ after = cursor.skip count

theorem Reaches.refl (cursor : Cursor) : cursor.Reaches cursor :=
  ⟨0, Nat.zero_le _, by simp⟩

theorem Reaches.trans {a b c : Cursor} (hab : a.Reaches b) (hbc : b.Reaches c) : a.Reaches c := by
  obtain ⟨m, hm, rfl⟩ := hab
  obtain ⟨n, hn, rfl⟩ := hbc
  rw [remaining_skip] at hn
  exact ⟨m + n, by omega, by simp⟩

theorem reaches_byte (cursor : Cursor) : cursor.Reaches cursor.byte.2 := by
  obtain ⟨start, index, rest⟩ := cursor
  cases rest with
  | nil => exact .refl _
  | cons b rest => exact ⟨1, by simp [remaining], rfl⟩

theorem reaches_word (cursor : Cursor) : cursor.Reaches cursor.word.2 := by
  obtain ⟨start, index, rest⟩ := cursor
  match rest with
  | [] => exact .refl _
  | [_] => exact ⟨1, by simp [remaining], rfl⟩
  | _ :: _ :: _ => exact ⟨2, by simp [remaining], rfl⟩

theorem reaches_operation (cursor : Cursor) : cursor.Reaches cursor.operation.2 := by
  have first := reaches_byte cursor
  simp only [operation]
  split
  · next after hb => rwa [hb] at first
  · next byte after hb =>
    rw [hb] at first
    split
    · exact first
    · exact first
    · -- an extension byte: the byte behind it is read as well
      have second := first.trans (reaches_byte after)
      split
      · next last hl => rwa [hl] at second
      · next byte' last hl => rwa [hl] at second

end Cursor

/-! ## Operands -/

namespace Argument

theorem reaches_read (branch : Int32 → Operand) (argument : Argument) (cursor : Cursor) :
    cursor.Reaches (argument.read branch cursor).2 := by
  cases argument with
  | register _ | indirect _ | indexedByL _ => exact .refl _
  | displaced _ | brPage | vector | immediate8 | relative8 => exact cursor.reaches_byte
  | absolute | immediate16 | relative16 => exact cursor.reaches_word

theorem reaches_readAll (branch : Int32 → Operand) (arguments : List Argument) (cursor : Cursor) :
    cursor.Reaches (readAll branch arguments cursor).2 := by
  induction arguments generalizing cursor with
  | nil => exact .refl _
  | cons argument arguments ih =>
    have first := reaches_read branch argument cursor
    simp only [readAll]
    split
    · next after hr => rwa [hr] at first
    · next operand after hr =>
      rw [hr] at first
      have all := first.trans (ih after)
      split
      · next last hl => rwa [hl] at all
      · next operands last hl => rwa [hl] at all

end Argument

/-! ## Instructions -/

namespace Instruction

theorem reaches_decode (symbols : Symbols) (jumpPage : UInt32) (cursor : Cursor) :
    cursor.Reaches (decode symbols jumpPage cursor).after := by
  have opcode := cursor.reaches_operation
  simp only [decode]
  split
  · next after ho => rwa [ho] at opcode
  · next operation opcodeEnd ho =>
    rw [ho] at opcode
    have all := opcode.trans (Argument.reaches_readAll
      (fun d => branchTo symbols
        (Address.relativeTarget (opcodeEnd.skip operation.operandSize).address d jumpPage))
      operation.arguments opcodeEnd)
    split
    · next after hr => rwa [hr] at all
    · next operands after hr => rwa [hr] at all

theorem decode_row_address (symbols : Symbols) (jumpPage : UInt32) (cursor : Cursor) :
    (decode symbols jumpPage cursor).row.address = cursor.address := by
  simp only [decode]
  split
  · rfl
  · split <;> rfl

theorem decode_row_raw (symbols : Symbols) (jumpPage : UInt32) (cursor : Cursor) :
    (decode symbols jumpPage cursor).row.raw = cursor.bytesTo (decode symbols jumpPage cursor).after := by
  simp only [decode]
  split
  · rfl
  · split <;> rfl

/-- An instruction takes some bytes, at least one, and its row covers just these. -/
theorem decode_reads (symbols : Symbols) (jumpPage : UInt32) (cursor : Cursor) (h : cursor.rest ≠ []) :
    ∃ count, 1 ≤ count ∧ count ≤ cursor.remaining ∧
      (decode symbols jumpPage cursor).after = cursor.skip count ∧
      (decode symbols jumpPage cursor).row.raw = cursor.rest.take count := by
  obtain ⟨count, hle, hafter⟩ := reaches_decode symbols jumpPage cursor
  have hlt := decode_remaining_lt symbols jumpPage cursor h
  rw [hafter, Cursor.remaining_skip] at hlt
  refine ⟨count, by omega, hle, hafter, ?_⟩
  rw [decode_row_raw, hafter, Cursor.bytesTo_skip]

end Instruction

end TraceDisasm
