import TraceDisasm.Proofs.Tiling

/-!
# Listing a bank with every step checked

A listing cuts pieces out of the bytes of its view, counts the bytes that are left, and adds up addresses. Here it is made
once more, in the same order, by steps that have no result where an index, a difference or a sum would leave its range. A
position is kept as the number of bytes that have been read, and only the bytes of the view tell what is ahead.

As long as a view ends inside the address arithmetic, no step is left without a result, and the rows are those of the
listing (`Checked.list_eq`). What carries the proof is the place where a walk stands in its view (`Walk.IsAt`): every reader
of the decoder moves it on by bytes that are there, also where the bytes end inside an instruction.
-/

namespace TraceDisasm

/-! ## Steps that may have no result -/

namespace Checked

/-- The sum of two addresses, if it is one. -/
def sum (a b : UInt32) : Option UInt32 :=
  if a.toNat + b.toNat < 0x100000000 then some (a + b) else none

example : sum 0xFFFFFFFE 1 = some 0xFFFFFFFF ∧ sum 0xFFFFFFFE 2 = none := by decide

/-- The difference of two numbers, if it is one. -/
def difference (a b : Nat) : Option Nat :=
  if b ≤ a then some (a - b) else none

/-- The items from `first` up to `stop`, if these are places in the list, and in this order. -/
def piece {α : Type} (items : List α) (first stop : Nat) : Option (List α) :=
  if first ≤ stop ∧ stop ≤ items.length then some ((items.drop first).take (stop - first)) else none

/-- The address that a relative branch reaches, if the sum that it is resolved by is a signed number of 32 bits. -/
def relativeTarget (next : UInt32) (displacement : Int32) (jumpPage : UInt32) : Option UInt32 :=
  let target : Int := (Address.logical next).toNat + displacement.toInt
  if -0x80000000 ≤ target ∧ target < 0x80000000 then some (Address.relativeTarget next displacement jumpPage) else none

/-- A displacement of 16 bits does not lead out of the range. -/
theorem relativeTarget_eq (next : UInt32) {displacement : Int32} (hlo : -0x8000 ≤ displacement.toInt)
    (hhi : displacement.toInt < 0x8000) (jumpPage : UInt32) :
    relativeTarget next displacement jumpPage = some (Address.relativeTarget next displacement jumpPage) := by
  have hlogical := (Address.logical next).toNat_lt
  rw [relativeTarget, if_pos]
  omega

end Checked

namespace View

/-- The view ends inside the address arithmetic. -/
def Bounded (view : View) : Prop := view.start.toNat + view.bytes.length < 0x100000000

/-- The reading position behind some bytes. -/
def cursorAt (view : View) (index : Nat) : Cursor := (Cursor.ofBytes view.start view.bytes).skip index

/-- What is known about the byte at a position. -/
def knownAt (view : View) (index : Nat) : Access := (view.trace.drop index).headD .none

end View

namespace Checked

/-- The address of the byte at a position. -/
def address (view : View) (index : Nat) : Option UInt32 := sum view.start (UInt32.ofNat index)

/-- Number of bytes from a position on. -/
def remaining (view : View) (index : Nat) : Option Nat := difference view.bytes.length index

/-- The bytes from one position up to another. -/
def consumed (view : View) (first stop : Nat) : Option (List UInt8) := piece view.bytes first stop

variable {view : View} {index stop : Nat}

theorem address_eq (bounded : view.Bounded) (h : index ≤ view.bytes.length) :
    address view index = some (view.start + UInt32.ofNat index) := by
  rw [View.Bounded] at bounded
  rw [address, sum, UInt32.toNat_ofNat', if_pos]
  omega

theorem remaining_eq (h : index ≤ view.bytes.length) : remaining view index = some (view.bytes.length - index) :=
  if_pos h

theorem consumed_eq (h : index ≤ stop) (hstop : stop ≤ view.bytes.length) :
    consumed view index stop = some ((view.bytes.drop index).take (stop - index)) :=
  if_pos ⟨h, hstop⟩

end Checked

/-! ## Operands -/

/-- The bytes of an operand as they are read, before it is known what they mean. -/
inductive RawOperand
  | nothing
  | byte (value : UInt8)
  | word (value : UInt16)

/-- The byte that was read, zero if none was. -/
def RawOperand.byteValue : RawOperand → UInt8
  | byte value => value
  | _ => 0

/-- The word that was read, zero if none was. -/
def RawOperand.wordValue : RawOperand → UInt16
  | word value => value
  | _ => 0

namespace Argument

/-- Reads the bytes that an argument announces. -/
def readRaw (argument : Argument) (cursor : Cursor) : Option RawOperand × Cursor :=
  match argument.size with
  | 1 => (cursor.byte.1.map .byte, cursor.byte.2)
  | 2 => (cursor.word.1.map .word, cursor.word.2)
  | _ => (some .nothing, cursor)

/-- Reads the bytes of a list of arguments, in order, as far as the bytes last. -/
def readAllRaw : List Argument → Cursor → Option (List RawOperand) × Cursor
  | [], cursor => (some [], cursor)
  | argument :: arguments, cursor =>
    match argument.readRaw cursor with
    | (none, cursor) => (none, cursor)
    | (some raw, cursor) =>
      match readAllRaw arguments cursor with
      | (none, cursor) => (none, cursor)
      | (some raws, cursor) => (some (raw :: raws), cursor)

/-- The operand of an argument. To make the one of a relative branch may fail. -/
def format (branch : Int32 → Option Operand) (argument : Argument) (raw : RawOperand) : Option Operand :=
  match argument with
  | .register r => some (.register r.name)
  | .indirect r => some (.indirect r.name)
  | .indexedByL r => some (.indexedByL r.name)
  | .displaced r => some (.displaced r.name raw.byteValue.toInt8)
  | .absolute => some (.absolute raw.wordValue)
  | .brPage => some (.brPage raw.byteValue)
  | .vector => some (.vector raw.byteValue)
  | .immediate8 => some (.immediate8 raw.byteValue)
  | .immediate16 => some (.immediate16 raw.wordValue)
  | .relative8 => branch raw.byteValue.toInt8.toInt32
  | .relative16 => branch raw.wordValue.toInt16.toInt32

/-- The operands of a list of arguments. -/
def formatAll (branch : Int32 → Option Operand) : List Argument → List RawOperand → Option (List Operand)
  | argument :: arguments, raw :: raws => do
    let operand ← argument.format branch raw
    let operands ← formatAll branch arguments raws
    return operand :: operands
  | _, _ => some []

/-- Number of bytes of a list of arguments. -/
def totalSize (arguments : List Argument) : Nat := arguments.foldr (fun argument size => argument.size + size) 0

variable {branch : Int32 → Operand} {checked : Int32 → Option Operand}

/-- To read an operand is to read its bytes and to make the operand from them. Either both end too early, or both read all
the bytes that the argument announces. -/
theorem readRaw_cases (hbranch : ∀ displacement : Int32, -0x8000 ≤ displacement.toInt → displacement.toInt < 0x8000 →
      checked displacement = some (branch displacement)) (argument : Argument) (cursor : Cursor) :
    (∃ after, argument.readRaw cursor = (none, after) ∧ argument.read branch cursor = (none, after)) ∨
      ∃ raw operand, argument.readRaw cursor = (some raw, cursor.skip argument.size) ∧
        argument.size ≤ cursor.remaining ∧ argument.format checked raw = some operand ∧
        argument.read branch cursor = (some operand, cursor.skip argument.size) := by
  have hbyte (value : UInt8) : checked value.toInt8.toInt32 = some (branch value.toInt8.toInt32) := by
    have hlo := value.toInt8.le_toInt
    have hhi := value.toInt8.toInt_lt
    refine hbranch _ ?_ ?_ <;> rw [Int8.toInt_toInt32] <;> omega
  have hword (value : UInt16) : checked value.toInt16.toInt32 = some (branch value.toInt16.toInt32) := by
    have hlo := value.toInt16.le_toInt
    have hhi := value.toInt16.toInt_lt
    refine hbranch _ ?_ ?_ <;> rw [Int16.toInt_toInt32] <;> omega
  obtain ⟨start, index, rest⟩ := cursor
  cases argument with
  | register r | indirect r | indexedByL r =>
    exact .inr ⟨.nothing, _, by rw [size, Cursor.skip_zero]; rfl, Nat.zero_le _, rfl, by rw [size, Cursor.skip_zero]; rfl⟩
  | displaced _ | brPage | vector | immediate8 | relative8 =>
    cases rest with
    | nil => exact .inl ⟨_, rfl, rfl⟩
    | cons value rest =>
      exact .inr ⟨.byte value, _, rfl, by simp [Cursor.remaining, size], by simp [format, RawOperand.byteValue, hbyte], rfl⟩
  | absolute | immediate16 | relative16 =>
    cases rest with
    | nil => exact .inl ⟨_, rfl, rfl⟩
    | cons low rest =>
      cases rest with
      | nil => exact .inl ⟨_, rfl, rfl⟩
      | cons high rest =>
        exact .inr ⟨.word (Cursor.wordOf low high), _, rfl, by simp [Cursor.remaining, size],
          by simp [format, RawOperand.wordValue, hword], rfl⟩

/-- The same holds for the operands of an instruction. -/
theorem readAllRaw_cases (hbranch : ∀ displacement : Int32, -0x8000 ≤ displacement.toInt → displacement.toInt < 0x8000 →
      checked displacement = some (branch displacement)) (arguments : List Argument) (cursor : Cursor) :
    (∃ after, readAllRaw arguments cursor = (none, after) ∧ readAll branch arguments cursor = (none, after)) ∨
      ∃ raws operands, readAllRaw arguments cursor = (some raws, cursor.skip (totalSize arguments)) ∧
        totalSize arguments ≤ cursor.remaining ∧ formatAll checked arguments raws = some operands ∧
        readAll branch arguments cursor = (some operands, cursor.skip (totalSize arguments)) := by
  induction arguments generalizing cursor with
  | nil => exact .inr ⟨[], [], by rw [totalSize, List.foldr_nil, Cursor.skip_zero]; rfl, Nat.zero_le _, rfl,
      by rw [totalSize, List.foldr_nil, Cursor.skip_zero]; rfl⟩
  | cons argument arguments ih =>
    have hsize : totalSize (argument :: arguments) = argument.size + totalSize arguments := rfl
    rcases readRaw_cases hbranch argument cursor with ⟨after, hraw, hread⟩ | ⟨raw, operand, hraw, hle, hformat, hread⟩
    · exact .inl ⟨after, by rw [readAllRaw, hraw], by rw [readAll, hread]⟩
    · rcases ih (cursor.skip argument.size) with
        ⟨after, hraws, hreads⟩ | ⟨raws, operands, hraws, hles, hformats, hreads⟩
      · exact .inl ⟨after, by rw [readAllRaw, hraw]; simp only [hraws], by rw [readAll, hread]; simp only [hreads]⟩
      · rw [Cursor.remaining_skip] at hles
        rw [Cursor.skip_skip, ← hsize] at hraws hreads
        refine .inr ⟨raw :: raws, operand :: operands, ?_, by omega, ?_, ?_⟩
        · rw [readAllRaw, hraw]
          simp only [hraws]
        · rw [formatAll, hformat, hformats]
          rfl
        · rw [readAll, hread]
          simp only [hreads]

end Argument

/-! ## Rows -/

namespace Checked

/-- What a walk goes on with: a position, the jump page, and whether the row before runs on. -/
structure Place where
  index : Nat
  jumpPage : UInt32
  inCode : Bool

/-- The place of a walk. -/
def Place.ofWalk (walk : Walk) : Place := ⟨walk.cursor.index, walk.jumpPage, walk.inCode⟩

/-- What has been made, and the place behind it. -/
def behind {α : Type} (next : α × Walk) : α × Place := (next.1, .ofWalk next.2)

/-- A row with the bytes of no operation. -/
def illegalRow (view : View) (place : Place) (start : UInt32) (after : Cursor) : Option (Row × Place) := do
  let raw ← consumed view place.index after.index
  return (⟨start, .illegal, Row.illegalMnemonic, [], raw, none⟩, ⟨after.index, place.jumpPage, false⟩)

/-- A row with an instruction. Its operands are made when their bytes have all been read. -/
def instructionRow (symbols : Symbols) (view : View) (place : Place) : Option (Row × Place) := do
  let start ← address view place.index
  match (view.cursorAt place.index).operation with
  | (none, after) => illegalRow view place start after
  | (some operation, opcodeEnd) =>
    match Argument.readAllRaw operation.arguments opcodeEnd with
    | (none, after) => illegalRow view place start after
    | (some raws, after) => do
      let next ← address view after.index
      let branch := fun displacement =>
        (relativeTarget next displacement place.jumpPage).map (Instruction.branchTo symbols)
      let operands ← Argument.formatAll branch operation.arguments raws
      let raw ← consumed view place.index after.index
      return (
        { address := start
          kind := .instruction
          mnemonic := operation.mnemonic.text
          operands := operation.condition.toList.map .condition ++ operands
          raw := raw
          label := none },
        { index := after.index
          jumpPage := (operation.loadedPage? operands).getD place.jumpPage
          inCode := !operation.mnemonic.endsRun })

/-- Where a row of data bytes ends that has `count` bytes up to a position. -/
def bytesEnd (symbols : Symbols) (limit : Nat) (view : View) (index count : Nat) : Option Nat :=
  if index < view.bytes.length then
    if limit ≤ count + 1 then some (index + 1)
    else do
      let left ← remaining view (index + 1)
      if left = 0 then some (index + 1)
      else do
        let next ← address view (index + 1)
        let known := view.knownAt (index + 1)
        if symbols.contains next || known.has .wordLo || known.has .instruction then some (index + 1)
        else bytesEnd symbols limit view (index + 1) (count + 1)
  else some index
termination_by view.bytes.length - index

/-- Where a row of data words ends that has `count` words up to a position. A single byte behind the last word would be
read as well. -/
def wordsEnd (symbols : Symbols) (limit : Nat) (view : View) (index count : Nat) : Option Nat :=
  if index + 2 ≤ view.bytes.length then
    if limit ≤ count + 1 then some (index + 2)
    else do
      let left ← remaining view (index + 2)
      if left < 2 then some (index + 2)
      else do
        let next ← address view (index + 2)
        if symbols.contains next || !(view.knownAt (index + 2)).has .wordLo then some (index + 2)
        else wordsEnd symbols limit view (index + 2) (count + 1)
  else some view.bytes.length
termination_by view.bytes.length - index

/-- A row of data bytes. -/
def bytesRow (symbols : Symbols) (config : Config) (view : View) (place : Place) : Option (Row × Place) := do
  let start ← address view place.index
  let stop ← bytesEnd symbols config.maxBytes view place.index 0
  let raw ← consumed view place.index stop
  return (⟨start, .bytes, Row.bytesMnemonic, raw.map .byte, raw, none⟩, ⟨stop, place.jumpPage, false⟩)

/-- A row of data words. -/
def wordsRow (symbols : Symbols) (config : Config) (view : View) (place : Place) : Option (Row × Place) := do
  let start ← address view place.index
  let stop ← wordsEnd symbols config.maxWords view place.index 0
  let raw ← consumed view place.index stop
  let operands := Walk.wordOperands symbols [] raw (view.trace.drop place.index)
  return (⟨start, .words, Row.wordsMnemonic, operands, raw, none⟩, ⟨stop, place.jumpPage, false⟩)

/-- A run of code, in front of the rows already made. There is no result either if a row does not lead on, or leads out of
the view. -/
def codeRun (symbols : Symbols) (view : View) (place : Place) (made : List Row) : Option (List Row × Place) := do
  let left ← remaining view place.index
  if left = 0 then some (made, place)
  else do
    let next ← instructionRow symbols view place
    if place.index < next.2.index ∧ next.2.index ≤ view.bytes.length then
      if next.2.inCode then codeRun symbols view next.2 (next.1 :: made) else some (next.1 :: made, next.2)
    else none
termination_by view.bytes.length - place.index

/-- What comes next, a run of code or a row of data, in front of the rows already made. -/
def block (symbols : Symbols) (config : Config) (view : View) (place : Place) (made : List Row) :
    Option (List Row × Place) :=
  let known := view.knownAt place.index
  if known.has .instruction then codeRun symbols view place made
  else do
    let left ← remaining view place.index
    let next ←
      if 2 ≤ left && known.has .wordLo then wordsRow symbols config view place else bytesRow symbols config view place
    return (next.1 :: made, next.2)

/-- The rows from a place to the end, behind those already made (the latest first). There is no result either if what comes
next does not lead on, or leads out of the view. -/
def rows (symbols : Symbols) (config : Config) (view : View) (place : Place) (made : List Row) : Option (List Row) := do
  let left ← remaining view place.index
  if left = 0 then some made.reverse
  else do
    let next ← block symbols config view place made
    if place.index < next.2.index ∧ next.2.index ≤ view.bytes.length then rows symbols config view next.2 next.1
    else none
termination_by view.bytes.length - place.index

/-- The listing of a view. -/
def list (symbols : Symbols) (config : Config) (view : View) : Option (List Row) :=
  (rows symbols config view ⟨0, Address.pageStart view.start, false⟩ []).map (List.map (Row.withLabel symbols))

/-! ## Rows of data -/

theorem bytesEnd_eq (bounded : view.Bounded) (symbols : Symbols) (limit first count : Nat)
    (h : first + count < view.bytes.length) :
    bytesEnd symbols limit view (first + count) count =
      some (first + Walk.byteRun symbols limit (count + 1) (view.start + UInt32.ofNat (first + count + 1))
        (view.bytes.drop (first + count + 1)) (view.trace.drop (first + count + 1))) := by
  rw [bytesEnd, if_pos h, remaining_eq h, address_eq bounded h]
  simp only [Option.bind_eq_bind, Option.bind_some]
  by_cases hlimit : limit ≤ count + 1
  · rw [if_pos hlimit, Walk.byteRun_of_le hlimit]
    rfl
  · rw [if_neg hlimit]
    by_cases hend : first + count + 1 = view.bytes.length
    · rw [List.drop_of_length_le (Nat.le_of_eq hend.symm), if_pos (by omega)]
      rfl
    · have hlt : first + count + 1 < view.bytes.length := by omega
      rw [List.drop_eq_getElem_cons hlt, Walk.byteRun, View.knownAt, if_neg (by omega), decide_eq_false hlimit,
        Bool.false_or, List.tail_drop]
      split
      · rfl
      · have hnext : view.start + UInt32.ofNat (first + count + 1) + 1 =
            view.start + UInt32.ofNat (first + (count + 1) + 1) := by
          rw [UInt32.ofNat_add (first + (count + 1)), ← UInt32.add_assoc]
          rfl
        rw [hnext]
        exact bytesEnd_eq bounded symbols limit first (count + 1) hlt
termination_by view.bytes.length - (first + count)

theorem wordRun_of_length_lt {symbols : Symbols} {limit count : Nat} {address : UInt32} {rest : List UInt8}
    {trace : List Access} (h : rest.length < 2) : Walk.wordRun symbols limit count address rest trace = count := by
  match rest with
  | [] | [_] => rfl

theorem wordsEnd_eq (bounded : view.Bounded) (symbols : Symbols) (limit first count : Nat)
    (h : first + 2 * count + 2 ≤ view.bytes.length) :
    wordsEnd symbols limit view (first + 2 * count) count =
      some (first + 2 * Walk.wordRun symbols limit (count + 1) (view.start + UInt32.ofNat (first + 2 * count + 2))
        (view.bytes.drop (first + 2 * count + 2)) (view.trace.drop (first + 2 * count + 2))) := by
  rw [wordsEnd, if_pos h, remaining_eq h, address_eq bounded h]
  simp only [Option.bind_eq_bind, Option.bind_some]
  by_cases hlimit : limit ≤ count + 1
  · rw [if_pos hlimit, Walk.wordRun_of_le hlimit]
    rfl
  · rw [if_neg hlimit]
    by_cases hend : view.bytes.length < first + 2 * count + 2 + 2
    · rw [if_pos (by omega), wordRun_of_length_lt (by rw [List.length_drop]; omega)]
      rfl
    · have hlt : first + 2 * count + 2 < view.bytes.length := by omega
      have hlt' : first + 2 * count + 2 + 1 < view.bytes.length := by omega
      rw [List.drop_eq_getElem_cons hlt, List.drop_eq_getElem_cons hlt', Walk.wordRun, View.knownAt, if_neg (by omega),
        decide_eq_false hlimit, Bool.false_or, List.drop_drop]
      split
      · rfl
      · have hnext : view.start + UInt32.ofNat (first + 2 * count + 2) + 2 =
            view.start + UInt32.ofNat (first + 2 * (count + 1) + 2) := by
          rw [UInt32.ofNat_add (first + 2 * (count + 1)), ← UInt32.add_assoc]
          rfl
        rw [hnext]
        exact wordsEnd_eq bounded symbols limit first (count + 1) (by omega)
termination_by view.bytes.length - (first + 2 * count)

variable {walk : Walk}

theorem index_eq (hat : Walk.IsAt view index walk) : walk.cursor.index = index := by
  rw [hat.cursor]
  exact Nat.zero_add index

theorem knownAt_eq (hat : Walk.IsAt view index walk) : view.knownAt index = walk.trace.headD .none := by
  rw [View.knownAt, hat.trace]

/-- What both kinds of rows of data come to: the bytes up to where they end. -/
theorem consumed_add (hat : Walk.IsAt view index walk) {count : Nat} (h : count ≤ walk.cursor.remaining) :
    consumed view index (index + count) = some (walk.cursor.rest.take count) := by
  rw [hat.remaining] at h
  have hle := hat.le
  rw [consumed_eq (Nat.le_add_right _ _) (by omega), Nat.add_sub_cancel_left, hat.rest]

theorem bytesRow_eq (bounded : view.Bounded) (symbols : Symbols) (config : Config) (hat : Walk.IsAt view index walk)
    (h : walk.cursor.rest ≠ []) :
    bytesRow symbols config view (.ofWalk walk) = some (behind (walk.bytesRow symbols config)) := by
  have hlt := hat.index_lt h
  have hstop := bytesEnd_eq bounded symbols config.maxBytes index 0 hlt
  have hle := Walk.byteRun_le symbols config.maxBytes (0 + 1) (walk.cursor.address + UInt32.ofNat 1)
    (walk.cursor.rest.drop 1) (walk.trace.drop 1)
  have hpos := List.length_pos_iff.2 h
  rw [Nat.add_zero, ← hat.address_add 1, ← List.drop_drop, ← List.drop_drop, ← hat.rest, ← hat.trace] at hstop
  rw [List.length_drop] at hle
  simp only [bytesRow, Place.ofWalk, index_eq hat, address_eq bounded (Nat.le_of_lt hlt), Option.bind_eq_bind,
    Option.bind_some, hstop]
  rw [consumed_add hat (show _ ≤ walk.cursor.rest.length from by omega), ← hat.address, ← index_eq hat]
  rfl

theorem wordsRow_eq (bounded : view.Bounded) (symbols : Symbols) (config : Config) (hat : Walk.IsAt view index walk)
    (h : 2 ≤ walk.cursor.remaining) :
    wordsRow symbols config view (.ofWalk walk) = some (behind (walk.wordsRow symbols config)) := by
  have hlt : index + 2 ≤ view.bytes.length := by
    rw [hat.remaining] at h
    omega
  have hstop := wordsEnd_eq bounded symbols config.maxWords index 0 hlt
  have hle := Walk.wordRun_le symbols config.maxWords (0 + 1) (walk.cursor.address + UInt32.ofNat 2)
    (walk.cursor.rest.drop 2) (walk.trace.drop 2)
  rw [Nat.mul_zero, Nat.add_zero, ← hat.address_add 2, ← List.drop_drop, ← List.drop_drop, ← hat.rest,
    ← hat.trace] at hstop
  rw [Cursor.remaining] at h
  rw [List.length_drop] at hle
  simp only [wordsRow, Place.ofWalk, index_eq hat, address_eq bounded hat.le, Option.bind_eq_bind, Option.bind_some,
    hstop]
  rw [consumed_add hat (show _ ≤ walk.cursor.rest.length from by omega), ← hat.address, ← hat.trace, ← index_eq hat]
  rfl

/-! ## Rows with instructions -/

theorem consumed_to (hat : Walk.IsAt view index walk) {after : Cursor} (h : walk.cursor.Reaches after) :
    consumed view index after.index = some (walk.cursor.bytesTo after) := by
  obtain ⟨count, hle, rfl⟩ := h
  rw [Cursor.bytesTo_skip, ← consumed_add hat hle, ← index_eq hat]
  rfl

theorem address_to (bounded : view.Bounded) (hat : Walk.IsAt view index walk) {after : Cursor}
    (h : walk.cursor.Reaches after) : address view after.index = some after.address := by
  obtain ⟨count, hle, rfl⟩ := h
  rw [hat.remaining] at hle
  have hat_le := hat.le
  have hindex : (walk.cursor.skip count).index = index + count := by rw [← index_eq hat]; rfl
  rw [hindex, address_eq bounded (by omega), Cursor.address_skip, hat.address_add]

theorem illegalRow_eq (hat : Walk.IsAt view index walk) {after : Cursor} (h : walk.cursor.Reaches after) :
    illegalRow view ⟨index, walk.jumpPage, walk.inCode⟩ walk.cursor.address after =
      some ((Instruction.illegal walk.jumpPage walk.cursor after).row, ⟨after.index, walk.jumpPage, false⟩) := by
  rw [illegalRow, consumed_to hat h]
  rfl

theorem instructionRow_eq (bounded : view.Bounded) (symbols : Symbols) (hat : Walk.IsAt view index walk) :
    instructionRow symbols view (.ofWalk walk) = some (behind (walk.instructionRow symbols)) := by
  have hcursor : view.cursorAt index = walk.cursor := hat.cursor.symm
  have hopcode := walk.cursor.reaches_operation
  simp only [instructionRow, Place.ofWalk, index_eq hat, address_eq bounded hat.le, hcursor, Option.bind_eq_bind,
    Option.bind_some, ← hat.address, behind, Walk.instructionRow, Instruction.decode]
  rcases hoperation : walk.cursor.operation with ⟨_ | operation, opcodeEnd⟩
  · rw [hoperation] at hopcode
    exact illegalRow_eq hat hopcode
  · rw [hoperation] at hopcode
    have hbranch (displacement : Int32) (hlo : -0x8000 ≤ displacement.toInt) (hhi : displacement.toInt < 0x8000) :
        (relativeTarget (opcodeEnd.skip operation.operandSize).address displacement walk.jumpPage).map
            (Instruction.branchTo symbols) =
          some (Instruction.branchTo symbols
            (Address.relativeTarget (opcodeEnd.skip operation.operandSize).address displacement walk.jumpPage)) := by
      rw [relativeTarget_eq _ hlo hhi]
      rfl
    rcases Argument.readAllRaw_cases hbranch operation.arguments opcodeEnd with
      ⟨after, hraws, hreads⟩ | ⟨raws, operands, hraws, hle, hformats, hreads⟩
    · have hlast := Argument.reaches_readAll
        (fun displacement => Instruction.branchTo symbols
          (Address.relativeTarget (opcodeEnd.skip operation.operandSize).address displacement walk.jumpPage))
        operation.arguments opcodeEnd
      rw [hreads] at hlast
      simp only [hraws, hreads]
      exact illegalRow_eq hat (hopcode.trans hlast)
    · have hafter := hopcode.trans ⟨Argument.totalSize operation.arguments, hle, rfl⟩
      have hnext : (opcodeEnd.skip operation.operandSize).address =
          (opcodeEnd.skip (Argument.totalSize operation.arguments)).address := rfl
      simp only [hraws, hreads, address_to bounded hat hafter, consumed_to hat hafter, Option.bind_some, ← hnext, hformats]
      rfl

/-! ## The listing -/

/-- A row leads on, and does not lead out of the view. -/
theorem leads_on (hat : Walk.IsAt view index walk) {α : Type} {next : α × Walk} {stop : Nat}
    (hnext : Walk.IsAt view stop next.2) (hless : next.2.cursor.remaining < walk.cursor.remaining) :
    (Place.ofWalk walk).index < (behind next).2.index ∧ (behind next).2.index ≤ view.bytes.length := by
  have hindex : (Place.ofWalk walk).index = index := index_eq hat
  have hstop : (behind next).2.index = stop := index_eq hnext
  rw [hat.remaining, hnext.remaining] at hless
  rw [hindex, hstop]
  exact ⟨by omega, hnext.le⟩

theorem isAt_instructionRow (symbols : Symbols) (hat : Walk.IsAt view index walk) (h : walk.cursor.rest ≠ []) :
    ∃ stop, Walk.IsAt view stop (walk.instructionRow symbols).2 := by
  obtain ⟨count, hreads⟩ := Walk.instructionRow_reads symbols walk h
  exact ⟨index + count, hat.step hreads⟩

theorem isAt_codeRun (symbols : Symbols) (walk : Walk) (made : List Row) :
    ∀ index, Walk.IsAt view index walk → ∃ stop, Walk.IsAt view stop (walk.codeRun symbols made).2 := by
  fun_induction Walk.codeRun symbols walk made with
  | case1 => exact fun index hat => ⟨index, hat⟩
  | case2 walk made h next _ ih =>
    intro index hat
    obtain ⟨stop, hnext⟩ := isAt_instructionRow symbols hat h
    exact ih stop hnext
  | case3 walk made h => exact fun index hat => isAt_instructionRow symbols hat h

theorem isAt_block (symbols : Symbols) (config : Config) (hat : Walk.IsAt view index walk) (h : walk.cursor.rest ≠ [])
    (made : List Row) : ∃ stop, Walk.IsAt view stop (walk.block symbols config made).2 := by
  simp only [Walk.block]
  split
  · exact isAt_codeRun symbols walk made index hat
  · split
    · next hwords =>
      rw [Bool.and_eq_true] at hwords
      obtain ⟨count, hreads⟩ := Walk.wordsRow_reads symbols config walk hwords.1
      exact ⟨index + count, hat.step hreads⟩
    · obtain ⟨count, hreads⟩ := Walk.bytesRow_reads symbols config walk h
      exact ⟨index + count, hat.step hreads⟩

theorem remaining_ofWalk (hat : Walk.IsAt view index walk) :
    remaining view (Place.ofWalk walk).index = some walk.cursor.remaining := by
  have hindex : (Place.ofWalk walk).index = index := index_eq hat
  rw [hindex, remaining_eq hat.le, ← hat.remaining]

/-- The inner loop, one instruction further. -/
theorem codeRun_of_rest (bounded : view.Bounded) (symbols : Symbols) (hat : Walk.IsAt view index walk)
    (h : walk.cursor.rest ≠ []) (made : List Row) :
    codeRun symbols view (.ofWalk walk) made =
      if (walk.instructionRow symbols).2.inCode then
        codeRun symbols view (.ofWalk (walk.instructionRow symbols).2) ((walk.instructionRow symbols).1 :: made)
      else some ((walk.instructionRow symbols).1 :: made, .ofWalk (walk.instructionRow symbols).2) := by
  obtain ⟨stop, hnext⟩ := isAt_instructionRow symbols hat h
  have hon := leads_on hat hnext (Walk.instructionRow_remaining_lt symbols walk h)
  have hleft : walk.cursor.remaining ≠ 0 := fun hzero => h (List.length_eq_zero_iff.1 hzero)
  rw [codeRun, remaining_ofWalk hat, instructionRow_eq bounded symbols hat]
  simp only [Option.bind_eq_bind, Option.bind_some, if_neg hleft, if_pos hon]
  rfl

theorem codeRun_eq (bounded : view.Bounded) (symbols : Symbols) (walk : Walk) (made : List Row) :
    ∀ index, Walk.IsAt view index walk →
      codeRun symbols view (.ofWalk walk) made = some (behind (walk.codeRun symbols made)) := by
  fun_induction Walk.codeRun symbols walk made with
  | case1 walk made h =>
    intro index hat
    rw [codeRun, remaining_ofWalk hat, Cursor.remaining, h]
    rfl
  | case2 walk made h next hruns ih =>
    intro index hat
    obtain ⟨stop, hnext⟩ := isAt_instructionRow symbols hat h
    rw [codeRun_of_rest bounded symbols hat h, if_pos hruns]
    exact ih stop hnext
  | case3 walk made h next hends =>
    intro index hat
    rw [codeRun_of_rest bounded symbols hat h, if_neg hends]
    rfl

theorem block_eq (bounded : view.Bounded) (symbols : Symbols) (config : Config) (hat : Walk.IsAt view index walk)
    (h : walk.cursor.rest ≠ []) (made : List Row) :
    block symbols config view (.ofWalk walk) made = some (behind (walk.block symbols config made)) := by
  have hindex : (Place.ofWalk walk).index = index := index_eq hat
  rw [block, Walk.block, hindex, knownAt_eq hat]
  dsimp only
  split
  · exact codeRun_eq bounded symbols walk made index hat
  · have hword : decide (2 ≤ walk.cursor.remaining) = walk.cursor.hasWord := by
      rw [Bool.eq_iff_iff, decide_eq_true_iff, Cursor.hasWord_eq_true_iff]
    rw [remaining_eq hat.le, ← hat.remaining]
    simp only [Option.bind_eq_bind, Option.bind_some, hword]
    split
    · next hwords =>
      rw [Bool.and_eq_true, Cursor.hasWord_eq_true_iff] at hwords
      rw [wordsRow_eq bounded symbols config hat hwords.1]
      rfl
    · rw [bytesRow_eq bounded symbols config hat h]
      rfl

theorem rows_eq (bounded : view.Bounded) (symbols : Symbols) (config : Config) (walk : Walk) (made : List Row) :
    ∀ index, Walk.IsAt view index walk →
      rows symbols config view (.ofWalk walk) made = some (walk.rows symbols config made) := by
  fun_induction Walk.rows symbols config walk made with
  | case1 walk made h =>
    intro index hat
    rw [rows, remaining_ofWalk hat, Cursor.remaining, h]
    rfl
  | case2 walk made h next ih =>
    intro index hat
    obtain ⟨stop, hnext⟩ := isAt_block symbols config hat h made
    have hon := leads_on hat hnext (Walk.block_remaining_lt symbols config walk made h)
    have hleft : walk.cursor.remaining ≠ 0 := fun hzero => h (List.length_eq_zero_iff.1 hzero)
    rw [rows, remaining_ofWalk hat, block_eq bounded symbols config hat h]
    simp only [Option.bind_eq_bind, Option.bind_some, if_neg hleft, if_pos hon]
    exact ih stop hnext

/-- **No step of a listing leaves its range.** The listing of a view that ends inside the address arithmetic has a result,
and it is the listing. -/
theorem list_eq (bounded : view.Bounded) (symbols : Symbols) (config : Config) :
    list symbols config view = some (view.rows symbols config) :=
  congrArg (Option.map (List.map (Row.withLabel symbols))) (rows_eq bounded symbols config _ [] 0 (.ofView view))

end Checked

end TraceDisasm
