import TraceDisasm.Proofs.DataRuns

/-!
# Earlier rows do not look ahead

To make a row, a walk looks at the bytes of the row, and then at what is known about the byte behind it and whether there is
one. It looks no further. So if two views of the same size agree up to some offset, the two walks through them stay in step
for as long as their rows end before it (`Walk.InStep.step`), and a change from there on leaves all these rows as they
are (`View.earlier_rows_eq`).

The decoder is the part of this that needs an argument: it stops at the end of the bytes as well as at an undefined opcode,
and an instruction that is cut off is decided by the number of bytes alone (`Instruction.decode_congr`).
-/

namespace TraceDisasm

/-! ## What the decoder depends on -/

namespace Argument

variable {branch : Int32 → Operand} {argument : Argument} {arguments : List Argument} {bytes : List UInt8}
  {operand operand' : Operand} {operands operands' : List Operand}

theorem Encodes.unique (h : Encodes branch argument bytes operand) (h' : Encodes branch argument bytes operand') :
    operand = operand' := by
  cases h <;> cases h' <;> rfl

/-- The bytes of some operands tell which they are. -/
theorem EncodesAll.unique (h : EncodesAll branch arguments bytes operands)
    (h' : EncodesAll branch arguments bytes operands') : operands = operands' := by
  induction h generalizing operands' with
  | nil =>
    cases h'
    rfl
  | @cons argument first operand arguments rest operands hfirst _ ih =>
    generalize hbytes : first ++ rest = bytes at h'
    cases h' with
    | @cons _ first' operand' _ rest' operands' hfirst' hrest' =>
      have hlength : first.length = first'.length := hfirst.length.trans hfirst'.length.symm
      obtain ⟨rfl, rfl⟩ := List.append_inj hbytes hlength
      rw [hfirst.unique hfirst', ih hrest']

end Argument

namespace Opcode

variable {bytes bytes' : List UInt8} {size length : Nat} {operation : Operation}

/-- An opcode is found whatever is behind it. -/
theorem lookup_of_take {count : Nat} (h : lookup (bytes.take count) = some (size, operation)) :
    lookup bytes = some (size, operation) := by
  cases count with
  | zero => cases h
  | succ count =>
    cases bytes with
    | nil => cases h
    | cons first rest =>
      rw [List.take_succ_cons] at h
      cases hslot : Slot.ofByte first with
      | undefined =>
        simp only [lookup, hslot] at h
        cases h
      | operation found => simpa only [lookup, hslot] using h
      | extension extension =>
        cases rest with
        | nil =>
          rw [List.take_nil] at h
          exact h
        | cons second rest =>
          cases count with
          | zero =>
            simp only [lookup, hslot, List.take_zero] at h
            cases h
          | succ count => simpa only [lookup, hslot, List.take_succ_cons] using h

theorem DeadEnd.congr (h : DeadEnd bytes length) (htake : bytes.take length = bytes'.take length) :
    DeadEnd bytes' length := by
  cases h with
  | first hslot =>
    rcases bytes' with _ | ⟨first, rest⟩
    · cases htake
    · obtain ⟨rfl, -⟩ := List.cons.inj htake
      exact .first hslot
  | second hslot hnone =>
    rcases bytes' with _ | ⟨first, _ | ⟨second, rest⟩⟩
    · cases htake
    · simp at htake
    · simp only [List.take_succ_cons, List.take_zero, List.cons.injEq, and_true] at htake
      obtain ⟨rfl, rfl⟩ := htake
      exact .second hslot hnone

end Opcode

/-- Two cursors have as many bytes behind them and as many ahead. -/
structure Cursor.SamePlace (cursor cursor' : Cursor) : Prop where
  start : cursor.start = cursor'.start
  index : cursor.index = cursor'.index
  remaining : cursor.remaining = cursor'.remaining

theorem Cursor.SamePlace.address {cursor cursor' : Cursor} (h : cursor.SamePlace cursor') :
    cursor'.address = cursor.address := by
  rw [Cursor.address, Cursor.address, h.start, h.index]

namespace Instruction

variable {symbols : Symbols} {jumpPage : UInt32} {cursor cursor' : Cursor}

/-- Two instructions are the same but for the positions behind them. -/
structure SameResult (instruction instruction' : Instruction) : Prop where
  row : instruction'.row = instruction.row
  endsRun : instruction'.endsRun = instruction.endsRun
  jumpPage : instruction'.jumpPage = instruction.jumpPage

/-- A complete instruction depends on its own bytes. -/
theorem decode_congr_of_complete {size : Nat} {operation : Operation} (place : cursor.SamePlace cursor')
    (hlookup : Opcode.lookup cursor.rest = some (size, operation))
    (hbytes : size + operation.operandSize ≤ cursor.remaining)
    (htake : cursor.rest.take (size + operation.operandSize) = cursor'.rest.take (size + operation.operandSize)) :
    SameResult (decode symbols jumpPage cursor) (decode symbols jumpPage cursor') := by
  have hlookup' : Opcode.lookup cursor'.rest = some (size, operation) :=
    Opcode.lookup_of_take (htake ▸ Opcode.lookup_take hlookup (Nat.le_add_right ..))
  obtain ⟨operands, hshows, hdecode⟩ := decode_of_complete symbols jumpPage hlookup hbytes
  obtain ⟨operands', hshows', hdecode'⟩ := decode_of_complete symbols jumpPage hlookup' (place.remaining ▸ hbytes)
  have hraw : (ofOperation jumpPage cursor' size operation operands').row.raw =
      (ofOperation jumpPage cursor size operation operands).row.raw := htake.symm
  have hstop : (ofOperation jumpPage cursor' size operation operands').row.stop =
      (ofOperation jumpPage cursor size operation operands).row.stop := by
    rw [Row.stop, Row.stop, Row.length, Row.length, hraw]
    exact congrArg (· + _) place.address
  have hencodes := hshows.encodes
  have hencodes' := hshows'.encodes
  rw [hdecode] at hencodes
  rw [hdecode', hraw, hstop] at hencodes'
  obtain rfl := hencodes.unique hencodes'
  rw [hdecode, hdecode']
  refine ⟨?_, rfl, rfl⟩
  simp only [ofOperation, place.address, htake]

/-- The bytes of an undefined opcode tell that it is one. -/
theorem decode_congr_of_deadEnd {length : Nat} (place : cursor.SamePlace cursor')
    (hdead : Opcode.DeadEnd cursor.rest length) (htake : cursor.rest.take length = cursor'.rest.take length) :
    SameResult (decode symbols jumpPage cursor) (decode symbols jumpPage cursor') := by
  have decode_eq {cursor : Cursor} (hdead : Opcode.DeadEnd cursor.rest length) :
      decode symbols jumpPage cursor = illegal jumpPage cursor (cursor.skip length) := by
    obtain ⟨length', hdecode, hcases⟩ := decode_of_incomplete symbols jumpPage fun size operation hlookup => by
      rw [hdead.lookup_eq_none] at hlookup
      cases hlookup
    rcases hcases with hother | ⟨-, hnone⟩
    · rw [hdecode, hother.unique hdead]
    · exact absurd hdead (hnone length)
  rw [decode_eq hdead, decode_eq (hdead.congr htake)]
  refine ⟨?_, rfl, rfl⟩
  simp only [illegal, place.address, Cursor.bytesTo_skip, htake]

/-- An instruction depends on its own bytes and on the number of bytes ahead. -/
theorem decode_congr (place : cursor.SamePlace cursor')
    (htake : cursor.rest.take (decode symbols jumpPage cursor).row.length =
      cursor'.rest.take (decode symbols jumpPage cursor).row.length) :
    SameResult (decode symbols jumpPage cursor) (decode symbols jumpPage cursor') := by
  by_cases h : ∃ size operation, Opcode.lookup cursor.rest = some (size, operation) ∧
      size + operation.operandSize ≤ cursor.remaining
  · obtain ⟨size, operation, hlookup, hbytes⟩ := h
    obtain ⟨operands, -, hdecode⟩ := decode_of_complete symbols jumpPage hlookup hbytes
    rw [hdecode, Row.length, ofOperation, List.length_take_of_le hbytes] at htake
    exact decode_congr_of_complete place hlookup hbytes htake
  · obtain ⟨length, hdecode, hcases⟩ := decode_of_incomplete symbols jumpPage fun size operation hlookup =>
      Nat.lt_of_not_le fun hbytes => h ⟨size, operation, hlookup, hbytes⟩
    have hle : length ≤ cursor.rest.length := by
      rcases hcases with hdead | ⟨rfl, -⟩
      · exact hdead.length_le
      · exact Nat.le_refl _
    rw [hdecode, Row.length, illegal, Cursor.bytesTo_skip, List.length_take_of_le hle] at htake
    rcases hcases with hdead | ⟨rfl, -⟩
    · exact decode_congr_of_deadEnd place hdead htake
    · -- the instruction is cut off, and so nothing is left that could differ
      have hremaining := place.remaining
      obtain ⟨start, index, rest⟩ := cursor
      obtain ⟨start', index', rest'⟩ := cursor'
      obtain rfl : start = start' := place.start
      obtain rfl : index = index' := place.index
      obtain rfl : rest = rest' := by
        simp only [Cursor.remaining] at htake hremaining
        rwa [List.take_length, hremaining, List.take_length] at htake
      exact ⟨rfl, rfl, rfl⟩

end Instruction

/-! ## Views that agree up to an offset -/

namespace View

variable {view view' : View} {symbols : Symbols} {config : Config} {bound index count : Nat}

/-- Two views of the same size hold the same up to an offset. -/
structure AgreeBelow (view view' : View) (bound : Nat) : Prop where
  start : view.start = view'.start
  length : view.bytes.length = view'.bytes.length
  bytes : ∀ i < bound, view.bytes[i]? = view'.bytes[i]?
  known : ∀ i < bound, view.known i = view'.known i

namespace AgreeBelow

theorem symm (h : AgreeBelow view view' bound) : AgreeBelow view' view bound where
  start := h.start.symm
  length := h.length.symm
  bytes i hi := (h.bytes i hi).symm
  known i hi := (h.known i hi).symm

theorem take_drop (h : AgreeBelow view view' bound) (hend : index + count ≤ bound) :
    (view.bytes.drop index).take count = (view'.bytes.drop index).take count := by
  refine List.ext_getElem? fun i => ?_
  simp only [List.getElem?_take, List.getElem?_drop]
  split
  · exact h.bytes (index + i) (by omega)
  · rfl

theorem endsWords_iff (h : AgreeBelow view view' bound) (hend : index + 2 * count < bound) :
    view.EndsWords symbols config index count ↔ view'.EndsWords symbols config index count := by
  rw [EndsWords, EndsWords, addressAt, addressAt, h.start, h.length, h.known _ hend]

theorem endsBytes_iff (h : AgreeBelow view view' bound) (hend : index + count < bound) :
    view.EndsBytes symbols config index count ↔ view'.EndsBytes symbols config index count := by
  rw [EndsBytes, EndsBytes, addressAt, addressAt, h.start, h.length, h.known _ hend]

end AgreeBelow

end View

/-! ## Two walks in step -/

namespace Walk

variable {symbols : Symbols} {config : Config} {view view' : View} {bound index : Nat} {walk walk' : Walk}

/-- Two walks have got equally far, and each in its view. -/
structure InStep (view view' : View) (index : Nat) (walk walk' : Walk) : Prop where
  left : IsAt view index walk
  right : IsAt view' index walk'
  jumpPage : walk.jumpPage = walk'.jumpPage
  inCode : walk.inCode = walk'.inCode

/-- Two steps make the same row, and go on from it with the same page and mark. -/
structure SameNext (next next' : Row × Walk) : Prop where
  row : next'.1 = next.1
  jumpPage : next'.2.jumpPage = next.2.jumpPage
  inCode : next'.2.inCode = next.2.inCode

namespace InStep

theorem symm (h : InStep view view' index walk walk') : InStep view' view index walk' walk :=
  ⟨h.right, h.left, h.jumpPage.symm, h.inCode.symm⟩

variable (h : InStep view view' index walk walk') (agree : view.AgreeBelow view' bound)

include h agree

theorem remaining : walk'.cursor.remaining = walk.cursor.remaining := by
  rw [h.left.remaining, h.right.remaining, agree.length]

theorem samePlace : walk.cursor.SamePlace walk'.cursor := by
  refine ⟨?_, ?_, (h.remaining agree).symm⟩
  · rw [h.left.cursor, h.right.cursor]
    exact agree.start
  · rw [h.left.cursor, h.right.cursor]
    rfl

theorem rest_eq_nil_iff : walk'.cursor.rest = [] ↔ walk.cursor.rest = [] := by
  rw [← List.length_eq_zero_iff, ← List.length_eq_zero_iff]
  exact Eq.congr (h.remaining agree) rfl

theorem hasWord : walk'.cursor.hasWord = walk.cursor.hasWord := by
  rw [Bool.eq_iff_iff, Cursor.hasWord_eq_true_iff, Cursor.hasWord_eq_true_iff, h.remaining agree]

theorem known (hindex : index < bound) : walk'.known = walk.known := by
  have hknown : walk.known = view.known index := h.left.known 0
  have hknown' : walk'.known = view'.known index := h.right.known 0
  rw [hknown, hknown', agree.known index hindex]

theorem take {count : Nat} (hend : index + count ≤ bound) :
    walk'.cursor.rest.take count = walk.cursor.rest.take count := by
  rw [h.left.rest, h.right.rest, agree.take_drop hend]

/-- A row of code is the same if its bytes are. -/
theorem bareRow_code (hindex : index < bound) (hcode : walk.AtCode)
    (hend : index + (walk.bareRow symbols config).1.length < bound) :
    SameNext (walk.bareRow symbols config) (walk'.bareRow symbols config) := by
  have hcode' : walk'.AtCode := by rwa [AtCode, h.known agree hindex, ← h.inCode]
  rw [hcode.bareRow, hcode'.bareRow]
  rw [hcode.bareRow] at hend
  have same := Instruction.decode_congr (h.samePlace agree) (h.take agree hend.le).symm
  simp only [instructionRow, ← h.jumpPage]
  exact ⟨same.row, same.jumpPage, congrArg (!·) same.endsRun⟩

/-- A row of words looks at what is known about the byte behind it, and no further. -/
theorem bareRow_words (hindex : index < bound) (hwords : walk.AtWords)
    (hend : index + (walk.bareRow symbols config).1.length < bound) :
    SameNext (walk.bareRow symbols config) (walk'.bareRow symbols config) := by
  have hwords' : walk'.AtWords :=
    { data := h.inCode ▸ hwords.data
      plain := h.known agree hindex ▸ hwords.plain
      two := h.remaining agree ▸ hwords.two
      word := h.known agree hindex ▸ hwords.word }
  have hfirst : FirstEnd (view.EndsWords symbols config index) _ := h.left.firstEnd_words
  have hfirst' : FirstEnd (view'.EndsWords symbols config index) _ := h.right.firstEnd_words
  rw [hwords.bareRow] at hend
  rw [hwords.bareRow, hwords'.bareRow]
  rw [hwords.length (Nat.le_refl _)] at hend
  have hsame := hfirst.congr fun i hi => agree.endsWords_iff (show index + 2 * i < bound by omega)
  rw [hfirst'.unique hsame]
  generalize wordCount symbols config walk = count at hend
  have hraw := h.take agree hend.le
  have hoperands : wordOperands symbols [] (walk.cursor.rest.take (2 * count)) walk'.trace =
      wordOperands symbols [] (walk.cursor.rest.take (2 * count)) walk.trace := by
    rw [wordOperands_eq_mapIdx, wordOperands_eq_mapIdx, List.mapIdx_eq_mapIdx_iff]
    intro i hi
    rw [Cursor.length_wordsOf, List.length_take] at hi
    rw [h.left.known, h.right.known, agree.known _ (show index + 2 * i < bound by omega)]
  refine ⟨?_, h.jumpPage.symm, rfl⟩
  rw [wordsAhead, wordsAhead, hraw, hoperands, (h.samePlace agree).address]

/-- A row of bytes looks at what is known about the byte behind it, and no further. -/
theorem bareRow_bytes (hindex : index < bound) (hbytes : walk.AtBytes)
    (hend : index + (walk.bareRow symbols config).1.length < bound) :
    SameNext (walk.bareRow symbols config) (walk'.bareRow symbols config) := by
  have hbytes' : walk'.AtBytes :=
    { data := h.inCode ▸ hbytes.data
      plain := h.known agree hindex ▸ hbytes.plain
      rest := mt (h.rest_eq_nil_iff agree).1 hbytes.rest
      byte := by rw [h.known agree hindex, h.hasWord agree, hbytes.byte] }
  have hfirst : FirstEnd (view.EndsBytes symbols config index) _ := h.left.firstEnd_bytes
  have hfirst' : FirstEnd (view'.EndsBytes symbols config index) _ := h.right.firstEnd_bytes
  rw [hbytes.bareRow] at hend
  rw [hbytes.bareRow, hbytes'.bareRow]
  rw [hbytes.length] at hend
  have hsame := hfirst.congr fun i hi => agree.endsBytes_iff (show index + i < bound by omega)
  rw [hfirst'.unique hsame]
  refine ⟨?_, h.jumpPage.symm, rfl⟩
  rw [bytesAhead, bytesAhead, h.take agree hend.le, (h.samePlace agree).address]

/-- **A row does not look ahead.** If a row ends before the views differ, the walk in the other view makes the same one. -/
theorem step (hrest : walk.cursor.rest ≠ []) (hend : index + (walk.step symbols config).1.length < bound) :
    (walk'.step symbols config).1 = (walk.step symbols config).1 ∧
      InStep view view' (index + (walk.step symbols config).1.length) (walk.step symbols config).2
        (walk'.step symbols config).2 := by
  have hindex : index < bound := by omega
  have hnext : SameNext (walk.bareRow symbols config) (walk'.bareRow symbols config) := by
    rcases walk.at_cases hrest with hcode | hwords | hbytes
    · exact h.bareRow_code agree hindex hcode hend
    · exact h.bareRow_words agree hindex hwords hend
    · exact h.bareRow_bytes agree hindex hbytes hend
  have hrow : (walk'.step symbols config).1 = (walk.step symbols config).1 := by
    simp only [Walk.step, hnext.row]
  obtain ⟨count, hreads⟩ := step_reads symbols config walk hrest
  obtain ⟨count', hreads'⟩ := step_reads symbols config walk' (mt (h.rest_eq_nil_iff agree).1 hrest)
  have hcount : count' = count := by rw [← hreads.length, ← hreads'.length, hrow]
  rw [hreads.length]
  exact ⟨hrow, h.left.step hreads, hcount ▸ h.right.step hreads', hnext.jumpPage.symm, hnext.inCode.symm⟩

end InStep

end Walk

/-! ## The rows before a change -/

/-- The row ends before a limit. -/
def Row.endsBefore (limit : Nat) (row : Row) : Bool := row.stop.toNat < limit

namespace Walk

variable {symbols : Symbols} {config : Config} {view view' : View} {bound : Nat}

theorem IsAt.endsBefore_iff {index : Nat} {walk : Walk} (hat : IsAt view index walk)
    (bounded : view.start.toNat + view.bytes.length < 2 ^ 32) (hrest : walk.cursor.rest ≠ []) :
    (walk.step symbols config).1.endsBefore (view.start.toNat + bound) = true ↔
      index + (walk.step symbols config).1.length < bound := by
  obtain ⟨count, hreads⟩ := step_reads symbols config walk hrest
  rw [Row.endsBefore, decide_eq_true_eq, hreads.stop, (hat.step hreads).toNat_address bounded, hreads.length]
  omega

/-- Rows that end before a limit are in front of those that do not. -/
theorem Covers.filter_endsBefore {start : UInt32} {bytes : List UInt8} {rows : List Row} (h : Covers start bytes rows)
    (bounded : start.toNat + bytes.length < 2 ^ 32) (limit : Nat) :
    rows.filter (Row.endsBefore limit) = rows.takeWhile (Row.endsBefore limit) := by
  induction h with
  | nil => rfl
  | @cons bytes row rows hne hrest ih =>
    have hstop := stop_toNat (.cons hne hrest) bounded row List.mem_cons_self
    rw [List.length_append] at bounded
    rw [Row.length] at hstop
    have hbounded : row.stop.toNat + bytes.length < 2 ^ 32 := by omega
    cases hends : row.endsBefore limit with
    | true => rw [List.filter_cons_of_pos hends, List.takeWhile_cons_of_pos hends, ih hbounded]
    | false =>
      have hlate : ∀ later ∈ rows, ¬ later.endsBefore limit = true := fun later hlater => by
        have hbounds := hrest.bounds hbounded later hlater
        simp only [Row.endsBefore, decide_eq_true_eq, decide_eq_false_iff_not] at hends ⊢
        omega
      have hends' : ¬ row.endsBefore limit = true := Bool.eq_false_iff.1 hends
      rw [List.filter_cons_of_neg hends', List.takeWhile_cons_of_neg hends', List.filter_eq_nil_iff.2 hlate]

/-- Two walks in step make the same rows up to the first that does not end before the views differ. -/
theorem takeWhile_listing (symbols : Symbols) (config : Config) (agree : view.AgreeBelow view' bound)
    (bounded : view.start.toNat + view.bytes.length < 2 ^ 32) (walk : Walk) :
    ∀ index walk', InStep view view' index walk walk' →
      (walk'.listing symbols config).takeWhile (Row.endsBefore (view.start.toNat + bound)) =
        (walk.listing symbols config).takeWhile (Row.endsBefore (view.start.toNat + bound)) := by
  refine listing_induct symbols config (P := fun walk rows => ∀ index walk', InStep view view' index walk walk' →
    (walk'.listing symbols config).takeWhile (Row.endsBefore (view.start.toNat + bound)) =
      rows.takeWhile (Row.endsBefore (view.start.toNat + bound))) ?_ ?_ walk
  · intro walk hrest index walk' h
    rw [listing_nil symbols config walk' ((h.rest_eq_nil_iff agree).2 hrest)]
  · intro walk hrest ih index walk' h
    have hrest' := mt (h.rest_eq_nil_iff agree).1 hrest
    rw [listing_cons symbols config walk' hrest']
    cases hends : (walk.step symbols config).1.endsBefore (view.start.toNat + bound) with
    | true =>
      have hend := (h.left.endsBefore_iff bounded hrest).1 hends
      obtain ⟨hrow, hnext⟩ := h.step agree hrest hend
      rw [hrow, List.takeWhile_cons_of_pos hends, List.takeWhile_cons_of_pos hends, ih _ _ hnext]
    | false =>
      -- a row of the other view that ends before the views differ would be a row of this one
      have hends' : ¬ (walk'.step symbols config).1.endsBefore (view.start.toNat + bound) = true := fun hends' => by
        rw [agree.start] at hends'
        have hend' := (h.right.endsBefore_iff (agree.start ▸ agree.length ▸ bounded) hrest').1 hends'
        obtain ⟨hrow, -⟩ := h.symm.step agree.symm hrest' hend'
        rw [hrow, agree.start, hends'] at hends
        cases hends
      rw [List.takeWhile_cons_of_neg hends', List.takeWhile_cons_of_neg (Bool.eq_false_iff.1 hends)]

end Walk

namespace View

variable {view view' : View} {symbols : Symbols} {config : Config} {bound : Nat}

/-- The rows that end before the byte behind `bound` others. -/
def earlierRows (view : View) (symbols : Symbols) (config : Config) (bound : Nat) : List Row :=
  (view.rows symbols config).filter (Row.endsBefore (view.start.toNat + bound))

/-- **A change does not affect earlier rows.** If two views of the same size agree up to an offset, then their listings start
with the same rows, and these are all the rows that end before the offset. -/
theorem earlier_rows_eq (agree : view.AgreeBelow view' bound)
    (bounded : view.start.toNat + view.bytes.length < 2 ^ 32) :
    view.earlierRows symbols config bound = view'.earlierRows symbols config bound ∧
      view.earlierRows symbols config bound <+: view.rows symbols config ∧
      view'.earlierRows symbols config bound <+: view'.rows symbols config := by
  have bounded' : view'.start.toNat + view'.bytes.length < 2 ^ 32 := agree.start ▸ agree.length ▸ bounded
  have hinStep : Walk.InStep view view' 0 (.ofView view) (.ofView view') :=
    ⟨.ofView view, .ofView view', congrArg Address.pageStart agree.start, rfl⟩
  have hrows := Walk.takeWhile_listing symbols config agree bounded _ 0 _ hinStep
  rw [← rows_eq_listing, ← rows_eq_listing] at hrows
  rw [earlierRows, earlierRows, (view.rows_covers symbols config).filter_endsBefore bounded,
    (view'.rows_covers symbols config).filter_endsBefore bounded', ← agree.start]
  exact ⟨hrows.symm, List.takeWhile_prefix _, List.takeWhile_prefix _⟩

/-- Two instructions, and behind them two bytes that nothing is known about. -/
def codeThenBytes : View := ⟨0x1000, [0xFF, 0xF8, 0x01, 0x02], [.ofFlags [.instruction]]⟩

/-- `codeThenBytes` with another byte at the end, which is known as an instruction. -/
def codeThenCode : View :=
  ⟨0x1000, [0xFF, 0xF8, 0x01, 0xFF], [.ofFlags [.instruction], .none, .none, .ofFlags [.instruction]]⟩

theorem earlier_rows_eq_codeThenBytes :
    codeThenBytes.AgreeBelow codeThenCode 3 ∧
      codeThenBytes.start.toNat + codeThenBytes.bytes.length < 2 ^ 32 ∧
      ∃ earlier : List Row, earlier.map Row.mnemonic = ["NOP", "RET"] ∧
        codeThenBytes.earlierRows (.empty defaultStem) .standard 3 = earlier ∧
        codeThenCode.earlierRows (.empty defaultStem) .standard 3 = earlier ∧
        earlier <+: codeThenBytes.rows (.empty defaultStem) .standard ∧
        earlier <+: codeThenCode.rows (.empty defaultStem) .standard := by
  have agree : codeThenBytes.AgreeBelow codeThenCode 3 := ⟨rfl, rfl, by decide, by decide⟩
  have bounded : codeThenBytes.start.toNat + codeThenBytes.bytes.length < 2 ^ 32 := by decide
  obtain ⟨hsame, hleft, hright⟩ := earlier_rows_eq agree bounded
  exact ⟨agree, bounded, _, by decide +kernel, rfl, hsame.symm, hleft, hsame ▸ hright⟩

/-- A row that ends at the offset itself can change: the byte behind it decides whether it goes on. -/
example : codeThenBytes.earlierRows (.empty defaultStem) .standard 4 ≠
    codeThenCode.earlierRows (.empty defaultStem) .standard 4 := by
  decide +kernel

end View

end TraceDisasm
