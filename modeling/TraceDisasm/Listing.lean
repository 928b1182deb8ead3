import TraceDisasm.Access
import TraceDisasm.Config
import TraceDisasm.Instruction

/-!
# Listing a bank

A view is what a listing is made from: the bytes of a bank and what is known about each of them. `View.rows` walks
through it once. Where neither a run of code nor a row of data goes on, it decides what comes next:

* a run of code, if the byte is known as an instruction;
* otherwise a row of words, if the byte is known as the low byte of a word and a second byte follows;
* otherwise a row of bytes.

A run of code is decoded instruction after instruction, whatever is known about the bytes, up to one that ends it or to the
end of the view. A row of data goes on as long as the limit, the labels and the knowledge about the next byte allow. The
jump page of relative branches starts as the page of the view and lasts through rows of data. The rows get their labels
when all of them are there.

A run of code and a row of data take at least one byte (`Walk.block_remaining_lt`), so the walk ends.
-/

namespace TraceDisasm

/-- The bytes of a bank, and what is known about each of them. Bytes past the end of `trace` are unclassified. -/
structure View where
  /-- The address of the first byte. -/
  start : UInt32
  bytes : List UInt8
  trace : List Access

/-- A walk through a view. -/
structure Walk where
  /-- The position in the bytes. -/
  cursor : Cursor
  /-- What is known about the bytes ahead. -/
  trace : List Access
  /-- The page that the banked window shows to relative branches. -/
  jumpPage : UInt32
  /-- Whether the row before runs on into the next byte. -/
  inCode : Bool

namespace Walk

/-- The start of a walk. -/
def ofView (view : View) : Walk where
  cursor := .ofBytes view.start view.bytes
  trace := view.trace
  jumpPage := Address.pageStart view.start
  inCode := false

/-! ## Rows of data -/

/-- The length of a row of data bytes: `count` bytes belong to it, and the listed bytes come next. -/
def byteRun (symbols : Symbols) (limit : Nat) (count : Nat) (address : UInt32) : List UInt8 → List Access → Nat
  | [], _ => count
  | _ :: rest, trace =>
    let known := trace.headD .none
    if limit ≤ count || symbols.contains address || known.has .wordLo || known.has .instruction then count
    else byteRun symbols limit (count + 1) (address + 1) rest trace.tail

/-- The length of a row of data words: `count` words belong to it, and the listed bytes come next. -/
def wordRun (symbols : Symbols) (limit : Nat) (count : Nat) (address : UInt32) : List UInt8 → List Access → Nat
  | _ :: _ :: rest, trace =>
    if limit ≤ count || symbols.contains address || !(trace.headD .none).has .wordLo then count
    else wordRun symbols limit (count + 1) (address + 2) rest (trace.drop 2)
  | _, _ => count

/-- The operands of a row of data words, behind those already made. A word whose first byte is known as a vector
shows the label of the place it leads to. -/
def wordOperands (symbols : Symbols) (made : List Operand) : List UInt8 → List Access → List Operand
  | low :: high :: rest, trace =>
    let value := Cursor.wordOf low high
    let label := if (trace.headD .none).has .vector then symbols.lookup value.toUInt32 else none
    wordOperands symbols (.word value label :: made) rest (trace.drop 2)
  | _, _ => made.reverse

/-- Goes on behind some bytes of data. -/
def skip (walk : Walk) (count : Nat) : Walk :=
  { walk with cursor := walk.cursor.skip count, trace := walk.trace.drop count, inCode := false }

/-- A row of data bytes. -/
def bytesRow (symbols : Symbols) (config : Config) (walk : Walk) : Row × Walk :=
  let cursor := walk.cursor
  let count := byteRun symbols config.maxBytes 1 (cursor.address + 1) (cursor.rest.drop 1) (walk.trace.drop 1)
  let raw := cursor.rest.take count
  (⟨cursor.address, .bytes, Row.bytesMnemonic, raw.map .byte, raw, none⟩, walk.skip count)

/-- A row of data words. -/
def wordsRow (symbols : Symbols) (config : Config) (walk : Walk) : Row × Walk :=
  let cursor := walk.cursor
  let count := 2 * wordRun symbols config.maxWords 1 (cursor.address + 2) (cursor.rest.drop 2) (walk.trace.drop 2)
  let raw := cursor.rest.take count
  (⟨cursor.address, .words, Row.wordsMnemonic, wordOperands symbols [] raw walk.trace, raw, none⟩, walk.skip count)

/-! ## Rows of code -/

/-- A row with an instruction. -/
def instructionRow (symbols : Symbols) (walk : Walk) : Row × Walk :=
  let instruction := Instruction.decode symbols walk.jumpPage walk.cursor
  (instruction.row,
    { cursor := instruction.after
      trace := walk.trace.drop instruction.row.length
      jumpPage := instruction.jumpPage
      inCode := !instruction.endsRun })

theorem instructionRow_remaining_lt (symbols : Symbols) (walk : Walk) (h : walk.cursor.rest ≠ []) :
    (walk.instructionRow symbols).2.cursor.remaining < walk.cursor.remaining :=
  Instruction.decode_remaining_lt symbols walk.jumpPage walk.cursor h

/-- A run of code: the rows of its instructions in front of those already made (the latest first), and the walk behind
it. -/
def codeRun (symbols : Symbols) (walk : Walk) (made : List Row) : List Row × Walk :=
  if walk.cursor.rest = [] then (made, walk)
  else
    let next := walk.instructionRow symbols
    if next.2.inCode then codeRun symbols next.2 (next.1 :: made) else (next.1 :: made, next.2)
termination_by walk.cursor.remaining
decreasing_by exact instructionRow_remaining_lt symbols walk ‹_›

/-! ## The walk -/

/-- What comes next, a run of code or a row of data: its rows, without their labels, in front of those already made, and
the walk behind it. -/
def block (symbols : Symbols) (config : Config) (walk : Walk) (made : List Row) : List Row × Walk :=
  let known := walk.trace.headD .none
  if known.has .instruction then walk.codeRun symbols made
  else if walk.cursor.hasWord && known.has .wordLo then
    let next := walk.wordsRow symbols config
    (next.1 :: made, next.2)
  else
    let next := walk.bytesRow symbols config
    (next.1 :: made, next.2)

/-- A row of data bytes keeps the bytes that it has. -/
theorem le_byteRun (symbols : Symbols) (limit count : Nat) (address : UInt32) (rest : List UInt8)
    (trace : List Access) : count ≤ byteRun symbols limit count address rest trace := by
  induction rest generalizing count address trace with
  | nil => simp [byteRun]
  | cons b rest ih =>
    simp only [byteRun]
    split
    · exact Nat.le_refl _
    · exact Nat.le_of_succ_le (ih ..)

/-- A row of data words keeps the words that it has. -/
theorem le_wordRun (symbols : Symbols) (limit count : Nat) (address : UInt32) (rest : List UInt8)
    (trace : List Access) : count ≤ wordRun symbols limit count address rest trace := by
  fun_induction wordRun symbols limit count address rest trace with
  | case1 => exact Nat.le_refl _
  | case2 count address _ _ _ _ _ ih => exact Nat.le_of_succ_le ih
  | case3 => exact Nat.le_refl _

theorem wordsRow_remaining_lt (symbols : Symbols) (config : Config) (walk : Walk) (h : walk.cursor.rest ≠ []) :
    (walk.wordsRow symbols config).2.cursor.remaining < walk.cursor.remaining := by
  have hpos : 0 < walk.cursor.rest.length := List.length_pos_iff.2 h
  have := le_wordRun symbols config.maxWords 1 (walk.cursor.address + 2) (walk.cursor.rest.drop 2) (walk.trace.drop 2)
  simp only [wordsRow, skip, Cursor.skip, Cursor.remaining, List.length_drop]
  omega

theorem bytesRow_remaining_lt (symbols : Symbols) (config : Config) (walk : Walk) (h : walk.cursor.rest ≠ []) :
    (walk.bytesRow symbols config).2.cursor.remaining < walk.cursor.remaining := by
  have hpos : 0 < walk.cursor.rest.length := List.length_pos_iff.2 h
  have := le_byteRun symbols config.maxBytes 1 (walk.cursor.address + 1) (walk.cursor.rest.drop 1) (walk.trace.drop 1)
  simp only [bytesRow, skip, Cursor.skip, Cursor.remaining, List.length_drop]
  omega

theorem codeRun_remaining_le (symbols : Symbols) (walk : Walk) (made : List Row) :
    (walk.codeRun symbols made).2.cursor.remaining ≤ walk.cursor.remaining := by
  fun_induction codeRun symbols walk made with
  | case1 => exact Nat.le_refl _
  | case2 walk made h _ _ ih => exact Nat.le_trans ih (Nat.le_of_lt (instructionRow_remaining_lt symbols walk h))
  | case3 walk made h => exact Nat.le_of_lt (instructionRow_remaining_lt symbols walk h)

theorem codeRun_remaining_lt (symbols : Symbols) (walk : Walk) (made : List Row) (h : walk.cursor.rest ≠ []) :
    (walk.codeRun symbols made).2.cursor.remaining < walk.cursor.remaining := by
  have hfirst := instructionRow_remaining_lt symbols walk h
  rw [codeRun, if_neg h]
  dsimp only
  split
  · exact Nat.lt_of_le_of_lt (codeRun_remaining_le ..) hfirst
  · exact hfirst

/-- A run of code and a row of data take at least one byte. -/
theorem block_remaining_lt (symbols : Symbols) (config : Config) (walk : Walk) (made : List Row)
    (h : walk.cursor.rest ≠ []) : (walk.block symbols config made).2.cursor.remaining < walk.cursor.remaining := by
  simp only [block]
  split
  · exact codeRun_remaining_lt symbols walk made h
  · split
    · exact wordsRow_remaining_lt symbols config walk h
    · exact bytesRow_remaining_lt symbols config walk h

/-- The rows from here to the end, without their labels, behind those already made (the latest first). -/
def rows (symbols : Symbols) (config : Config) (walk : Walk) (made : List Row) : List Row :=
  if walk.cursor.rest = [] then made.reverse
  else
    let next := walk.block symbols config made
    rows symbols config next.2 next.1
termination_by walk.cursor.remaining
decreasing_by exact block_remaining_lt symbols config walk made ‹_›

end Walk

/-- A row with the label of its first byte. -/
def Row.withLabel (symbols : Symbols) (row : Row) : Row := { row with label := symbols.lookup row.address }

@[simp] theorem Row.withLabel_kind (symbols : Symbols) (row : Row) : (row.withLabel symbols).kind = row.kind := rfl

@[simp] theorem Row.withLabel_mnemonic (symbols : Symbols) (row : Row) :
    (row.withLabel symbols).mnemonic = row.mnemonic := rfl

@[simp] theorem Row.withLabel_raw (symbols : Symbols) (row : Row) : (row.withLabel symbols).raw = row.raw := rfl

/-- The listing of a view. -/
def View.rows (view : View) (symbols : Symbols) (config : Config) : List Row :=
  ((Walk.ofView view).rows symbols config []).map (Row.withLabel symbols)

end TraceDisasm
