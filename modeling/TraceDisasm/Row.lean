import TraceDisasm.Bisect
import TraceDisasm.Operand
import TraceDisasm.Text.Blank

/-!
# Rows

A row of a listing covers some bytes of a bank and shows what they are. Its line has four columns: the address, the
bytes, the label with a colon, and the row's own text. The columns are filled with spaces to their width, a longer
entry moves the rest of the line to the right, and blanks at the end of the line are dropped.
-/

namespace TraceDisasm

/-- What the bytes of a row are shown as. -/
inductive RowKind
  /-- An instruction. -/
  | instruction
  /-- The bytes of an undefined opcode, or of an instruction that the end of the bank cuts off. -/
  | illegal
  /-- Data words. -/
  | words
  /-- Data bytes. -/
  | bytes
  deriving DecidableEq

/-- One row of a listing. -/
structure Row where
  /-- The address of the first byte. -/
  address : UInt32
  kind : RowKind
  mnemonic : String
  operands : List Operand
  /-- The bytes that the row covers. -/
  raw : List UInt8
  /-- The label of the first byte. -/
  label : Option String
  deriving DecidableEq

namespace Row

/-- The mnemonic of an illegal row. -/
def illegalMnemonic : String := "NDEF"

/-- The mnemonic of data words. -/
def wordsMnemonic : String := "DW"

/-- The mnemonic of data bytes. -/
def bytesMnemonic : String := "DB"

/-- Number of bytes that a row covers. -/
def length (row : Row) : Nat := row.raw.length

/-- One past the last address of a row. -/
def stop (row : Row) : UInt32 := row.address + UInt32.ofNat row.length

/-- Whether a row covers an address. -/
def contains (row : Row) (address : UInt32) : Bool :=
  row.address ≤ address && address < row.stop

/-- The position of the row that covers an address, in rows that follow one another: it is behind all those that end at the
address or before it, if it is there. -/
def indexOf? (rows : List Row) (address : UInt32) : Option Nat :=
  let index := partitionPoint (fun row => row.stop ≤ address) rows
  (rows[index]?.filter fun row => row.contains address).map fun _ => index

/-- The mnemonic, and the operands behind it. -/
def text (row : Row) : String :=
  if row.operands.isEmpty then row.mnemonic
  else row.mnemonic ++ " " ++ String.intercalate ", " (row.operands.map Operand.text)

/-- The bytes of a row, two digits each. -/
def rawText (row : Row) : String :=
  String.intercalate " " (row.raw.map fun byte => String.ofList (Hex.fixed .upper 2 byte.toNat))

/-- Width of the column of bytes. -/
def rawWidth : Nat := 29

/-- Width of the column of labels. -/
def labelWidth : Nat := 12

/-- What the column of labels holds. -/
def labelText (row : Row) : String :=
  match row.label with
  | some label => label ++ ":"
  | none => ""

/-- The line of a row before the blanks at its end are dropped. -/
def columns (row : Row) : List Char :=
  Hex.atLeast .upper 6 row.address ++ [' ', ' '] ++ Text.padRight rawWidth row.rawText.toList ++ [' '] ++
    Text.padRight labelWidth row.labelText.toList ++ [' '] ++ row.text.toList

/-- The line of a row. -/
def line (row : Row) : String :=
  String.ofList (Text.trimRight row.columns)

/-- The text of a listing, a line for each row. -/
def listing (rows : List Row) : String :=
  String.join (rows.map fun row => row.line ++ "\n")

end Row

end TraceDisasm
