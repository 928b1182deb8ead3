/-!
# Reading bytes

A cursor stands in the bytes of a bank: behind it `index` bytes have been read, ahead of it is `rest`. Reading takes
bytes off the front, so it always ends, and what was read between two cursors is a piece of the earlier one's `rest`
(`bytesTo`).
-/

namespace TraceDisasm

/-- A reading position. -/
structure Cursor where
  /-- The address of the first byte of the bank. -/
  start : UInt32
  /-- Number of bytes behind the cursor. -/
  index : Nat
  /-- The bytes ahead. -/
  rest : List UInt8

namespace Cursor

/-- The position before the first of some bytes. -/
def ofBytes (start : UInt32) (bytes : List UInt8) : Cursor := ⟨start, 0, bytes⟩

/-- The address of the next byte. -/
def address (cursor : Cursor) : UInt32 := cursor.start + UInt32.ofNat cursor.index

/-- Number of bytes ahead. -/
def remaining (cursor : Cursor) : Nat := cursor.rest.length

/-- Whether a whole word is ahead. This looks at two bytes only, however many are ahead. -/
def hasWord (cursor : Cursor) : Bool :=
  match cursor.rest with
  | _ :: _ :: _ => true
  | _ => false

theorem hasWord_eq_true_iff (cursor : Cursor) : cursor.hasWord = true ↔ 2 ≤ cursor.remaining := by
  obtain ⟨start, index, rest⟩ := cursor
  match rest with
  | [] => simp [hasWord, remaining]
  | [_] => simp [hasWord, remaining]
  | _ :: _ :: _ => simp [hasWord, remaining]

/-- The position after some more bytes. -/
def skip (cursor : Cursor) (count : Nat) : Cursor :=
  { cursor with index := cursor.index + count, rest := cursor.rest.drop count }

/-- Reads a byte; at the end there is none. -/
def byte (cursor : Cursor) : Option UInt8 × Cursor :=
  match cursor.rest with
  | [] => (none, cursor)
  | b :: _ => (some b, cursor.skip 1)

/-- The word of two bytes, the low one first. -/
def wordOf (low high : UInt8) : UInt16 :=
  low.toUInt16 ||| (high.toUInt16 <<< 8)

/-- Reads a word, low byte first. A single byte before the end is read, but makes no word. -/
def word (cursor : Cursor) : Option UInt16 × Cursor :=
  match cursor.rest with
  | [] => (none, cursor)
  | [_] => (none, cursor.skip 1)
  | low :: high :: _ => (some (wordOf low high), cursor.skip 2)

/-- The bytes from a cursor up to a later one. -/
def bytesTo (cursor later : Cursor) : List UInt8 :=
  cursor.rest.take (later.index - cursor.index)

@[simp] theorem bytesTo_skip (cursor : Cursor) (count : Nat) :
    cursor.bytesTo (cursor.skip count) = cursor.rest.take count := by
  simp [bytesTo, skip]

end Cursor

end TraceDisasm
