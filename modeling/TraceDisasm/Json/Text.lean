import TraceDisasm.Json.Basic
import TraceDisasm.Text.Hex

/-!
# JSON strings

A string is written between quotes. The quote itself, the backslash and the control characters below `0x20` are escaped
with a backslash; every other character stands for itself (`quote`). Any character may be escaped by the number of its
UTF-16 unit, and a character beyond the first plane by the two units of a surrogate pair.

A string is read in two ways. `readString` gives its characters, so surrogates must come in pairs. `skipString` only
looks for its end and accepts any four digits. Both begin behind the opening quote.
-/

namespace TraceDisasm.Json

/-! ## Escapes -/

/-- The character that a letter behind a backslash stands for. -/
def unescape? : Char → Option Char
  | '"' => some '"'
  | '\\' => some '\\'
  | '/' => some '/'
  | 'b' => some '\x08'
  | 'f' => some '\x0c'
  | 'n' => some '\n'
  | 'r' => some '\r'
  | 't' => some '\t'
  | _ => none

/-- The number that four hexadecimal digits stand for. -/
def unit? (a b c d : Char) : Option Nat :=
  match Hex.digitValue? a, Hex.digitValue? b, Hex.digitValue? c, Hex.digitValue? d with
  | some a, some b, some c, some d => some (((a * 16 + b) * 16 + c) * 16 + d)
  | _, _, _, _ => none

/-- The fault of an escape with fewer than four characters behind it. Four bytes are taken for the digits before they
are looked at, so the text has ended only if it has not even those. -/
def shortEscape (text : List Char) : Fault :=
  if 4 ≤ text.foldr (fun c size => c.utf8Size + size) 0 then .malformed else .ended

/-- Whether a UTF-16 unit is the first of a pair. -/
def isHighSurrogate (unit : Nat) : Bool := 0xD800 ≤ unit && unit ≤ 0xDBFF

/-- Whether a UTF-16 unit is the second of a pair. -/
def isLowSurrogate (unit : Nat) : Bool := 0xDC00 ≤ unit && unit ≤ 0xDFFF

/-- The character that a surrogate pair stands for. -/
def pairChar (high low : Nat) : Char :=
  Char.ofNat (0x10000 + (high - 0xD800) * 0x400 + (low - 0xDC00))

/-! ## Reading -/

/-- Reads a string whose characters before the text, the last one first, are `made`. -/
def readString (made : List Char) : List Char → Except Fault (String × List Char)
  | [] => .error .ended
  | c :: rest =>
    if c = '"' then .ok (String.ofList made.reverse, rest)
    else if c = '\\' then
      match rest with
      | [] => .error .ended
      | e :: rest =>
        if e = 'u' then
          match rest with
          | a :: b :: c :: d :: rest =>
            match unit? a b c d with
            | none => .error .malformed
            | some unit =>
              if isLowSurrogate unit then .error .malformed
              else if isHighSurrogate unit then
                match rest with
                | '\\' :: 'u' :: a :: b :: c :: d :: rest =>
                  match unit? a b c d with
                  | none => .error .malformed
                  | some low =>
                    if isLowSurrogate low then readString (pairChar unit low :: made) rest else .error .malformed
                | '\\' :: 'u' :: short => .error (shortEscape short)
                | [] | ['\\'] => .error .ended
                | _ => .error .malformed
              else readString (Char.ofNat unit :: made) rest
          | short => .error (shortEscape short)
        else
          match unescape? e with
          | some c => readString (c :: made) rest
          | none => .error .malformed
    else if c.toNat < 0x20 then .error .malformed
    else readString (c :: made) rest

/-- Skips a string. -/
def skipString : List Char → Except Fault (List Char)
  | [] => .error .ended
  | c :: rest =>
    if c = '"' then .ok rest
    else if c = '\\' then
      match rest with
      | [] => .error .ended
      | e :: rest =>
        if e = 'u' then
          match rest with
          | a :: b :: c :: d :: rest => if (unit? a b c d).isSome then skipString rest else .error .malformed
          | short => .error (shortEscape short)
        else if (unescape? e).isSome then skipString rest
        else .error .malformed
    else if c.toNat < 0x20 then .error .malformed
    else skipString rest

theorem readString_length {made text rest : List Char} {s : String} (h : readString made text = .ok (s, rest)) :
    rest.length < text.length := by
  fun_induction readString made text <;> simp_all <;> omega

theorem skipString_length {text rest : List Char} (h : skipString text = .ok rest) :
    rest.length < text.length := by
  fun_induction skipString text <;> simp_all <;> omega

/-! ## Writing -/

/-- How a character is written in a string. -/
def escape (c : Char) : List Char :=
  match c with
  | '"' => ['\\', '"']
  | '\\' => ['\\', '\\']
  | '\x08' => ['\\', 'b']
  | '\t' => ['\\', 't']
  | '\n' => ['\\', 'n']
  | '\x0c' => ['\\', 'f']
  | '\r' => ['\\', 'r']
  | c => if c.toNat < 0x20 then ['\\', 'u'] ++ Hex.fixed .lower 4 c.toNat else [c]

/-- The written form of a string. -/
def quote (s : String) : List Char :=
  '"' :: s.toList.flatMap escape ++ ['"']

end TraceDisasm.Json
