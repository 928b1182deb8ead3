import TraceDisasm.Json.Skip

/-!
# The grammar of JSON

What a JSON text may look like, without regard to how it is read. Every relation of this module holds of a text just if the
text is written in this way; the longer ones say also what it stands for.

* `Space` is white space, which may stand before and behind every part of a list or an object.
* `StringText` relates the characters of a string to what may stand between its quotes. A character beyond the first plane
  is written as itself or by its two UTF-16 units, and no unit of a pair stands alone. `AnyStringText` is the looser form
  in which any unit may stand anywhere.
* `NumberText` is a number as it is written.
* `Derives` is a value of any depth, or a part of one.
-/

namespace TraceDisasm.Json

/-- Nothing but white space. -/
def Space (text : List Char) : Prop := ∀ c ∈ text, c ∈ [' ', '\t', '\n', '\r']

instance (text : List Char) : Decidable (Space text) :=
  List.decidableBAll (· ∈ [' ', '\t', '\n', '\r']) text

/-! ## Strings -/

/-- The letters with a meaning behind a backslash, each with the character that it stands for. -/
def escapes : List (Char × Char) :=
  [('"', '"'), ('\\', '\\'), ('/', '/'), ('b', '\x08'), ('f', '\x0c'), ('n', '\n'), ('r', '\r'), ('t', '\t')]

/-- The four digits of a UTF-16 unit, each of them in either spelling. -/
inductive UnitText (unit : Nat) : List Char → Prop
  | mk (a b c d : Hex.Letters) : UnitText unit [Hex.digit a (unit / 0x1000 % 16), Hex.digit b (unit / 0x100 % 16),
      Hex.digit c (unit / 0x10 % 16), Hex.digit d (unit % 16)]

/-- The ways to write a character. -/
inductive CharText : Char → List Char → Prop
  | plain {c : Char} : c ≠ '"' → c ≠ '\\' → 0x20 ≤ c.toNat → CharText c [c]
  | letter {letter c : Char} : (letter, c) ∈ escapes → CharText c ['\\', letter]
  | unit {c : Char} {digits : List Char} : c.toNat < 0x10000 → UnitText c.toNat digits →
      CharText c ('\\' :: 'u' :: digits)
  | pair {c : Char} {high low : List Char} : 0x10000 ≤ c.toNat →
      UnitText (0xD800 + (c.toNat - 0x10000) / 0x400) high → UnitText (0xDC00 + (c.toNat - 0x10000) % 0x400) low →
        CharText c ('\\' :: 'u' :: high ++ '\\' :: 'u' :: low)

/-- The characters of a string, one behind the other. -/
inductive StringText : List Char → List Char → Prop
  | nil : StringText [] []
  | cons {c : Char} {text chars rest : List Char} : CharText c text → StringText chars rest →
      StringText (c :: chars) (text ++ rest)

/-- A string with its quotes. -/
inductive QuotedText : String → List Char → Prop
  | mk {s : String} {body : List Char} : StringText s.toList body → QuotedText s ('"' :: body ++ ['"'])

/-- What may stand between the quotes of a string of which nobody asks what it stands for. -/
inductive AnyStringText : List Char → Prop
  | nil : AnyStringText []
  | plain {c : Char} {rest : List Char} : c ≠ '"' → c ≠ '\\' → 0x20 ≤ c.toNat → AnyStringText rest →
      AnyStringText (c :: rest)
  | letter {letter c : Char} {rest : List Char} : (letter, c) ∈ escapes → AnyStringText rest →
      AnyStringText ('\\' :: letter :: rest)
  | unit {unit : Nat} {digits rest : List Char} : UnitText unit digits → AnyStringText rest →
      AnyStringText ('\\' :: 'u' :: digits ++ rest)

/-! ## Numbers -/

/-- Decimal digits, at least one. -/
structure Digits (text : List Char) : Prop where
  ne_nil : text ≠ []
  isDigit : ∀ c ∈ text, c.isDigit = true

/-- The fraction of a number, if it has one. -/
inductive FractionText : Option (List Char) → List Char → Prop
  | none : FractionText none []
  | some {digits : List Char} : Digits digits → FractionText (some digits) ('.' :: digits)

/-- The exponent of a number, if it has one. -/
inductive ExponentText : Option (Bool × List Char) → List Char → Prop
  | none : ExponentText none []
  | some {letter : Char} {negative : Bool} {sign digits : List Char} : letter ∈ ['e', 'E'] →
      (negative, sign) ∈ [(false, []), (false, ['+']), (true, ['-'])] → Digits digits →
        ExponentText (some (negative, digits)) (letter :: sign ++ digits)

/-- A number as it is written. Before the point, only zero itself begins with a zero. -/
inductive NumberText : Numeral → List Char → Prop
  | mk {negative : Bool} {sign integer fractionText exponentText : List Char} {fraction : Option (List Char)}
      {exponent : Option (Bool × List Char)} : (negative, sign) ∈ [(false, []), (true, ['-'])] → Digits integer →
        (integer.head? = some '0' → integer = ['0']) → FractionText fraction fractionText →
        ExponentText exponent exponentText →
          NumberText ⟨negative, integer, fraction, exponent⟩ (sign ++ (integer ++ (fractionText ++ exponentText)))

/-! ## Values -/

/-- The bracket that begins a list or an object. -/
def Frame.opening : Frame → Char
  | list => '['
  | object => '\x7b'

/-- The bracket that ends a list or an object. -/
def Frame.closing : Frame → Char
  | list => ']'
  | object => '\x7d'

/-- The parts of a text that may hold values inside them. -/
inductive Part
  /-- A value. -/
  | value
  /-- An element of a list or a member of an object, with white space around it. -/
  | item (frame : Frame)
  /-- All of what stands between two brackets. -/
  | items (frame : Frame)

/-- The texts of a part. -/
inductive Derives : Part → List Char → Prop
  | word {text : List Char} : text ∈ [['n', 'u', 'l', 'l'], ['t', 'r', 'u', 'e'], ['f', 'a', 'l', 's', 'e']] →
      Derives .value text
  | number {numeral : Numeral} {text : List Char} : NumberText numeral text → Derives .value text
  | string {body : List Char} : AnyStringText body → Derives .value ('"' :: body ++ ['"'])
  | empty (frame : Frame) {blanks : List Char} : Space blanks →
      Derives .value (frame.opening :: blanks ++ [frame.closing])
  | filled {frame : Frame} {items : List Char} : Derives (.items frame) items →
      Derives .value (frame.opening :: items ++ [frame.closing])
  | element {before value behind : List Char} : Space before → Derives .value value → Space behind →
      Derives (.item .list) (before ++ (value ++ behind))
  | member {before name between gap value behind : List Char} : Space before → AnyStringText name → Space between →
      Space gap → Derives .value value → Space behind →
        Derives (.item .object) (before ++ ('"' :: name ++ '"' :: between ++ ':' :: gap ++ (value ++ behind)))
  | last {frame : Frame} {item : List Char} : Derives (.item frame) item → Derives (.items frame) item
  | next {frame : Frame} {item items : List Char} : Derives (.item frame) item → Derives (.items frame) items →
      Derives (.items frame) (item ++ ',' :: items)

end TraceDisasm.Json
