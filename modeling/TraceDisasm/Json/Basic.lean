import TraceDisasm.Error

/-!
# Reading JSON: the common part

JSON text is read from the front, as a list of characters; a reader gives what it has read together with the characters
behind it. Reading stops at the first fault. There are three kinds of fault, and the kind is all that is reported.
-/

namespace TraceDisasm.Json

/-- Why a text was not accepted. -/
inductive Fault
  /-- The text ends before the value is complete. -/
  | ended
  /-- The text is not JSON. -/
  | malformed
  /-- The text is JSON so far, but not of the form that is asked for. -/
  | mismatched
  deriving DecidableEq

/-- The characters that may stand between the parts of a text. -/
def isBlank (c : Char) : Bool :=
  c == ' ' || c == '\t' || c == '\n' || c == '\r'

/-- The text from its first character that is not blank. -/
def skipBlanks (text : List Char) : List Char :=
  text.dropWhile isBlank

/-- The text behind a sequence of characters. -/
def expect : List Char → List Char → Except Fault (List Char)
  | [], text => .ok text
  | _ :: _, [] => .error .ended
  | e :: expected, c :: text => if c = e then expect expected text else .error .malformed

theorem length_skipBlanks_le (text : List Char) : (skipBlanks text).length ≤ text.length :=
  (List.dropWhile_sublist isBlank).length_le

theorem length_of_skipBlanks {text rest : List Char} {c : Char} (h : skipBlanks text = c :: rest) :
    rest.length < text.length := by
  have := length_skipBlanks_le text
  rw [h, List.length_cons] at this
  omega

theorem expect_length {expected text rest : List Char} (h : expect expected text = .ok rest) :
    rest.length + expected.length = text.length := by
  fun_induction expect expected text with
  | case1 => cases h; rfl
  | case2 => cases h
  | case3 e expected text ih =>
    have := ih h
    simp only [List.length_cons]
    omega
  | case4 => cases h

end TraceDisasm.Json
