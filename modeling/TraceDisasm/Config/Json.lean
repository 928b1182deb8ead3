import TraceDisasm.Config
import TraceDisasm.Json.Skip

/-!
# Configurations as JSON

A configuration is written as an object with its three members in a fixed order (`Config.toJson`). It is read from an
object whose members may come in any order and may be missing, with other members among them, or from a list of the
values in the fixed order, of which the last ones may be missing (`Config.ofJson`). What is missing has its standard
value. The limits are looked at only when the whole text has been read.
-/

namespace TraceDisasm

/-! ## Values -/

namespace Json

/-- The fault of a text that begins with a value of another type than the one asked for. A string or a number is read
to its end first, a list or an object is not. -/
def wrongType (text : List Char) : Fault :=
  let faultOf {α : Type} (result : Except Fault α) : Fault :=
    match result with
    | .error fault => fault
    | .ok _ => .mismatched
  match text with
  | [] => .ended
  | c :: rest =>
    if c = '[' ∨ c = '\x7b' then .mismatched
    else if c = '"' then faultOf (readString [] rest)
    else if c = '-' ∨ c.isDigit then faultOf (readNumber text)
    else if c = 'n' then faultOf (expect ['u', 'l', 'l'] rest)
    else if c = 't' then faultOf (expect ['r', 'u', 'e'] rest)
    else if c = 'f' then faultOf (expect ['a', 'l', 's', 'e'] rest)
    else .malformed

/-- Reads an unsigned number of at most 64 bits. -/
def readNatural (text : List Char) : Except Fault (Nat × List Char) :=
  let text := skipBlanks text
  match text with
  | [] => .error .ended
  | c :: _ =>
    if c = '-' ∨ c.isDigit then
      match readNumber text with
      | .error fault => .error fault
      | .ok (numeral, rest) =>
        match numeral.natural? with
        | some n => .ok (n, rest)
        | none => .error .mismatched
    else .error (wrongType text)

/-- Reads a string with its quotes. -/
def readQuoted (text : List Char) : Except Fault (String × List Char) :=
  let text := skipBlanks text
  match text with
  | [] => .error .ended
  | c :: rest => if c = '"' then readString [] rest else .error (wrongType text)

/-- The text behind a colon. -/
def readColon (text : List Char) : Except Fault (List Char) :=
  match skipBlanks text with
  | [] => .error .ended
  | c :: rest => if c = ':' then .ok rest else .error .malformed

end Json

open Json

namespace Config

/-! ## Members -/

/-- The members of a configuration that have been read. -/
structure Members where
  maxWords : Option Nat
  maxBytes : Option Nat
  labelStem : Option String
  deriving DecidableEq

/-- No member has been read. -/
def Members.none : Members := ⟨.none, .none, .none⟩

/-- The configuration with these members, and standard values for the others. -/
def Members.complete (members : Members) : Config where
  maxWords := members.maxWords.getD standard.maxWords
  maxBytes := members.maxBytes.getD standard.maxBytes
  labelStem := members.labelStem.getD standard.labelStem

/-- The name of the member that says what labels begin with. -/
def stemName : String := "label_prefix"

/-- Reads the value of a member behind its name, unless the member has been read already. -/
def readOnce {α : Type} (known : Option α) (read : List Char → Except Fault (α × List Char)) (text : List Char) :
    Except Fault (α × List Char) :=
  if known.isSome then .error .mismatched else readColon text >>= read

/-- Reads a member behind its name. A member of the configuration must not come twice; one of another name may have
any value. -/
def readMember (members : Members) (name : String) (text : List Char) : Except Fault (Members × List Char) :=
  if name = Limit.words.name then
    (readOnce members.maxWords readNatural text).map
      fun (value, rest) => ({ members with maxWords := some value }, rest)
  else if name = Limit.bytes.name then
    (readOnce members.maxBytes readNatural text).map
      fun (value, rest) => ({ members with maxBytes := some value }, rest)
  else if name = stemName then
    (readOnce members.labelStem readQuoted text).map
      fun (value, rest) => ({ members with labelStem := some value }, rest)
  else (readColon text >>= skipValue).map fun rest => (members, rest)

/-- What follows in an object. -/
inductive ObjectPart
  /-- The end of the object. -/
  | closed (rest : List Char)
  /-- A member of this name. -/
  | member (name : String) (rest : List Char)

/-- Reads the name of a member. -/
def readName (text : List Char) : Except Fault ObjectPart :=
  match skipBlanks text with
  | [] => .error .ended
  | c :: rest =>
    if c = '"' then (readString [] rest).map fun (name, rest) => .member name rest else .error .malformed

/-- Reads on in an object, at its beginning or behind a member. -/
def readPart (isFirst : Bool) (text : List Char) : Except Fault ObjectPart :=
  match skipBlanks text with
  | [] => .error .ended
  | c :: rest =>
    if c = '\x7d' then .ok (.closed rest)
    else if isFirst then readName (c :: rest)
    else if c = ',' then readName rest
    else .error .malformed

/-! ## Progress -/

theorem readNatural_length {text rest : List Char} {n : Nat} (h : readNatural text = .ok (n, rest)) :
    rest.length < text.length := by
  have h₁ := length_skipBlanks_le text
  simp only [readNatural] at h
  split at h
  · cases h
  · split at h
    · split at h
      · cases h
      · next numeral behind hn =>
        have h₂ := readNumber_length hn
        split at h
        · cases h
          omega
        · cases h
    · cases h

theorem readQuoted_length {text rest : List Char} {s : String} (h : readQuoted text = .ok (s, rest)) :
    rest.length < text.length := by
  simp only [readQuoted] at h
  split at h
  · cases h
  · next c behind hc =>
    have h₁ := length_of_skipBlanks hc
    split at h
    · exact Nat.lt_trans (readString_length h) h₁
    · cases h

theorem readColon_length {text rest : List Char} (h : readColon text = .ok rest) : rest.length < text.length := by
  simp only [readColon] at h
  split at h
  · cases h
  · next c behind hc =>
    have h₁ := length_of_skipBlanks hc
    split at h
    · cases h
      exact h₁
    · cases h

theorem readOnce_length {α : Type} {known : Option α} {read : List Char → Except Fault (α × List Char)}
    (hread : ∀ {text rest a}, read text = .ok (a, rest) → rest.length < text.length)
    {text rest : List Char} {a : α} (h : readOnce known read text = .ok (a, rest)) : rest.length < text.length := by
  simp only [readOnce] at h
  split at h
  · cases h
  · obtain ⟨behind, hc, h⟩ := exists_of_bind_eq_ok h
    exact Nat.lt_trans (hread h) (readColon_length hc)

theorem readMember_length {members after : Members} {name : String} {text rest : List Char}
    (h : readMember members name text = .ok (after, rest)) : rest.length < text.length := by
  simp only [readMember] at h
  split at h
  · obtain ⟨⟨value, behind⟩, hv, heq⟩ := exists_of_map_eq_ok h
    cases heq
    exact readOnce_length readNatural_length hv
  · split at h
    · obtain ⟨⟨value, behind⟩, hv, heq⟩ := exists_of_map_eq_ok h
      cases heq
      exact readOnce_length readNatural_length hv
    · split at h
      · obtain ⟨⟨value, behind⟩, hv, heq⟩ := exists_of_map_eq_ok h
        cases heq
        exact readOnce_length readQuoted_length hv
      · obtain ⟨behind, hv, heq⟩ := exists_of_map_eq_ok h
        cases heq
        obtain ⟨colon, hc, hs⟩ := exists_of_bind_eq_ok hv
        exact Nat.lt_of_le_of_lt (skipIn_length_le hs) (readColon_length hc)

theorem readName_length {text rest : List Char} {name : String} (h : readName text = .ok (.member name rest)) :
    rest.length < text.length := by
  simp only [readName] at h
  split at h
  · cases h
  · next c behind hc =>
    have h₁ := length_of_skipBlanks hc
    split at h
    · obtain ⟨⟨n, r⟩, hs, heq⟩ := exists_of_map_eq_ok h
      cases heq
      exact Nat.lt_trans (readString_length hs) h₁
    · cases h

theorem readPart_length {isFirst : Bool} {text rest : List Char} {name : String}
    (h : readPart isFirst text = .ok (.member name rest)) : rest.length < text.length := by
  have h₁ := length_skipBlanks_le text
  simp only [readPart] at h
  split at h
  · cases h
  · next c behind hc =>
    rw [hc, List.length_cons] at h₁
    split at h
    · cases h
    · split at h
      · exact Nat.lt_of_lt_of_le (readName_length h) h₁
      · split at h
        · have := readName_length h
          omega
        · cases h

/-! ## Whole configurations -/

/-- Reads an object from its beginning or from behind a member. -/
def readMembers (isFirst : Bool) (members : Members) (text : List Char) : Except Fault (Members × List Char) :=
  match _hp : readPart isFirst text with
  | .error fault => .error fault
  | .ok (.closed rest) => .ok (members, rest)
  | .ok (.member name value) =>
    match _hm : readMember members name value with
    | .error fault => .error fault
    | .ok (members, rest) => readMembers false members rest
termination_by text.length
decreasing_by exact Nat.lt_trans (readMember_length _hm) (readPart_length _hp)

/-- Looks for the next element of a list, at its beginning or behind an element. Gives the text of the element, or
nothing if the list ends. -/
def nextElement (isFirst : Bool) (text : List Char) : Except Fault (Option (List Char)) :=
  match skipBlanks text with
  | [] => .error .ended
  | c :: rest =>
    if c = ']' then .ok none
    else if isFirst then .ok (some (c :: rest))
    else if c = ',' then
      match skipBlanks rest with
      | [] => .error .ended
      | c :: rest => if c = ']' then .error .malformed else .ok (some (c :: rest))
    else .error .malformed

/-- Reads an element of a list, if there is one more. -/
def readElement {α : Type} (isFirst : Bool) (read : List Char → Except Fault (α × List Char)) (text : List Char) :
    Except Fault (Option α × List Char) :=
  match nextElement isFirst text with
  | .error fault => .error fault
  | .ok none => .ok (none, text)
  | .ok (some element) => (read element).map fun (value, rest) => (some value, rest)

/-- Reads a list of the values of the members. -/
def readList (text : List Char) : Except Fault (Members × List Char) := do
  let (maxWords, text) ← readElement true readNatural text
  let (maxBytes, text) ← readElement false readNatural text
  let (labelStem, text) ← readElement false readQuoted text
  match skipBlanks text with
  | [] => .error .ended
  | c :: rest => if c = ']' then .ok (⟨maxWords, maxBytes, labelStem⟩, rest) else .error .malformed

/-- Reads an object or a list. -/
def readMembersOrList (text : List Char) : Except Fault (Members × List Char) :=
  match skipBlanks text with
  | [] => .error .ended
  | c :: rest =>
    if c = '\x7b' then readMembers true .none rest
    else if c = '[' then readList rest
    else .error (wrongType (c :: rest))

/-- Why a text gives no configuration. -/
inductive ReadError
  /-- It cannot be read. -/
  | unreadable (fault : Fault)
  /-- It says that a limit is zero. -/
  | zeroLimit (limit : Limit)
  deriving DecidableEq

/-- Reads a configuration. -/
def ofJson (text : String) : Except ReadError Config :=
  match readMembersOrList text.toList with
  | .error fault => .error (.unreadable fault)
  | .ok (members, rest) =>
    if (skipBlanks rest).isEmpty then members.complete.validate.mapError .zeroLimit
    else .error (.unreadable .malformed)

/-- The written form of a configuration. -/
def toJson (config : Config) : String :=
  "\x7b\"" ++ Limit.words.name ++ "\":" ++ config.maxWords.repr ++
    ",\"" ++ Limit.bytes.name ++ "\":" ++ config.maxBytes.repr ++
    ",\"" ++ stemName ++ "\":" ++ String.ofList (quote config.labelStem) ++ "\x7d"

end Config

end TraceDisasm
