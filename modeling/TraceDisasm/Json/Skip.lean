import TraceDisasm.Json.Number
import TraceDisasm.Json.Text

/-!
# Skipping JSON values

`skipValue` finds the end of a value of any form and any depth without keeping anything of it. Numbers are not tested
for their range, nor strings for their surrogates. The brackets that are open are kept in a list, innermost first, so
the depth of a text is not limited.
-/

namespace TraceDisasm.Json

/-- A bracket that is open. -/
inductive Frame
  | list
  | object
  deriving DecidableEq

/-- What has been found in the text. -/
inductive Found
  /-- A value has ended. -/
  | ended (rest : List Char)
  /-- A value is due, as a part of what the bracket opens. -/
  | due (frame : Frame) (rest : List Char)

/-- The characters behind what has been found. -/
def Found.rest : Found → List Char
  | ended rest => rest
  | due _ rest => rest

/-- Skips the name of a member and the colon behind it. -/
def skipName (text : List Char) : Except Fault (List Char) :=
  match skipBlanks text with
  | [] => .error .ended
  | c :: text =>
    if c = '"' then
      match skipString text with
      | .error fault => .error fault
      | .ok text =>
        match skipBlanks text with
        | [] => .error .ended
        | c :: text => if c = ':' then .ok text else .error .malformed
    else .error .malformed

/-- Goes to the first part of what a bracket opens. -/
def enter (frame : Frame) (text : List Char) : Except Fault Found :=
  match frame, skipBlanks text with
  | _, [] => .error .ended
  | .list, c :: rest => if c = ']' then .ok (.ended rest) else .ok (.due .list (c :: rest))
  | .object, c :: rest =>
    if c = '\x7d' then .ok (.ended rest) else (skipName (c :: rest)).map (.due .object)

/-- Begins a value. -/
def beginValue (text : List Char) : Except Fault Found :=
  match skipBlanks text with
  | [] => .error .ended
  | c :: rest =>
    if c = '[' then enter .list rest
    else if c = '\x7b' then enter .object rest
    else if c = '"' then (skipString rest).map .ended
    else if c = '-' ∨ c.isDigit then (skipNumber (c :: rest)).map .ended
    else if c = 'n' then (expect ['u', 'l', 'l'] rest).map .ended
    else if c = 't' then (expect ['r', 'u', 'e'] rest).map .ended
    else if c = 'f' then (expect ['a', 'l', 's', 'e'] rest).map .ended
    else .error .malformed

/-- Goes on behind a part of what a bracket opened. -/
def afterPart (frame : Frame) (text : List Char) : Except Fault Found :=
  match frame, skipBlanks text with
  | _, [] => .error .ended
  | .list, c :: rest =>
    if c = ',' then .ok (.due .list rest) else if c = ']' then .ok (.ended rest) else .error .malformed
  | .object, c :: rest =>
    if c = ',' then (skipName rest).map (.due .object)
    else if c = '\x7d' then .ok (.ended rest)
    else .error .malformed

/-! ## Progress -/

theorem skipName_length {text rest : List Char} (h : skipName text = .ok rest) : rest.length < text.length := by
  simp only [skipName] at h
  split at h
  · cases h
  · next c name hc =>
    have h₁ := length_of_skipBlanks hc
    split at h
    · split at h
      · cases h
      · next behind hs =>
        have h₂ := skipString_length hs
        split at h
        · cases h
        · next c' colon hc' =>
          have h₃ := length_of_skipBlanks hc'
          split at h
          · cases h
            omega
          · cases h
    · cases h

theorem enter_length {frame : Frame} {text : List Char} {found : Found} (h : enter frame text = .ok found) :
    found.rest.length ≤ text.length := by
  have h₁ := length_skipBlanks_le text
  simp only [enter] at h
  split at h
  · cases h
  · next c rest hc =>
    rw [hc, List.length_cons] at h₁
    split at h
    · cases h
      exact Nat.le_of_succ_le h₁
    · cases h
      exact h₁
  · next c rest hc =>
    rw [hc, List.length_cons] at h₁
    split at h
    · cases h
      exact Nat.le_of_succ_le h₁
    · obtain ⟨behind, hn, rfl⟩ := exists_of_map_eq_ok h
      have := skipName_length hn
      simp only [Found.rest, List.length_cons] at *
      omega

theorem beginValue_length {text : List Char} {found : Found} (h : beginValue text = .ok found) :
    found.rest.length < text.length := by
  simp only [beginValue] at h
  split at h
  · cases h
  · next c rest hc =>
    have h₁ := length_of_skipBlanks hc
    have h₂ := length_skipBlanks_le text
    rw [hc] at h₂
    repeat' split at h
    · exact Nat.lt_of_le_of_lt (enter_length h) h₁
    · exact Nat.lt_of_le_of_lt (enter_length h) h₁
    · obtain ⟨behind, hs, rfl⟩ := exists_of_map_eq_ok h
      exact Nat.lt_trans (skipString_length hs) h₁
    · obtain ⟨behind, hs, rfl⟩ := exists_of_map_eq_ok h
      exact Nat.lt_of_lt_of_le (skipNumber_length hs) h₂
    · obtain ⟨behind, hs, rfl⟩ := exists_of_map_eq_ok h
      exact Nat.lt_of_le_of_lt (Nat.le_of_add_right_le (Nat.le_of_eq (expect_length hs))) h₁
    · obtain ⟨behind, hs, rfl⟩ := exists_of_map_eq_ok h
      exact Nat.lt_of_le_of_lt (Nat.le_of_add_right_le (Nat.le_of_eq (expect_length hs))) h₁
    · obtain ⟨behind, hs, rfl⟩ := exists_of_map_eq_ok h
      exact Nat.lt_of_le_of_lt (Nat.le_of_add_right_le (Nat.le_of_eq (expect_length hs))) h₁
    · cases h

theorem afterPart_length {frame : Frame} {text : List Char} {found : Found} (h : afterPart frame text = .ok found) :
    found.rest.length < text.length := by
  simp only [afterPart] at h
  split at h
  · cases h
  · next c rest hc =>
    have h₁ := length_of_skipBlanks hc
    repeat' split at h
    · cases h
      exact h₁
    · cases h
      exact h₁
    · cases h
  · next c rest hc =>
    have h₁ := length_of_skipBlanks hc
    repeat' split at h
    · obtain ⟨behind, hn, rfl⟩ := exists_of_map_eq_ok h
      exact Nat.lt_trans (skipName_length hn) h₁
    · cases h
      exact h₁
    · cases h

/-! ## The whole value -/

/-- Skips to the end of the outermost bracket of `frames`; of the innermost, either a part is due or one has ended. -/
def skipIn (isDue : Bool) (frames : List Frame) (text : List Char) : Except Fault (List Char) :=
  if isDue then
    match _h : beginValue text with
    | .error fault => .error fault
    | .ok (.ended rest) => skipIn false frames rest
    | .ok (.due frame rest) => skipIn true (frame :: frames) rest
  else
    match frames with
    | [] => .ok text
    | frame :: outer =>
      match _h : afterPart frame text with
      | .error fault => .error fault
      | .ok (.ended rest) => skipIn false outer rest
      | .ok (.due frame rest) => skipIn true (frame :: outer) rest
termination_by text.length
decreasing_by
  · exact beginValue_length _h
  · exact beginValue_length _h
  · exact afterPart_length _h
  · exact afterPart_length _h

/-- Skips a value. -/
def skipValue (text : List Char) : Except Fault (List Char) :=
  skipIn true [] text

theorem skipIn_length_le {isDue : Bool} {frames : List Frame} {text rest : List Char}
    (h : skipIn isDue frames text = .ok rest) : rest.length ≤ text.length := by
  fun_induction skipIn isDue frames text with
  | case1 => cases h
  | case2 =>
    rename_i found ih
    exact Nat.le_of_lt (Nat.lt_of_le_of_lt (ih h) (beginValue_length found))
  | case3 =>
    rename_i found ih
    exact Nat.le_of_lt (Nat.lt_of_le_of_lt (ih h) (beginValue_length found))
  | case4 =>
    cases h
    exact Nat.le_refl _
  | case5 => cases h
  | case6 =>
    rename_i found ih
    exact Nat.le_of_lt (Nat.lt_of_le_of_lt (ih h) (afterPart_length found))
  | case7 =>
    rename_i found ih
    exact Nat.le_of_lt (Nat.lt_of_le_of_lt (ih h) (afterPart_length found))

end TraceDisasm.Json
