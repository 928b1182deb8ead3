import Mathlib.Data.List.DropRight
import TraceDisasm.Proofs.JsonReading

/-!
# Values are skipped as the grammar has them

A value of the grammar is skipped to its end and no further (`skipValue_append`). This is done with a list of the brackets
that are open, so `Part.IsSkipped` says what it comes to for each part of a text, whatever brackets are open around it. It
holds of every text of the grammar by induction on the derivation, which follows the brackets as they are opened.
-/

namespace TraceDisasm.Json

theorem skipBlanks_skipBlanks (text : List Char) : skipBlanks (skipBlanks text) = skipBlanks text :=
  List.dropWhile_idempotent isBlank text

theorem skipIn_true (frames : List Frame) (text : List Char) :
    skipIn true frames text = match beginValue text with
      | .error fault => .error fault
      | .ok (.ended rest) => skipIn false frames rest
      | .ok (.due frame rest) => skipIn true (frame :: frames) rest := by
  rw [skipIn.eq_def, if_pos rfl]
  split <;> simp only [*]

theorem skipIn_false (frame : Frame) (outer : List Frame) (text : List Char) :
    skipIn false (frame :: outer) text = match afterPart frame text with
      | .error fault => .error fault
      | .ok (.ended rest) => skipIn false outer rest
      | .ok (.due frame rest) => skipIn true (frame :: outer) rest := by
  rw [skipIn.eq_def, if_neg Bool.false_ne_true]
  dsimp only
  split <;> simp only [*]

theorem skipIn_congr {start text : List Char} (h : skipBlanks start = skipBlanks text) (frames : List Frame) :
    skipIn true frames start = skipIn true frames text := by
  rw [skipIn_true, skipIn_true, beginValue, beginValue, h]

/-- What a part needs before its value. -/
def Frame.toValue : Frame → List Char → Except Fault (List Char)
  | list, text => .ok text
  | object, text => skipName text

section Brackets

variable {frame : Frame} {outer : List Frame} {rest : List Char}

theorem Frame.isBlank_closing (frame : Frame) : isBlank frame.closing = false := by
  cases frame <;> rfl

/-- Behind a part the bracket may close. -/
theorem skipIn_closing : skipIn false (frame :: outer) (frame.closing :: rest) = skipIn false outer rest := by
  rw [skipIn_false]
  cases frame <;> rfl

/-- Behind a part there may be a comma and another part. -/
theorem skipIn_comma {value : List Char} (h : frame.toValue rest = .ok value) :
    skipIn false (frame :: outer) (',' :: rest) = skipIn true (frame :: outer) value := by
  have hafter : afterPart frame (',' :: rest) = .ok (.due frame value) := by
    cases frame with
    | list =>
      cases h
      rfl
    | object =>
      have hname : skipName rest = .ok value := h
      simp [afterPart, skipBlanks_cons, isBlank, hname, Except.map]
  rw [skipIn_false, hafter]

theorem skipIn_space {blanks : List Char} (h : Space blanks) :
    skipIn false (frame :: outer) (blanks ++ rest) = skipIn false (frame :: outer) rest := by
  have hafter : afterPart frame (blanks ++ rest) = afterPart frame rest := by
    rw [afterPart.eq_def, afterPart.eq_def, skipBlanks_space h]
  rw [skipIn_false, skipIn_false, hafter]

theorem beginValue_opening : beginValue (frame.opening :: rest) = enter frame rest := by
  cases frame <;> rfl

theorem enter_closing {text : List Char} (h : skipBlanks text = frame.closing :: rest) :
    enter frame text = .ok (.ended rest) := by
  rw [enter.eq_def, h]
  cases frame <;> rfl

theorem enter_part {text tail value : List Char} {c : Char} (h : skipBlanks text = c :: tail)
    (hc : c ≠ frame.closing) (hvalue : frame.toValue (c :: tail) = .ok value) :
    enter frame text = .ok (.due frame value) := by
  cases frame with
  | list =>
    cases hvalue
    have hclosing : c ≠ ']' := hc
    simp [enter, h, hclosing]
  | object =>
    have hclosing : c ≠ '\x7d' := hc
    have hname : skipName (c :: tail) = .ok value := hvalue
    simp [enter, h, hclosing, hname, Except.map]

end Brackets

theorem beginValue_number {numeral : Numeral} {text rest : List Char} (h : NumberText numeral text)
    (hrest : Delimited rest) : beginValue (text ++ rest) = .ok (.ended rest) := by
  have hskip : skipNumber (text ++ rest) = .ok rest := by
    rw [skipNumber, Numeral.scan_append _ h hrest]
    rfl
  obtain ⟨c, tail, rfl, hc⟩ := h.exists_cons
  have hother : c ≠ '[' ∧ c ≠ '\x7b' ∧ c ≠ '"' := by
    refine ⟨?_, ?_, ?_⟩ <;> rintro rfl <;> exact absurd hc (by decide)
  rw [List.cons_append] at hskip ⊢
  rw [beginValue, skipBlanks_cons (isBlank_of_numberHead hc)]
  simp only [if_neg hother.1, if_neg hother.2.1, if_neg hother.2.2, if_pos hc, hskip]
  rfl

theorem beginValue_string {body : List Char} (h : AnyStringText body) (rest : List Char) :
    beginValue ('"' :: body ++ '"' :: rest) = .ok (.ended rest) := by
  rw [List.cons_append, beginValue, skipBlanks_cons rfl]
  simp [skipString_anyStringText h rest, Except.map]

theorem skipName_append {before name between : List Char} (hbefore : Space before) (hname : AnyStringText name)
    (hbetween : Space between) (rest : List Char) :
    skipName (before ++ ('"' :: name ++ '"' :: between ++ ':' :: rest)) = .ok rest := by
  have hstring := skipString_anyStringText hname (between ++ ':' :: rest)
  have hcolon : skipBlanks (between ++ ':' :: rest) = ':' :: rest := skipBlanks_space_cons hbetween rfl rest
  simp only [List.cons_append, List.append_assoc]
  rw [skipName, skipBlanks_space_cons hbefore rfl]
  simp [hstring, hcolon]

theorem skipName_congr {start text : List Char} (h : skipBlanks start = skipBlanks text) :
    skipName start = skipName text := by
  rw [skipName, skipName, h]

/-- Skipping comes behind this part of a text and no further, within any brackets. The first part in a bracket is looked at
when the white space before it is gone, so parts are told up to the white space at their beginning. -/
def Part.IsSkipped : Part → List Char → Prop
  | value, text => ∀ frames rest, Delimited rest → skipIn true frames (text ++ rest) = skipIn false frames rest
  | item frame, text => ∀ outer start rest, Delimited rest → skipBlanks start = skipBlanks (text ++ rest) →
      ∃ value, frame.toValue start = .ok value ∧
        skipIn true (frame :: outer) value = skipIn false (frame :: outer) rest
  | items frame, text => ∀ outer start rest, skipBlanks start = skipBlanks (text ++ frame.closing :: rest) →
      ∃ value, frame.toValue start = .ok value ∧ skipIn true (frame :: outer) value = skipIn false outer rest

/-- What a value may begin with. -/
theorem Derives.value_head {text : List Char} (h : Derives .value text) :
    ∃ c tail, text = c :: tail ∧ isBlank c = false ∧ c ≠ ']' := by
  cases h with
  | word hmem =>
    simp only [List.mem_cons, List.not_mem_nil, or_false] at hmem
    rcases hmem with rfl | rfl | rfl <;> exact ⟨_, _, rfl, by decide, by decide⟩
  | number hnumber =>
    obtain ⟨c, tail, rfl, hc⟩ := hnumber.exists_cons
    exact ⟨c, tail, rfl, isBlank_of_numberHead hc, by rintro rfl; revert hc; decide⟩
  | string => exact ⟨_, _, rfl, by decide, by decide⟩
  | empty frame => cases frame <;> exact ⟨_, _, rfl, by decide, by decide⟩
  | @filled frame => cases frame <;> exact ⟨_, _, rfl, by decide, by decide⟩

theorem Derives.item_head {frame : Frame} {text : List Char} (h : Derives (.item frame) text) (rest : List Char) :
    ∃ c tail, skipBlanks (text ++ rest) = c :: tail ∧ c ≠ frame.closing := by
  cases h with
  | element hbefore hvalue =>
    obtain ⟨c, tail, rfl, hc, hclosing⟩ := hvalue.value_head
    rw [List.append_assoc, skipBlanks_space hbefore]
    exact ⟨c, _, skipBlanks_cons hc _, hclosing⟩
  | member hbefore =>
    rw [List.append_assoc, skipBlanks_space hbefore]
    exact ⟨'"', _, skipBlanks_cons rfl _, by decide⟩

theorem Derives.items_head {frame : Frame} {text : List Char} (h : Derives (.items frame) text) (rest : List Char) :
    ∃ c tail, skipBlanks (text ++ rest) = c :: tail ∧ c ≠ frame.closing := by
  cases h with
  | last hitem => exact hitem.item_head rest
  | next hitem =>
    rw [List.append_assoc]
    exact hitem.item_head _

/-- Every text of the grammar is skipped as a whole. -/
theorem Derives.isSkipped {part : Part} {text : List Char} (h : Derives part text) : part.IsSkipped text := by
  induction h with
  | word hmem =>
    intro frames rest _
    simp only [List.mem_cons, List.not_mem_nil, or_false] at hmem
    rw [skipIn_true]
    rcases hmem with rfl | rfl | rfl <;> rfl
  | number hnumber =>
    intro frames rest hrest
    rw [skipIn_true, beginValue_number hnumber hrest]
  | string hbody =>
    intro frames rest _
    rw [List.append_assoc, List.singleton_append, skipIn_true, beginValue_string hbody rest]
  | empty frame hblanks =>
    intro frames rest _
    have henter := enter_closing (skipBlanks_space_cons hblanks frame.isBlank_closing rest)
    rw [List.append_assoc, List.singleton_append, List.cons_append, skipIn_true, beginValue_opening, henter]
  | @filled frame items hitems ih =>
    intro frames rest _
    -- The bracket does not close at once.
    obtain ⟨c, tail, hhead, hc⟩ := hitems.items_head (frame.closing :: rest)
    obtain ⟨value, hvalue, hskip⟩ := ih frames (c :: tail) rest (by rw [← hhead, skipBlanks_skipBlanks])
    rw [List.append_assoc, List.singleton_append, List.cons_append, skipIn_true, beginValue_opening,
      enter_part hhead hc hvalue]
    exact hskip
  | element hbefore _ hbehind ih =>
    intro outer start rest hrest hstart
    refine ⟨start, rfl, ?_⟩
    rw [List.append_assoc, List.append_assoc, skipBlanks_space hbefore] at hstart
    rw [skipIn_congr hstart, ih _ _ (hrest.space_append hbehind), skipIn_space hbehind]
  | @member before name between gap value behind hbefore hname hbetween hgap _ hbehind ih =>
    intro outer start rest hrest hstart
    refine ⟨gap ++ (value ++ (behind ++ rest)), ?_, ?_⟩
    · rw [Frame.toValue, skipName_congr hstart]
      simpa using skipName_append hbefore hname hbetween (gap ++ (value ++ (behind ++ rest)))
    · rw [skipIn_congr (skipBlanks_space hgap _), ih _ _ (hrest.space_append hbehind), skipIn_space hbehind]
  | @last frame item _ ih =>
    intro outer start rest hstart
    have hdelimited : Delimited (frame.closing :: rest) := .cons (by cases frame <;> decide) rest
    obtain ⟨value, hvalue, hskip⟩ := ih outer start _ hdelimited hstart
    exact ⟨value, hvalue, by rw [hskip, skipIn_closing]⟩
  | @next frame item items _ _ ihitem ihitems =>
    intro outer start rest hstart
    rw [List.append_assoc, List.cons_append] at hstart
    obtain ⟨value, hvalue, hskip⟩ := ihitem outer start _ (.cons (by decide) _) hstart
    -- Behind the comma the next part is looked for in the text as it is.
    obtain ⟨more, hmore, hskipMore⟩ := ihitems outer _ rest rfl
    exact ⟨value, hvalue, by rw [hskip, skipIn_comma hmore, hskipMore]⟩

theorem skipValue_append {value rest : List Char} (h : Derives .value value) (hrest : Delimited rest) :
    skipValue (value ++ rest) = .ok rest := by
  rw [skipValue, h.isSkipped [] rest hrest, skipIn.eq_def]
  rfl

end TraceDisasm.Json
