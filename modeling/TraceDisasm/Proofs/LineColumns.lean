import TraceDisasm.Proofs.DataRuns
import TraceDisasm.Proofs.JumpPage
import TraceDisasm.Proofs.ListingReader

/-!
# The columns of a listing

With the standard limits every entry of a line fits its column: no row has more than ten bytes, for no instruction takes
more than four (`Instruction.length_decode_le`), and a label of the usual stem has at most ten characters. Nor is anything
cut off at the end of a line, since every operand ends in a character that can be seen (`Operand.ends_text`). So all lines
have their columns at the same places (`View.columns_aligned`).
-/

namespace TraceDisasm

/-! ## The end of a line -/

namespace Text

/-- The last character of a text is not blank. -/
def Ends (text : List Char) : Prop := ∃ front c, text = front ++ [c] ∧ isBlank c = false

variable {text front : List Char}

theorem ends_append_singleton (front : List Char) {c : Char} (h : isBlank c = false) : Ends (front ++ [c]) :=
  ⟨front, c, rfl, h⟩

theorem ends_of_isAlphanum (hne : text ≠ []) (h : text.all Char.isAlphanum = true) : Ends text := by
  refine ⟨text.dropLast, text.getLast hne, (List.dropLast_append_getLast hne).symm, ?_⟩
  exact isBlank_of_isAlphanum (List.all_eq_true.1 h _ (List.getLast_mem hne))

theorem Ends.append (h : Ends text) (front : List Char) : Ends (front ++ text) := by
  obtain ⟨middle, c, rfl, hc⟩ := h
  exact ⟨front ++ middle, c, (List.append_assoc ..).symm, hc⟩

theorem Ends.trimRight (h : Ends text) : trimRight text = text := by
  obtain ⟨front, c, rfl, hc⟩ := h
  rw [trimRight_append hc, Text.trimRight, List.reverse_singleton, List.dropWhile_cons_of_neg (by simp [hc])]
  rfl

theorem ends_intercalate {separator : List Char} {texts : List (List Char)} (hne : texts ≠ [])
    (h : ∀ text ∈ texts, Ends text) : Ends (separator.intercalate texts) := by
  induction texts with
  | nil => exact absurd rfl hne
  | cons first texts ih =>
    obtain ⟨hfirst, hrest⟩ := List.forall_mem_cons.1 h
    rcases eq_or_ne texts [] with rfl | hmore
    · rwa [List.intercalate_singleton]
    · rw [List.intercalate_cons_of_ne_nil hmore]
      exact (ih hmore hrest).append _

end Text

open Text (Ends)

/-! ## The end of a row -/

theorem Operand.ends_byteText (value : UInt8) : Ends (byteText value).toList := by
  rw [byteText, String.toList_append]
  exact Text.ends_append_singleton _ (by decide)

theorem Operand.ends_wordText (value : UInt16) : Ends (wordText value).toList := by
  rw [wordText, String.toList_append]
  exact Text.ends_append_singleton _ (by decide)

theorem Operand.ends_text {operand : Operand} (h : ∀ name ∈ operand.names, Ends name.toList) :
    Ends operand.text.toList := by
  have hbracket (front : String) : Ends (front ++ "]").toList := by
    rw [String.toList_append]
    exact Text.ends_append_singleton _ (by decide)
  cases operand with
  | condition c => cases c <;> exact Text.ends_of_isAlphanum (by decide) (by decide)
  | register name => exact h name List.mem_cons_self
  | indirect | displaced | absolute | brPage | vector => exact hbracket _
  | indexedByL name =>
    rw [text, String.toList_append]
    exact Text.Ends.append ⟨['+', 'L'], ']', rfl, by decide⟩ _
  | immediate8 value =>
    rw [text, String.toList_append]
    exact (ends_byteText value).append _
  | immediate16 value =>
    rw [text, String.toList_append]
    exact (ends_wordText value).append _
  | byte value => exact ends_byteText value
  | target address label =>
    cases label with
    | none =>
      rw [text, String.toList_append]
      exact Text.ends_append_singleton _ (by decide)
    | some label => exact h label List.mem_cons_self
  | word value label =>
    cases label with
    | none => exact ends_wordText value
    | some label => exact h label List.mem_cons_self

/-- Labels with the usual stem end in a digit. -/
theorem Symbols.ends_of_lookup {symbols : Symbols} (hstem : symbols.stem = defaultStem) {address : UInt32}
    {label : String} (h : symbols.lookup address = some label) : Ends label.toList := by
  obtain ⟨-, rfl⟩ := lookup_eq_some_iff.1 h
  have hdigits : Hex.atLeast .lower 1 address ≠ [] := fun hnil => by
    have hlength := Hex.le_length_atLeast .lower (by decide : 1 ≤ 8) address
    rw [hnil] at hlength
    exact absurd hlength (by decide)
  rw [name, hstem, String.toList_append, String.toList_ofList]
  exact (Text.ends_of_isAlphanum hdigits (Hex.all_isAlphanum_atLeast _ _ _)).append _

namespace Row.Spelled

variable {row : Row} {symbols : Symbols}

/-- Nothing of a row is cut off at the end of its line. -/
theorem ends_text (h : row.Spelled symbols) (hstem : symbols.stem = defaultStem) : Ends row.text.toList := by
  rcases eq_or_ne row.operands [] with hnil | hne
  · rw [text_of_nil hnil]
    exact Text.ends_of_isAlphanum h.mnemonic_word.1 h.mnemonic_word.2
  · rw [text_of_ne_nil hne, ← List.singleton_append, ← List.append_assoc]
    refine (Text.ends_intercalate (by simpa using hne) fun text htext => ?_).append _
    obtain ⟨operand, hmem, rfl⟩ := List.mem_map.1 htext
    refine Operand.ends_text fun name hname => ?_
    obtain ⟨r, rfl⟩ | ⟨address, hlabel⟩ := h.names operand hmem name hname
    · cases r <;> exact Text.ends_of_isAlphanum (by decide) (by decide)
    · exact Symbols.ends_of_lookup hstem hlabel

end Row.Spelled

/-! ## The bytes of a row -/

namespace Opcode

variable {bytes : List UInt8} {size : Nat} {operation : Operation}

/-- No instruction has more than four bytes. -/
theorem all_short : ∀ entry ∈ all, entry.1.length + entry.2.operandSize ≤ 4 := by
  decide +kernel

theorem size_le_length (h : lookup bytes = some (size, operation)) : size ≤ bytes.length := by
  obtain ⟨size', operation', hfound, hle, -⟩ | ⟨hnone, -⟩ := (Cursor.ofBytes 0 bytes).operation_cases
  · obtain ⟨rfl, -⟩ := Prod.mk.inj (Option.some.inj (hfound.symm.trans h))
    exact hle
  · cases hnone.symm.trans h

theorem size_add_operandSize_le (h : lookup bytes = some (size, operation)) : size + operation.operandSize ≤ 4 := by
  have hshort := all_short _ (mem_all_of_lookup h)
  rwa [List.length_take_of_le (size_le_length h)] at hshort

theorem DeadEnd.le_two {length : Nat} (h : DeadEnd bytes length) : length ≤ 2 := by
  cases h <;> decide

/-- Without an operation, the bytes lead to a dead end, or there is one at most. -/
theorem length_le_one (h : lookup bytes = none) (hnone : ∀ length, ¬ DeadEnd bytes length) : bytes.length ≤ 1 := by
  match bytes with
  | [] => exact Nat.zero_le 1
  | [_] => exact Nat.le_refl 1
  | first :: second :: rest =>
    cases hslot : Slot.ofByte first with
    | undefined => exact absurd (.first hslot) (hnone 1)
    | operation found => simp [lookup, hslot] at h
    | extension extension =>
      refine absurd (.second hslot ?_) (hnone 2)
      simpa [lookup, hslot] using h

end Opcode

namespace Instruction

/-- An instruction takes at most four bytes, and so does what is cut off or undefined. -/
theorem length_decode_le (symbols : Symbols) (jumpPage : UInt32) (cursor : Cursor) :
    (decode symbols jumpPage cursor).row.length ≤ 4 := by
  obtain ⟨size, operation, hlookup, hbytes⟩ | hcut := cursor.complete_or_cut
  · obtain ⟨operands, -, hdecode⟩ := decode_of_complete symbols jumpPage hlookup hbytes
    rw [hdecode, Row.length, ofOperation, List.length_take_of_le hbytes]
    exact Opcode.size_add_operandSize_le hlookup
  · obtain ⟨length, hdecode, hlength⟩ := decode_of_incomplete symbols jumpPage hcut
    have hle : (decode symbols jumpPage cursor).row.length ≤ length := by
      rw [hdecode, Row.length, illegal, Cursor.bytesTo_skip, List.length_take]
      exact Nat.min_le_left _ _
    refine hle.trans ?_
    rcases hlength with hdead | ⟨rfl, hnone⟩
    · exact hdead.le_two.trans (by decide)
    · cases hlookup : Opcode.lookup cursor.rest with
      | none => exact (Opcode.length_le_one hlookup hnone).trans (by decide)
      | some found =>
        have hlt := hcut found.1 found.2 hlookup
        have hshort := Opcode.size_add_operandSize_le hlookup
        omega

end Instruction

namespace View

variable {view : View} {symbols : Symbols} {config : Config} {row : Row}

/-- The length of a row is bounded by that of instructions, or by a limit. -/
theorem length_le_of_mem_rows (h : row ∈ view.rows symbols config) :
    row.length ≤ max 4 (max (2 * max 1 config.maxWords) (max 1 config.maxBytes)) := by
  obtain ⟨index, walk, hat, hrest, rfl⟩ := View.exists_walk_of_mem h
  rcases walk.at_cases hrest with hcode | hwords | hbytes
  · have hlength : (walk.step symbols config).1.length = (Instruction.decode symbols walk.jumpPage walk.cursor).row.length := by
      rw [Walk.step, hcode.bareRow]
      rfl
    rw [hlength]
    exact (Instruction.length_decode_le _ _ _).trans (Nat.le_max_left _ _)
  · obtain ⟨words, hrow⟩ : ∃ words, view.WordsRow symbols config index (walk.step symbols config).1 words :=
      wordsRow_of_isAt hat hwords
    have hlimit := hrow.limit
    have hlength : (walk.step symbols config).1.length = 2 * words.length := by
      rw [Row.length, hrow.raw]
      simp [Cursor.bytesOf, Nat.mul_comm]
    omega
  · have hrow : view.BytesRow symbols config index (walk.step symbols config).1 := bytesRow_of_isAt hat hbytes
    have hlimit := hrow.limit
    omega

end View

/-! ## The columns -/

namespace Hex

/-- The digit of a value below sixteen, out of all digits in their order. -/
def capital (value : Nat) : Char :=
  ['0', '1', '2', '3', '4', '5', '6', '7', '8', '9', 'A', 'B', 'C', 'D', 'E', 'F'].getD value ' '

theorem digit_upper {value : Nat} (h : value < 16) : digit .upper value = capital value := by
  have hall : ∀ v : Fin 16, digit .upper v = capital v := by decide
  exact hall ⟨value, h⟩

/-- The digits of a field are those of its places, the highest first. -/
theorem fixed_upper (width n : Nat) :
    fixed .upper width n = (List.range width).reverse.map fun place => capital (n / 16 ^ place % 16) := by
  induction width with
  | zero => rfl
  | succ width ih =>
    rw [fixed_succ, ih, List.range_succ, List.reverse_append, List.reverse_singleton, List.singleton_append, List.map_cons,
      digit_upper (Nat.mod_lt _ (by decide))]

theorem fixed_upper_byte (byte : UInt8) :
    fixed .upper 2 byte.toNat = [capital (byte.toNat / 16), capital (byte.toNat % 16)] := by
  have hhigh : byte.toNat / 16 % 16 = byte.toNat / 16 := Nat.mod_eq_of_lt (by have := byte.toNat_lt; omega)
  rw [fixed_upper]
  simp [List.range_succ, hhigh]

end Hex

/-- A label of the physical space has at most ten characters. -/
theorem Symbols.length_label_le {symbols : Symbols} (hstem : symbols.stem = defaultStem) {address : UInt32}
    (haddress : address.toNat < 2 ^ 24) {label : String} (h : symbols.lookup address = some label) :
    label.toList.length ≤ 10 := by
  obtain ⟨-, rfl⟩ := lookup_eq_some_iff.1 h
  have hdigits : (Hex.atLeast .lower 1 address).length ≤ (Hex.fixed .lower 6 address.toNat).length := by
    rw [Hex.atLeast, Hex.fixed_eight .lower haddress]
    exact (Hex.dropZeros_suffix 5 _).length_le
  rw [Hex.length_fixed] at hdigits
  rw [name, hstem, String.toList_append, String.toList_ofList, List.length_append]
  have hstemLength : defaultStem.toList.length = 4 := by decide
  omega

namespace Row

variable {row : Row} {symbols : Symbols}

theorem rawText_toList (row : Row) : row.rawText.toList =
    [' '].intercalate (row.raw.map fun byte => [Hex.capital (byte.toNat / 16), Hex.capital (byte.toNat % 16)]) := by
  rw [rawText, String.toList_intercalate, List.map_map]
  refine congrArg _ (List.map_congr_left fun byte _ => ?_)
  rw [Function.comp_apply, String.toList_ofList, Hex.fixed_upper_byte]

theorem labelText_toList (row : Row) : row.labelText.toList = row.label.elim [] fun name => name.toList ++ [':'] := by
  rw [labelText]
  cases row.label with
  | none => rfl
  | some name => rw [String.toList_append]; rfl

theorem length_rawText (row : Row) : row.rawText.toList.length = 3 * row.length - 1 := by
  rcases eq_or_ne row.raw [] with hnil | hne
  · rw [rawText, length, hnil]
    rfl
  · have hspaced := congrArg List.length (rawText_append hne)
    rw [List.length_append, spaced, List.length_flatMap] at hspaced
    simp at hspaced
    rw [length]
    omega

theorem length_labelText_le (hstem : symbols.stem = defaultStem) (haddress : row.address.toNat < 2 ^ 24)
    (hlabel : row.label = symbols.lookup row.address) : row.labelText.toList.length ≤ 11 := by
  rw [labelText]
  split
  · next label hsome =>
    have hlength := Symbols.length_label_le hstem haddress (hlabel.symm.trans hsome)
    rw [String.toList_append, List.length_append]
    exact Nat.add_le_add_right hlength 1
  · decide

end Row

namespace View

/-- **The lines of a standard listing have their columns at the same places.** Each begins with the six digits of its
address and shows its bytes, two digits each, and its label with a colon, if there is one. These two columns are filled up to
exactly 29 and 12 characters. The text of the row begins behind them, at character 51, and nothing of it is cut off. -/
theorem columns_aligned (view : View) (symbols : Symbols) (row : Row) (hstem : symbols.stem = defaultStem)
    (hbound : view.start.toNat + view.bytes.length ≤ 2 ^ 24) (hmem : row ∈ view.rows symbols Config.standard) :
    ∃ digits bytes label : List Char,
      digits = [5, 4, 3, 2, 1, 0].map (fun place => Hex.capital (row.address.toNat / 16 ^ place % 16)) ∧
      row.address.toNat < 16 ^ 6 ∧
      bytes = [' '].intercalate
        (row.raw.map fun byte => [Hex.capital (byte.toNat / 16), Hex.capital (byte.toNat % 16)]) ∧
      bytes.length ≤ 29 ∧
      label = (symbols.lookup row.address).elim [] (fun name => name.toList ++ [':']) ∧
      label.length ≤ 12 ∧
      row.line.toList = digits ++ [' ', ' '] ++ bytes ++ List.replicate (29 - bytes.length) ' ' ++ [' '] ++
        label ++ List.replicate (12 - label.length) ' ' ++ [' '] ++ row.text.toList ∧
      row.line.toList.drop 51 = row.text.toList ∧
      row.mnemonic.toList <+: row.line.toList.drop 51 := by
  obtain ⟨spelled, hlabel⟩ := mem_rows_spelled hmem
  obtain ⟨-, hlt, hle⟩ := (view.rows_covers symbols Config.standard).bounds (by omega) row hmem
  have haddress : row.address.toNat < 2 ^ 24 := by omega
  have hbytes : row.rawText.toList.length ≤ 29 := by
    have hlength : row.length ≤ 10 := length_le_of_mem_rows hmem
    rw [Row.length_rawText]
    omega
  have hcolumn : row.labelText.toList.length ≤ 12 :=
    (Row.length_labelText_le hstem haddress hlabel).trans (by decide)
  have hline : row.line.toList = Hex.fixed .upper 6 row.address.toNat ++ [' ', ' '] ++ row.rawText.toList ++
      List.replicate (29 - row.rawText.toList.length) ' ' ++ [' '] ++ row.labelText.toList ++
      List.replicate (12 - row.labelText.toList.length) ' ' ++ [' '] ++ row.text.toList := by
    rw [Row.line, String.toList_ofList, Row.columns, ((spelled.ends_text hstem).append _).trimRight,
      Hex.atLeast_six .upper haddress]
    simp only [Text.padRight, Row.rawWidth, Row.labelWidth, List.append_assoc]
  have hdrop : row.line.toList.drop 51 = row.text.toList := by
    rw [hline]
    refine List.drop_left' ?_
    simp only [List.length_append, Hex.length_fixed, List.length_replicate, List.length_cons, List.length_nil]
    omega
  refine ⟨_, _, _, Hex.fixed_upper 6 row.address.toNat, haddress, row.rawText_toList, hbytes, ?_, hcolumn, hline, hdrop, ?_⟩
  · rw [row.labelText_toList, hlabel]
  · rw [hdrop]
    exact row.mnemonic_begins_text

/-- Ten bytes at the end of the addresses that have six digits. -/
def lastView : View := ⟨0xFFFFF6, [0, 1, 2, 3, 4, 5, 6, 7, 8, 9], []⟩

/-- A label at their start. -/
def lastLabel : Symbols := (Symbols.empty defaultStem).insert 0xFFFFF6

/-- The row that shows them. Its bytes fill their column. -/
def lastRow : Row := ⟨0xFFFFF6, .bytes, Row.bytesMnemonic, lastView.bytes.map .byte, lastView.bytes, some "loc_fffff6"⟩

theorem columns_aligned_lastRow :
    lastLabel.stem = defaultStem ∧ lastView.start.toNat + lastView.bytes.length ≤ 2 ^ 24 ∧
      lastRow ∈ lastView.rows lastLabel Config.standard ∧
      lastRow.line.toList = "FFFFF6  00 01 02 03 04 05 06 07 08 09 loc_fffff6:  ".toList ++ lastRow.text.toList ∧
      lastRow.line.toList.drop 51 = lastRow.text.toList ∧ "DB".toList <+: lastRow.line.toList.drop 51 := by
  have hrows : lastView.rows lastLabel Config.standard = [lastRow] := by decide +kernel
  have hmem : lastRow ∈ lastView.rows lastLabel Config.standard := by
    rw [hrows]
    exact List.mem_singleton_self lastRow
  have hbound : lastView.start.toNat + lastView.bytes.length ≤ 2 ^ 24 := by decide
  obtain ⟨digits, bytes, label, rfl, -, rfl, -, rfl, -, hline, hdrop, hmnemonic⟩ :=
    columns_aligned lastView lastLabel lastRow rfl hbound hmem
  exact ⟨rfl, hbound, hmem, hline, hdrop, hmnemonic⟩

end View

end TraceDisasm
