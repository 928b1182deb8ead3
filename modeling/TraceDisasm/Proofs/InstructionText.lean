import TraceDisasm.Proofs.JumpPage
import TraceDisasm.Proofs.ListingReader

/-!
# Reading an instruction back

The text of an instruction tells what it is. Each kind of operand has a shape of its own: a sign in front says where to
look, and for numbers the count of digits says the rest, since an 8-bit number has three of them, a 16-bit number five and
a branch target at least six. Only registers and conditions have bare names, and no condition is named like a register. So
an operand without a label is read back from its text (`Operand.read?_text`). It holds no space and no comma, hence neither
does the list of operands hide where one of them ends (`Row.readText_text`).
-/

namespace TraceDisasm

/-! ## Operands -/

namespace Operand

/-- The operand carries no label, and the names in it are those of registers. -/
def Plain : Operand → Prop
  | register name | indirect name | indexedByL name | displaced name _ => ∃ r : Register, name = r.name
  | target _ label | word _ label => label = none
  | _ => True

/-- Reads hexadecimal digits up to the `h` behind them. Gives how many there are and their number. -/
def readDigits (text : List Char) : Option (Nat × Nat) :=
  (Hex.number? text.dropLast).map fun number => (text.dropLast.length, number)

/-- Reads what stands between brackets. -/
def readPlace (text : List Char) : Option Operand :=
  let name := String.ofList (text.takeWhile Char.isAlpha)
  match text.dropWhile Char.isAlpha with
  | [] => some (.indirect name)
  | ['+', 'L'] => some (.indexedByL name)
  | '+' :: digits => some (.displaced name (.ofInt (Nat.ofDigitChars 10 digits 0)))
  | '-' :: digits => some (.displaced name (.ofInt (-Nat.ofDigitChars 10 digits 0)))
  | ':' :: digits => (readDigits digits).map fun (_, number) => .brPage (.ofNat number)
  | digits => (readDigits digits).map fun (count, number) =>
      if count = 3 then .vector (.ofNat number) else .absolute (.ofNat number)

/-- Reads the name of a condition or else of a register. -/
def readName (name : String) : Operand :=
  match Condition.all.find? fun c => c.name = name with
  | some c => .condition c
  | none => .register name

/-- Reads an operand. -/
def read? : List Char → Option Operand
  | '[' :: text => readPlace text.dropLast
  | '#' :: text => (readDigits text).map fun (count, number) =>
      if count = 3 then .immediate8 (.ofNat number)
      else if count = 5 then .immediate16 (.ofNat number)
      else .target (.ofNat number) none
  | '0' :: text => (readDigits ('0' :: text)).map fun (count, number) =>
      if count = 3 then .byte (.ofNat number) else .word (.ofNat number) none
  | name => some (readName (String.ofList name))

theorem readDigits_byteText (value : UInt8) : readDigits (byteText value).toList = some (3, value.toNat) := by
  have hvalue : value.toNat % 16 ^ 2 = value.toNat := Nat.mod_eq_of_lt value.toNat_lt
  have htext : (byteText value).toList = ('0' :: Hex.fixed .upper 2 value.toNat) ++ ['h'] := by
    simp [byteText]
  rw [htext, readDigits, List.dropLast_concat, Hex.number?_zero_cons, Hex.number?_fixed, hvalue]
  simp

theorem readDigits_wordText (value : UInt16) : readDigits (wordText value).toList = some (5, value.toNat) := by
  have hvalue : value.toNat % 16 ^ 4 = value.toNat := Nat.mod_eq_of_lt value.toNat_lt
  have htext : (wordText value).toList = ('0' :: Hex.fixed .upper 4 value.toNat) ++ ['h'] := by
    simp [wordText]
  rw [htext, readDigits, List.dropLast_concat, Hex.number?_zero_cons, Hex.number?_fixed, hvalue]
  simp

/-- An address has more digits than any other number. -/
theorem readDigits_atLeast (address : UInt32) :
    ∃ count, 6 ≤ count ∧ readDigits (Hex.atLeast .upper 6 address ++ ['h']) = some (count, address.toNat) := by
  refine ⟨_, Hex.le_length_atLeast .upper (by decide) address, ?_⟩
  rw [readDigits, List.dropLast_concat, Hex.number?_atLeast]
  rfl

/-- Between brackets, the name goes up to the first sign. -/
theorem span_registerName (r : Register) (rest : List Char) (h : ∀ c ∈ rest.head?, c.isAlpha = false) :
    (r.name.toList ++ rest).takeWhile Char.isAlpha = r.name.toList ∧
      (r.name.toList ++ rest).dropWhile Char.isAlpha = rest := by
  have hname : r.name.toList.all Char.isAlpha = true := by cases r <;> decide
  exact Text.span_append (List.all_eq_true.1 hname) rest h

theorem readPlace_registerName (r : Register) : readPlace r.name.toList = some (.indirect r.name) := by
  have h := span_registerName r [] nofun
  rw [List.append_nil] at h
  rw [readPlace, h.1, h.2, String.ofList_toList]

theorem readPlace_indexedByL (r : Register) : readPlace (r.name.toList ++ ['+', 'L']) = some (.indexedByL r.name) := by
  have h := span_registerName r ['+', 'L'] fun c hc => by obtain rfl := Option.some.inj hc; decide
  rw [readPlace, h.1, h.2, String.ofList_toList]
  rfl

theorem readPlace_displaced (r : Register) (distance : Int8) :
    readPlace (r.name.toList ++ (signedText distance).toList) = some (.displaced r.name distance) := by
  have hvalue : Nat.ofDigitChars 10 (Nat.toDigits 10 distance.toInt.natAbs) 0 = distance.toInt.natAbs :=
    Nat.ofDigitChars_ten_toDigits
  have hdigit : Nat.toDigits 10 distance.toInt.natAbs ≠ ['L'] := fun h =>
    absurd (Nat.isDigit_of_mem_toDigits (by decide) (by decide) (h ▸ List.mem_singleton_self 'L')) (by decide)
  by_cases hneg : distance.toInt < 0
  · have htext : (signedText distance).toList = '-' :: Nat.toDigits 10 distance.toInt.natAbs := by
      simp [signedText, hneg, Nat.toList_repr]
    have h := span_registerName r ('-' :: Nat.toDigits 10 distance.toInt.natAbs)
      fun c hc => by obtain rfl := Option.some.inj hc; decide
    have hsign : -(distance.toInt.natAbs : Int) = distance.toInt := by omega
    rw [htext, readPlace, h.1, h.2, String.ofList_toList]
    simp only [hvalue, hsign, Int8.ofInt_toInt]
  · have htext : (signedText distance).toList = '+' :: Nat.toDigits 10 distance.toInt.natAbs := by
      simp [signedText, hneg, Nat.toList_repr]
    have h := span_registerName r ('+' :: Nat.toDigits 10 distance.toInt.natAbs)
      fun c hc => by obtain rfl := Option.some.inj hc; decide
    have hsign : (distance.toInt.natAbs : Int) = distance.toInt := by omega
    rw [htext, readPlace, h.1, h.2, String.ofList_toList]
    simp only [hvalue, hsign, Int8.ofInt_toInt]

theorem readPlace_brPage (offset : UInt8) :
    readPlace ('B' :: 'R' :: ':' :: (byteText offset).toList) = some (.brPage offset) := by
  have h := span_registerName .br (':' :: (byteText offset).toList)
    fun c hc => by obtain rfl := Option.some.inj hc; decide
  have htext : 'B' :: 'R' :: ':' :: (byteText offset).toList = Register.br.name.toList ++ ':' :: (byteText offset).toList := rfl
  rw [htext, readPlace, h.1, h.2]
  simp only [readDigits_byteText, Option.map_some, UInt8.ofNat_toNat]

/-- A name ends before the zero that a number begins with. -/
theorem readPlace_number {text : List Char} (h : text.head? = some '0') :
    readPlace text = (readDigits text).map fun (count, number) =>
      if count = 3 then .vector (.ofNat number) else .absolute (.ofNat number) := by
  obtain ⟨rest, rfl⟩ : ∃ rest, text = '0' :: rest := List.head?_eq_some_iff.1 h
  rfl

theorem head?_byteText (value : UInt8) : (byteText value).toList.head? = some '0' := by
  simp [byteText]

theorem head?_wordText (value : UInt16) : (wordText value).toList.head? = some '0' := by
  simp [wordText]

theorem read?_conditionName (c : Condition) : read? c.name.toList = some (.condition c) := by
  cases c <;> decide

theorem read?_registerName (r : Register) : read? r.name.toList = some (.register r.name) := by
  cases r <;> decide

/-- An operand without a label is read back from its text. -/
theorem read?_text {operand : Operand} (h : operand.Plain) : read? operand.text.toList = some operand := by
  cases operand with
  | condition c => exact read?_conditionName c
  | register name =>
    obtain ⟨r, rfl⟩ := h
    exact read?_registerName r
  | indirect name =>
    obtain ⟨r, rfl⟩ := h
    simp [text, read?, readPlace_registerName]
  | indexedByL name =>
    obtain ⟨r, rfl⟩ := h
    simp [text, read?, readPlace_indexedByL]
  | displaced name distance =>
    obtain ⟨r, rfl⟩ := h
    simp [text, read?, readPlace_displaced]
  | absolute address => simp [text, read?, readPlace_number, head?_wordText, readDigits_wordText]
  | brPage offset =>
    have htext : (brPage offset).text.toList = '[' :: ('B' :: 'R' :: ':' :: (byteText offset).toList ++ [']']) := by
      simp [text]
    rw [htext, read?, List.dropLast_concat, readPlace_brPage]
  | vector entry => simp [text, read?, readPlace_number, head?_byteText, readDigits_byteText]
  | immediate8 value => simp [text, read?, readDigits_byteText]
  | immediate16 value => simp [text, read?, readDigits_wordText]
  | target address label =>
    obtain rfl : label = none := h
    obtain ⟨count, hcount, hread⟩ := readDigits_atLeast address
    have h3 : count ≠ 3 := by omega
    have h5 : count ≠ 5 := by omega
    simp [text, read?, hread, h3, h5]
  | word value label =>
    obtain rfl : label = none := h
    obtain ⟨rest, htext⟩ := List.head?_eq_some_iff.1 (head?_wordText value)
    rw [text, htext, read?, ← htext, readDigits_wordText]
    simp
  | byte value =>
    obtain ⟨rest, htext⟩ := List.head?_eq_some_iff.1 (head?_byteText value)
    rw [text, htext, read?, ← htext, readDigits_byteText]
    simp

/-- The characters that hold the operands of a row apart do not occur in them. -/
theorem Plain.all_text {operand : Operand} (h : operand.Plain) :
    operand.text.toList.all (fun c => c != ' ' && c != ',') = true := by
  refine Operand.all_text (fun c hc => ?_) fun name hname => ?_
  · rw [Bool.and_eq_true, bne_iff_ne, bne_iff_ne]
    constructor <;> rintro rfl <;> exact absurd hc (by decide)
  · obtain ⟨r, rfl⟩ : ∃ r : Register, name = r.name := by
      cases operand with
      | register _ | indirect _ | indexedByL _ | displaced _ _ => exact List.mem_singleton.1 hname ▸ h
      | target _ label | word _ label =>
        obtain rfl : label = none := h
        cases hname
      | _ => cases hname
    cases r <;> decide

end Operand

/-! ## Rows -/

/-- Spaces only stand behind commas. -/
theorem Text.filter_intercalate {texts : List (List Char)}
    (h : ∀ text ∈ texts, text.all (fun c => c != ' ' && c != ',') = true) :
    ([',', ' '].intercalate texts).filter (· != ' ') = [','].intercalate texts := by
  have hself {text : List Char} (htext : text.all (fun c => c != ' ' && c != ',') = true) :
      text.filter (· != ' ') = text :=
    List.filter_eq_self.2 fun c hc => (Bool.and_eq_true_iff.1 (List.all_eq_true.1 htext c hc)).1
  induction texts with
  | nil => rfl
  | cons first texts ih =>
    obtain ⟨hfirst, hrest⟩ := List.forall_mem_cons.1 h
    rcases eq_or_ne texts [] with rfl | hne
    · rw [List.intercalate_singleton, List.intercalate_singleton, hself hfirst]
    · rw [List.intercalate_cons_of_ne_nil hne, List.intercalate_cons_of_ne_nil hne, List.filter_append, List.filter_append,
        hself hfirst, ih hrest]
      rfl

namespace Row

/-- Reads the mnemonic and the operands off the text of a row. -/
def readText (text : List Char) : String × List (Option Operand) :=
  let operands := match text.dropWhile (· != ' ') with
    | [] => []
    | _ :: operands => ((operands.filter (· != ' ')).splitOn ',').map Operand.read?
  (String.ofList (text.takeWhile (· != ' ')), operands)

/-- A row with plain operands is read back from its text. -/
theorem readText_text {row : Row} (hmnemonic : row.mnemonic.toList.all Char.isAlphanum = true)
    (hplain : ∀ operand ∈ row.operands, operand.Plain) :
    readText row.text.toList = (row.mnemonic, row.operands.map some) := by
  have hword : ∀ c ∈ row.mnemonic.toList, (c != ' ') = true := fun c hc => bne_iff_ne.2 fun hspace =>
    absurd (List.all_eq_true.1 hmnemonic c hc) (hspace ▸ by decide)
  rcases eq_or_ne row.operands [] with hnil | hne
  · obtain ⟨hfront, hrest⟩ := Text.span_append hword [] nofun
    rw [List.append_nil] at hfront hrest
    rw [text_of_nil hnil, readText, hfront, hrest, hnil, String.ofList_toList]
    rfl
  · have hmarks : ∀ text ∈ row.operands.map fun operand => operand.text.toList,
        text.all (fun c => c != ' ' && c != ',') = true := by
      simpa using fun operand hmem => (hplain operand hmem).all_text
    have hcommas : ∀ text ∈ row.operands.map fun operand => operand.text.toList, ',' ∉ text := fun text hmem hcomma =>
      absurd (List.all_eq_true.1 (hmarks text hmem) ',' hcomma) (by decide)
    have hread : (row.operands.map fun operand => operand.text.toList).map Operand.read? = row.operands.map some := by
      rw [List.map_map]
      exact List.map_congr_left fun operand hmem => Operand.read?_text (hplain operand hmem)
    obtain ⟨hfront, hrest⟩ := Text.span_append hword
      (' ' :: [',', ' '].intercalate (row.operands.map fun operand => operand.text.toList))
      fun c hc => by obtain rfl := Option.some.inj hc; rfl
    rw [text_of_ne_nil hne, readText, hfront, hrest, String.ofList_toList]
    simp only
    rw [Text.filter_intercalate hmarks, List.splitOn_intercalate ',' hcommas (by simpa using hne), hread]

/-- A row that the decoder makes of some bytes: an instruction whose operands carry no labels. -/
structure IsBareInstruction (row : Row) : Prop where
  decoded : ∃ symbols jumpPage cursor, row = (Instruction.decode symbols jumpPage cursor).row
  kind : row.kind = .instruction
  unlabelled : ∀ operand ∈ row.operands, operand.label? = none

end Row

theorem Argument.EncodesAll.plain {branch : Int32 → Operand} {arguments : List Argument} {bytes : List UInt8}
    {operands : List Operand} (h : EncodesAll branch arguments bytes operands)
    (hbranch : ∀ d, (branch d).label? = none → (branch d).Plain) :
    ∀ operand ∈ operands, operand.label? = none → operand.Plain := by
  induction h with
  | nil => nofun
  | cons hfirst _ ih =>
    refine List.forall_mem_cons.2 ⟨fun hlabel => ?_, ih⟩
    cases hfirst with
    | register r | indirect r | indexedByL r | displaced r _ => exact ⟨r, rfl⟩
    | relative8 | relative16 => exact hbranch _ hlabel
    | _ => trivial

/-- An instruction without labels is written with a mnemonic and plain operands. -/
theorem Row.IsBareInstruction.plain {row : Row} (h : row.IsBareInstruction) :
    row.mnemonic.toList.all Char.isAlphanum = true ∧ ∀ operand ∈ row.operands, operand.Plain := by
  obtain ⟨⟨symbols, jumpPage, cursor, rfl⟩, hkind, hlabels⟩ := h
  obtain ⟨size, operation, operands, hshows, -⟩ | ⟨hillegal, -⟩ := Instruction.decode_cases symbols jumpPage cursor
  · refine ⟨?_, fun operand hmem => ?_⟩
    · rw [hshows.mnemonic]
      exact operation.mnemonic.text_word.2
    · have hlabel := hlabels operand hmem
      rw [hshows.operands, List.mem_append] at hmem
      rcases hmem with hcondition | hoperand
      · obtain ⟨condition, -, rfl⟩ := List.mem_map.1 hcondition
        trivial
      · exact hshows.encodes.plain (fun _ => id) operand hoperand hlabel
  · rw [hillegal] at hkind
    cases hkind

namespace Row

/-- **The text of an instruction is unambiguous.** The mnemonic and the operands of an instruction without labels are read
back from its text. So two instructions that are written alike have the same mnemonic and the same operands, whatever bytes
they are made of and wherever these stand. The operands of any two instructions are told apart one by one as well: operands
of different kinds are never written alike, nor are different operands of one kind. -/
theorem text_determines_operands :
    (∀ row : Row, row.IsBareInstruction → readText row.text.toList = (row.mnemonic, row.operands.map some)) ∧
    (∀ row row' : Row, row.IsBareInstruction → row'.IsBareInstruction → row.text = row'.text →
      row.mnemonic = row'.mnemonic ∧ row.operands = row'.operands) ∧
    ∀ row row' : Row, row.IsBareInstruction → row'.IsBareInstruction →
      ∀ operand ∈ row.operands, ∀ operand' ∈ row'.operands, operand.text = operand'.text → operand = operand' := by
  have hread (row : Row) (h : row.IsBareInstruction) :
      readText row.text.toList = (row.mnemonic, row.operands.map some) :=
    readText_text h.plain.1 h.plain.2
  refine ⟨hread, fun row row' h h' htext => ?_, fun row row' h h' operand hmem operand' hmem' htext => ?_⟩
  · have hboth := (hread row h).symm.trans (htext ▸ hread row' h')
    obtain ⟨hmnemonic, hoperands⟩ := Prod.mk.inj hboth
    exact ⟨hmnemonic, List.map_injective_iff.2 (fun _ _ => Option.some.inj) hoperands⟩
  · have hfirst := Operand.read?_text (h.plain.2 operand hmem)
    have hsecond := Operand.read?_text (h'.plain.2 operand' hmem')
    exact Option.some.inj (hfirst.symm.trans (htext ▸ hsecond))

/-- A conditional branch, four bytes ahead. -/
def branchAhead : Row := (Instruction.decode (.empty defaultStem) 0 (.ofBytes 0x1000 [0xE7, 0x04])).row

/-- Another one, two bytes behind it, which leads to the same place. -/
def branchBehind : Row := (Instruction.decode (.empty "sub_") 0x8000 (.ofBytes 0x1002 [0xE7, 0x02, 0xF8])).row

theorem text_determines_operands_branches :
    branchAhead.IsBareInstruction ∧ branchBehind.IsBareInstruction ∧ branchAhead.raw ≠ branchBehind.raw ∧
      branchAhead.text = branchBehind.text ∧
      readText branchAhead.text.toList = ("JRS", [some (.condition .notZero), some (.target 0x1006 none)]) ∧
      branchAhead.operands = branchBehind.operands ∧
      ∀ operand ∈ branchAhead.operands, ∀ operand' ∈ branchBehind.operands, operand.text = operand'.text →
        operand = operand' := by
  have hahead : branchAhead.IsBareInstruction := ⟨⟨_, _, _, rfl⟩, by decide +kernel, by decide +kernel⟩
  have hbehind : branchBehind.IsBareInstruction := ⟨⟨_, _, _, rfl⟩, by decide +kernel, by decide +kernel⟩
  have htext : branchAhead.text = branchBehind.text := by decide +kernel
  exact ⟨hahead, hbehind, by decide +kernel, htext, text_determines_operands.1 branchAhead hahead,
    (text_determines_operands.2.1 _ _ hahead hbehind htext).2, text_determines_operands.2.2 _ _ hahead hbehind⟩

end Row

end TraceDisasm
