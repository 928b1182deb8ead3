import TraceDisasm.Proofs.Encoding
import TraceDisasm.Proofs.OperandLabels

/-!
# What a row is written with

The text of a row is a mnemonic with operands behind it, and these are written with numbers, the names of registers and
labels (`Row.Spelled`). So the text begins with a letter, and if the stem of labels has no line break, neither has the text
(`Row.Spelled.oneLine_text`): every row fills one line.
-/

namespace TraceDisasm

/-! ## Texts without a line break -/

namespace Text

/-- There is no line break in a text. -/
def OneLine (text : List Char) : Prop := '\n' ∉ text

instance (text : List Char) : Decidable (OneLine text) := inferInstanceAs (Decidable ('\n' ∉ text))

variable {text front back : List Char} {c : Char}

@[simp] theorem oneLine_nil : OneLine [] := List.not_mem_nil

@[simp] theorem oneLine_cons : OneLine (c :: text) ↔ c ≠ '\n' ∧ OneLine text := by
  simp [OneLine, eq_comm]

@[simp] theorem oneLine_append : OneLine (front ++ back) ↔ OneLine front ∧ OneLine back := by
  simp [OneLine]

theorem OneLine.of_subset (h : OneLine text) (hsubset : front ⊆ text) : OneLine front := fun hmem => h (hsubset hmem)

theorem OneLine.padRight (h : OneLine text) (width : Nat) : OneLine (padRight width text) := by
  refine oneLine_append.2 ⟨h, fun hmem => ?_⟩
  exact absurd (List.eq_of_mem_replicate hmem) (by decide)

theorem oneLine_intercalate {separator : List Char} {texts : List (List Char)} (hseparator : OneLine separator)
    (h : ∀ text ∈ texts, OneLine text) : OneLine (separator.intercalate texts) := by
  induction texts with
  | nil => exact oneLine_nil
  | cons first texts ih =>
    obtain ⟨hfirst, hrest⟩ := List.forall_mem_cons.1 h
    rcases eq_or_ne texts [] with rfl | hne
    · rwa [List.intercalate_singleton]
    · rw [List.intercalate_cons_of_ne_nil hne]
      exact oneLine_append.2 ⟨oneLine_append.2 ⟨hfirst, hseparator⟩, ih hrest⟩

end Text

open Text (OneLine)

namespace Text

theorem oneLine_iff_all : OneLine text ↔ text.all (· != '\n') = true := by
  rw [OneLine, List.all_eq_true]
  exact ⟨fun h c hc => bne_iff_ne.2 fun hbreak => h (hbreak ▸ hc), fun h hmem => bne_iff_ne.1 (h _ hmem) rfl⟩

theorem oneLine_of_isAlphanum (h : text.all Char.isAlphanum = true) : OneLine text := fun hmem =>
  absurd (List.all_eq_true.1 h _ hmem) (by decide)

end Text

namespace Hex

theorem isAlphanum_digit (letters : Letters) (n : Nat) : (digit letters (n % 16)).isAlphanum = true := by
  have hall : ∀ value : Fin 16, (digit letters value).isAlphanum = true := by
    cases letters <;> decide
  exact hall ⟨n % 16, Nat.mod_lt n (by decide)⟩

theorem all_isAlphanum_fixed (letters : Letters) (width n : Nat) :
    (fixed letters width n).all Char.isAlphanum = true := by
  induction width generalizing n with
  | zero => rfl
  | succ width ih => simp only [fixed, List.all_append, List.all_cons, ih, isAlphanum_digit, List.all_nil, Bool.and_self]

theorem dropZeros_suffix (count : Nat) (digits : List Char) : dropZeros count digits <:+ digits := by
  fun_induction dropZeros count digits with
  | case1 count digits ih => exact ih.trans (List.suffix_cons _ _)
  | case2 => exact List.suffix_rfl

theorem le_length_dropZeros (count : Nat) (digits : List Char) :
    digits.length ≤ count + (dropZeros count digits).length := by
  fun_induction dropZeros count digits with
  | case1 count digits ih =>
    rw [List.length_cons]
    omega
  | case2 => omega

theorem le_length_atLeast (letters : Letters) {least : Nat} (h : least ≤ 8) (n : UInt32) :
    least ≤ (atLeast letters least n).length := by
  have hlength := le_length_dropZeros (8 - least) (fixed letters 8 n.toNat)
  rw [length_fixed] at hlength
  rw [atLeast]
  omega

theorem all_isAlphanum_atLeast (letters : Letters) (least : Nat) (n : UInt32) :
    (atLeast letters least n).all Char.isAlphanum = true :=
  List.all_eq_true.2 fun c hc =>
    List.all_eq_true.1 (all_isAlphanum_fixed letters 8 n.toNat) c ((dropZeros_suffix _ _).subset hc)

theorem oneLine_fixed (letters : Letters) (width n : Nat) : OneLine (fixed letters width n) :=
  Text.oneLine_of_isAlphanum (all_isAlphanum_fixed letters width n)

theorem oneLine_atLeast (letters : Letters) (least : Nat) (n : UInt32) : OneLine (atLeast letters least n) :=
  Text.oneLine_of_isAlphanum (all_isAlphanum_atLeast letters least n)

end Hex

/-- Labels with the usual stem have no line break. -/
theorem Symbols.oneLine_of_lookup {symbols : Symbols} (hstem : symbols.stem = defaultStem) {address : UInt32}
    {label : String} (h : symbols.lookup address = some label) : OneLine label.toList := by
  obtain ⟨-, rfl⟩ := lookup_eq_some_iff.1 h
  rw [name, hstem, String.toList_append, String.toList_ofList]
  exact Text.oneLine_append.2 ⟨by decide, Hex.oneLine_atLeast _ _ _⟩

theorem Register.oneLine_name (r : Register) : OneLine r.name.toList := by
  cases r <;> decide

/-! ## Operands -/

namespace Operand

/-- The names that an operand is written with, as against numbers and signs. -/
def names : Operand → List String
  | register name | indirect name | indexedByL name | displaced name _ => [name]
  | target _ label | word _ label => label.toList
  | _ => []

/-- The characters that operands are written with, apart from their names: letters, digits and a few signs. -/
def isWritten (c : Char) : Bool := c.isAlphanum || ['#', '[', ']', '+', '-', ':'].contains c

theorem all_isWritten_of_isAlphanum {text : List Char} (h : text.all Char.isAlphanum = true) :
    text.all isWritten = true :=
  List.all_eq_true.2 fun c hc => by rw [isWritten, List.all_eq_true.1 h c hc, Bool.true_or]

theorem all_isWritten_byteText (value : UInt8) : (byteText value).toList.all isWritten = true := by
  simp only [byteText, String.toList_append, String.toList_ofList, List.all_append, Bool.and_eq_true]
  exact ⟨⟨by decide, all_isWritten_of_isAlphanum (Hex.all_isAlphanum_fixed _ _ _)⟩, by decide⟩

theorem all_isWritten_wordText (value : UInt16) : (wordText value).toList.all isWritten = true := by
  simp only [wordText, String.toList_append, String.toList_ofList, List.all_append, Bool.and_eq_true]
  exact ⟨⟨by decide, all_isWritten_of_isAlphanum (Hex.all_isAlphanum_fixed _ _ _)⟩, by decide⟩

theorem all_isWritten_signedText (value : Int8) : (signedText value).toList.all isWritten = true := by
  have hdigits : (Nat.toDigits 10 value.toInt.natAbs).all Char.isAlphanum = true :=
    List.all_eq_true.2 fun c hc => by
      rw [Char.isAlphanum, Nat.isDigit_of_mem_toDigits (by decide) (by decide) hc, Bool.or_true]
  simp only [signedText, String.toList_append, Nat.toList_repr, List.all_append, Bool.and_eq_true]
  exact ⟨by split <;> decide, all_isWritten_of_isAlphanum hdigits⟩

theorem all_isWritten_conditionName (condition : Condition) : condition.name.toList.all isWritten = true := by
  cases condition <;> decide

/-- What holds of the characters that operands are written with, and of those of its names, holds of all characters of an
operand. -/
theorem all_text {p : Char → Bool} {operand : Operand} (hwritten : ∀ c, isWritten c = true → p c = true)
    (hnames : ∀ name ∈ operand.names, name.toList.all p = true) : operand.text.toList.all p = true := by
  have himp {text : List Char} (h : text.all isWritten = true) : text.all p = true :=
    List.all_eq_true.2 fun c hc => hwritten c (List.all_eq_true.1 h c hc)
  have hbyte (value : UInt8) := himp (all_isWritten_byteText value)
  have hword (value : UInt16) := himp (all_isWritten_wordText value)
  have hsigned (value : Int8) := himp (all_isWritten_signedText value)
  have haddress (address : UInt32) : (Hex.atLeast .upper 6 address).all p = true :=
    himp (all_isWritten_of_isAlphanum (Hex.all_isAlphanum_atLeast _ _ _))
  have hsigns : ['#', '[', ']', '+', 'L', 'B', 'R', ':', 'h'].all p = true := himp (by decide)
  simp only [List.all_cons, List.all_nil, Bool.and_eq_true, and_true] at hsigns
  cases operand with
  | condition condition => exact himp (all_isWritten_conditionName condition)
  | register name | indirect name | indexedByL name | displaced name _ =>
    have hname : name.toList.all p = true := hnames name List.mem_cons_self
    simp [text, hname, hsigned, hsigns, -List.all_eq_true]
  | target address label | word value label =>
    cases label with
    | none => simp [text, hword, haddress, hsigns, -List.all_eq_true]
    | some label => exact hnames label List.mem_cons_self
  | _ => simp [text, hbyte, hword, hsigns, -List.all_eq_true]

theorem oneLine_text {operand : Operand} (h : ∀ name ∈ operand.names, OneLine name.toList) :
    OneLine operand.text.toList := by
  refine Text.oneLine_iff_all.2 (all_text (fun c hc => ?_) fun name hname => Text.oneLine_iff_all.1 (h name hname))
  rw [bne_iff_ne]
  rintro rfl
  exact absurd hc (by decide)

end Operand

/-! ## Rows -/

theorem Row.oneLine_rawText (row : Row) : OneLine row.rawText.toList := by
  rw [rawText, String.toList_intercalate, List.map_map]
  refine Text.oneLine_intercalate (by decide) fun text htext => ?_
  obtain ⟨byte, -, rfl⟩ := List.mem_map.1 htext
  rw [Function.comp_apply, String.toList_ofList]
  exact Hex.oneLine_fixed _ _ _

theorem Mnemonic.text_word (mnemonic : Mnemonic) :
    mnemonic.text.toList ≠ [] ∧ mnemonic.text.toList.all Char.isAlphanum = true := by
  cases mnemonic <;> decide

theorem Row.text_of_nil {row : Row} (h : row.operands = []) : row.text = row.mnemonic := by
  rw [text, h]
  rfl

theorem Row.text_of_ne_nil {row : Row} (h : row.operands ≠ []) : row.text.toList =
    row.mnemonic.toList ++ ' ' :: [',', ' '].intercalate (row.operands.map fun operand => operand.text.toList) := by
  rw [text, if_neg (by simpa using h), String.toList_append, String.toList_append, String.toList_intercalate,
    List.map_map, List.append_assoc]
  rfl

theorem Row.mnemonic_begins_text (row : Row) : row.mnemonic.toList <+: row.text.toList := by
  rcases eq_or_ne row.operands [] with hnil | hne
  · exact ⟨[], by rw [text_of_nil hnil, List.append_nil]⟩
  · exact ⟨_, (text_of_ne_nil hne).symm⟩

/-- A row is written with the words of the assembler and with labels. -/
structure Row.Spelled (row : Row) (symbols : Symbols) : Prop where
  mnemonic : (∃ operation : Mnemonic, row.mnemonic = operation.text) ∨
    row.mnemonic ∈ [illegalMnemonic, wordsMnemonic, bytesMnemonic]
  names : ∀ operand ∈ row.operands, ∀ name ∈ operand.names,
    (∃ r : Register, name = r.name) ∨ ∃ address, symbols.lookup address = some name

theorem Argument.EncodesAll.names {branch : Int32 → Operand} {arguments : List Argument} {bytes : List UInt8}
    {operands : List Operand} (h : EncodesAll branch arguments bytes operands) :
    ∀ operand ∈ operands, ∀ name ∈ operand.names, (∃ r : Register, name = r.name) ∨ ∃ d, name ∈ (branch d).names := by
  induction h with
  | nil => nofun
  | cons hfirst _ ih =>
    refine List.forall_mem_cons.2 ⟨fun name hname => ?_, ih⟩
    cases hfirst with
    | register r | indirect r | indexedByL r | displaced r _ => exact .inl ⟨r, List.mem_singleton.1 hname⟩
    | relative8 | relative16 => exact .inr ⟨_, hname⟩
    | _ => cases hname

theorem Instruction.decode_spelled (symbols : Symbols) (jumpPage : UInt32) (cursor : Cursor) :
    (decode symbols jumpPage cursor).row.Spelled symbols := by
  obtain ⟨size, operation, hlookup, hbytes⟩ | hcut := cursor.complete_or_cut
  · obtain ⟨operands, hshows, -⟩ := decode_of_complete symbols jumpPage hlookup hbytes
    refine ⟨.inl ⟨_, hshows.mnemonic⟩, fun operand hmem name hname => ?_⟩
    rw [hshows.operands, List.mem_append] at hmem
    rcases hmem with hcondition | hoperand
    · obtain ⟨condition, -, rfl⟩ := List.mem_map.1 hcondition
      cases hname
    · refine (hshows.encodes.names operand hoperand name hname).imp_right ?_
      rintro ⟨d, hlabel⟩
      exact ⟨_, Option.mem_toList.1 hlabel⟩
  · obtain ⟨length, hillegal, -⟩ := decode_of_incomplete symbols jumpPage hcut
    rw [hillegal]
    exact ⟨.inr List.mem_cons_self, nofun⟩

namespace Walk

variable (symbols : Symbols) (config : Config)

theorem names_wordOperands (bytes : List UInt8) (trace : List Access) :
    ∀ operand ∈ wordOperands symbols [] bytes trace, ∀ name ∈ operand.names,
      ∃ address, symbols.lookup address = some name := by
  intro operand hmem name hname
  obtain ⟨i, hget⟩ := List.getElem?_of_mem hmem
  obtain ⟨-, value, rfl⟩ := getElem?_wordOperands hget
  rw [Operand.names] at hname
  split at hname
  · exact ⟨_, Option.mem_toList.1 hname⟩
  · cases hname

theorem bareRow_spelled (walk : Walk) : (walk.bareRow symbols config).1.Spelled symbols := by
  rw [bareRow]
  split
  · exact Instruction.decode_spelled symbols walk.jumpPage walk.cursor
  split
  · refine ⟨.inr (by simp [wordsRow]), fun operand hmem name hname => ?_⟩
    exact .inr (names_wordOperands symbols _ _ operand hmem name hname)
  · refine ⟨.inr (by simp [bytesRow]), fun operand hmem name hname => ?_⟩
    obtain ⟨byte, -, rfl⟩ := List.mem_map.1 hmem
    cases hname

end Walk

/-- The rows of a listing are spelled with the labels of its table, and each shows the label of its address. -/
theorem View.mem_rows_spelled {view : View} {symbols : Symbols} {config : Config} {row : Row}
    (h : row ∈ view.rows symbols config) : row.Spelled symbols ∧ row.label = symbols.lookup row.address := by
  obtain ⟨index, walk, -, -, rfl⟩ := View.exists_walk_of_mem h
  obtain ⟨hmnemonic, hnames⟩ := walk.bareRow_spelled symbols config
  exact ⟨⟨hmnemonic, hnames⟩, rfl⟩

namespace Row.Spelled

variable {row : Row} {symbols : Symbols}

/-- The mnemonic is a word. -/
theorem mnemonic_word (h : row.Spelled symbols) :
    row.mnemonic.toList ≠ [] ∧ row.mnemonic.toList.all Char.isAlphanum = true := by
  obtain ⟨operation, hmnemonic⟩ | hmnemonic := h.mnemonic
  · rw [hmnemonic]
    exact operation.text_word
  · simp only [List.mem_cons, List.not_mem_nil, or_false] at hmnemonic
    rcases hmnemonic with hmnemonic | hmnemonic | hmnemonic <;> rw [hmnemonic] <;> decide

/-- The text begins with a letter. -/
theorem text_toList (h : row.Spelled symbols) :
    ∃ letter rest, row.text.toList = letter :: rest ∧ Text.isBlank letter = false := by
  obtain ⟨hne, hall⟩ := h.mnemonic_word
  obtain ⟨letter, tail, hmnemonic⟩ := List.exists_cons_of_ne_nil hne
  have hletter : Text.isBlank letter = false :=
    Text.isBlank_of_isAlphanum (List.all_eq_true.1 hall letter (hmnemonic ▸ List.mem_cons_self))
  rcases eq_or_ne row.operands [] with hnil | hoperands
  · exact ⟨letter, tail, by rw [text_of_nil hnil, hmnemonic], hletter⟩
  · exact ⟨letter, _, by rw [text_of_ne_nil hoperands, hmnemonic, List.cons_append], hletter⟩

theorem oneLine_text (h : row.Spelled symbols)
    (hlabels : ∀ address label, symbols.lookup address = some label → OneLine label.toList) : OneLine row.text.toList := by
  have hmnemonic : OneLine row.mnemonic.toList := Text.oneLine_of_isAlphanum h.mnemonic_word.2
  rcases eq_or_ne row.operands [] with hnil | hoperands
  · rwa [text_of_nil hnil]
  · rw [text_of_ne_nil hoperands]
    refine Text.oneLine_append.2 ⟨hmnemonic, Text.oneLine_cons.2 ⟨by decide, Text.oneLine_intercalate (by decide) ?_⟩⟩
    intro text htext
    obtain ⟨operand, hmem, rfl⟩ := List.mem_map.1 htext
    refine Operand.oneLine_text fun name hname => ?_
    obtain ⟨r, rfl⟩ | ⟨address, hlabel⟩ := h.names operand hmem name hname
    · exact r.oneLine_name
    · exact hlabels address name hlabel

end Row.Spelled

end TraceDisasm
