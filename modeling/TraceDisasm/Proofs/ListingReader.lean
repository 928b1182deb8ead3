import TraceDisasm.Proofs.RowText

/-!
# Reading a listing back

The address and the bytes of a row can be read off its line (`Row.readLine`). The address is its first six characters, and
the bytes begin two characters behind. How far they go is not told by the width of the column, which a long row exceeds, but
by what stands behind them: where no further byte follows, there is a space in the place of a digit, or the `l` that labels
begin with. The mnemonic may well look like a byte, but it comes only behind the column of labels.

So a listing is read back line by line (`Row.readListing_listing`), and since its rows show every byte in order, it tells
where they start and what they are (`View.listing_determines_bytes`).
-/

namespace TraceDisasm

/-! ## Columns -/

namespace Text

variable {front back text : List Char} {c : Char}

/-- What stands in front of something other than a blank stays. -/
theorem trimRight_append (h : isBlank c = false) :
    trimRight (front ++ c :: back) = front ++ trimRight (c :: back) := by
  have hkept : ((c :: back).reverse.dropWhile isBlank).isEmpty = false := by
    rw [List.reverse_cons, List.dropWhile_append]
    split
    · rw [List.dropWhile_cons_of_neg (by simp [h])]
      rfl
    · rw [List.isEmpty_eq_false_iff]
      exact List.append_ne_nil_of_right_ne_nil _ (List.cons_ne_nil c [])
  rw [trimRight, List.reverse_append, List.dropWhile_append, hkept, if_neg Bool.false_ne_true, List.reverse_append,
    List.reverse_reverse, trimRight]

/-- The padding of a column and the space behind it change places. -/
theorem padRight_append_space (width : Nat) (text : List Char) :
    padRight width text ++ [' '] = text ++ [' '] ++ List.replicate (width - text.length) ' ' := by
  rw [padRight, List.append_assoc, ← List.replicate_succ', List.replicate_succ, List.append_assoc]
  rfl

theorem trimRight_subset (text : List Char) : trimRight text ⊆ text := fun c hmem => by
  rw [trimRight, List.mem_reverse] at hmem
  exact List.mem_reverse.1 ((List.dropWhile_sublist isBlank).subset hmem)

theorem intercalate_append {texts : List (List Char)} (h : texts ≠ []) (c : Char) :
    [c].intercalate texts ++ [c] = texts.flatMap (· ++ [c]) := by
  induction texts with
  | nil => exact absurd rfl h
  | cons first texts ih =>
    rcases eq_or_ne texts [] with rfl | hne
    · rw [List.intercalate_singleton, List.flatMap_singleton]
    · rw [List.intercalate_cons_of_ne_nil hne, List.append_assoc, ih hne, List.flatMap_cons]

/-- Lines are told apart by the breaks behind them. -/
theorem splitOn_flatMap {lines : List (List Char)} (h : ∀ line ∈ lines, OneLine line) :
    (lines.flatMap (· ++ ['\n'])).splitOn '\n' = lines ++ [[]] := by
  induction lines with
  | nil => rfl
  | cons first lines ih =>
    obtain ⟨hfirst, hrest⟩ := List.forall_mem_cons.1 h
    rw [List.flatMap_cons, List.append_assoc, List.splitOn, List.singleton_append,
      List.splitOnP_append_cons_of_forall_mem (fun c hmem => ?_) '\n' rfl]
    · exact congrArg (first :: ·) (ih hrest)
    · have hc : c ≠ '\n' := fun hbreak => hfirst (hbreak ▸ hmem)
      exact beq_false_of_ne hc

end Text

/-! ## Numbers -/

namespace Hex

/-- The number that some digits spell. -/
def number? (digits : List Char) : Option Nat :=
  digits.foldlM (fun number c => (digitValue? c).map (16 * number + ·)) 0

theorem number?_fixed (letters : Letters) (width n : Nat) : number? (fixed letters width n) = some (n % 16 ^ width) := by
  induction width generalizing n with
  | zero => rw [Nat.pow_zero, Nat.mod_one]; rfl
  | succ width ih =>
    have hdigit := digitValue?_digit letters (Nat.mod_lt n (by decide : 0 < 16))
    simp only [number?] at ih ⊢
    rw [fixed, List.foldlM_append, ih, Nat.pow_succ', Nat.mod_mul, Nat.add_comm]
    simp [hdigit]

theorem number?_zero_cons (digits : List Char) : number? ('0' :: digits) = number? digits := rfl

theorem number?_dropZeros (count : Nat) (digits : List Char) : number? (dropZeros count digits) = number? digits := by
  fun_induction dropZeros count digits with
  | case1 count digits ih => rw [ih, number?_zero_cons]
  | case2 => rfl

theorem number?_atLeast (letters : Letters) (least : Nat) (n : UInt32) :
    number? (atLeast letters least n) = some n.toNat := by
  have hn : n.toNat % 16 ^ 8 = n.toNat := Nat.mod_eq_of_lt n.toNat_lt
  rw [atLeast, number?_dropZeros, number?_fixed, hn]

theorem fixed_succ (letters : Letters) (width n : Nat) :
    fixed letters (width + 1) n = digit letters (n / 16 ^ width % 16) :: fixed letters width n := by
  induction width generalizing n with
  | zero => simp [fixed]
  | succ width ih =>
    rw [fixed, ih, Nat.div_div_eq_div_mul, ← Nat.pow_succ']
    rfl

theorem fixed_eight (letters : Letters) {n : Nat} (h : n < 2 ^ 24) :
    fixed letters 8 n = '0' :: '0' :: fixed letters 6 n := by
  have hseventh : n / 16 ^ 6 % 16 = 0 := by omega
  have heighth : n / 16 ^ 7 % 16 = 0 := by omega
  rw [fixed_succ, fixed_succ, hseventh, heighth]
  cases letters <;> rfl

/-- An address of the physical space fills its field. -/
theorem atLeast_six (letters : Letters) {n : UInt32} (h : n.toNat < 2 ^ 24) :
    atLeast letters 6 n = fixed letters 6 n.toNat := by
  rw [atLeast, fixed_eight letters h]
  rfl

end Hex

/-! ## Lines -/

namespace Row

/-- Reads bytes, each with a character behind it, as long as there are any. -/
def readBytes : List Char → List UInt8
  | high :: low :: _ :: text =>
    match Hex.number? [high, low] with
    | some byte => UInt8.ofNat byte :: readBytes text
    | none => []
  | _ => []

/-- Reads the address and the bytes of a row off its line. -/
def readLine (line : List Char) : Option (UInt32 × List UInt8) :=
  (Hex.number? (line.take 6)).map fun address => (UInt32.ofNat address, readBytes (line.drop 8))

/-- Reads a listing line by line. -/
def readListing (text : List Char) : List (Option (UInt32 × List UInt8)) :=
  ((text.splitOn '\n').dropLast).map readLine

/-- The bytes of a row with a space behind each. -/
def spaced (bytes : List UInt8) : List Char :=
  bytes.flatMap fun byte => Hex.fixed .upper 2 byte.toNat ++ [' ']

/-- No byte begins with a character that is no digit. -/
theorem readBytes_of_head {text : List Char} (h : ∀ c ∈ text.head?, Hex.digitValue? c = none) : readBytes text = [] := by
  rw [readBytes.eq_def]
  split
  · next high low _ text =>
    have hhigh : Hex.digitValue? high = none := h high rfl
    simp [Hex.number?, hhigh]
  · rfl

theorem readBytes_spaced (bytes : List UInt8) {rest : List Char} (h : ∀ c ∈ rest.head?, Hex.digitValue? c = none) :
    readBytes (spaced bytes ++ rest) = bytes := by
  induction bytes with
  | nil => exact readBytes_of_head h
  | cons byte bytes ih =>
    have hdigits : Hex.fixed .upper 2 byte.toNat =
        [Hex.digit .upper (byte.toNat / 16 % 16), Hex.digit .upper (byte.toNat % 16)] := rfl
    have hbyte : byte.toNat % 16 ^ 2 = byte.toNat := Nat.mod_eq_of_lt byte.toNat_lt
    have hnumber := Hex.number?_fixed .upper 2 byte.toNat
    rw [hbyte, hdigits] at hnumber
    rw [spaced, List.flatMap_cons, hdigits]
    simp only [List.cons_append, List.nil_append, readBytes, hnumber]
    rw [UInt8.ofNat_toNat]
    exact congrArg (byte :: ·) ih

variable {row : Row} {symbols : Symbols}

theorem rawText_append (h : row.raw ≠ []) : row.rawText.toList ++ [' '] = spaced row.raw := by
  rw [rawText, String.toList_intercalate, List.map_map]
  refine (Text.intercalate_append (by simpa using h) ' ').trans ?_
  simp [spaced, List.flatMap_map]

/-- The columns of a line, with the space that ends the last byte taken to the bytes. -/
theorem line_toList (spelled : row.Spelled symbols) (hraw : row.raw ≠ []) :
    row.line.toList = Hex.atLeast .upper 6 row.address ++ ([' ', ' '] ++ (spaced row.raw ++
      (List.replicate (rawWidth - row.rawText.toList.length) ' ' ++ (Text.padRight labelWidth row.labelText.toList ++
        ([' '] ++ Text.trimRight row.text.toList))))) := by
  obtain ⟨letter, rest, htext, hletter⟩ := spelled.text_toList
  have hcolumns : row.columns = Hex.atLeast .upper 6 row.address ++ [' ', ' '] ++
      (Text.padRight rawWidth row.rawText.toList ++ [' ']) ++ Text.padRight labelWidth row.labelText.toList ++ [' '] ++
        letter :: rest := by
    rw [columns, htext]
    simp only [List.append_assoc]
  rw [line, String.toList_ofList, hcolumns, Text.trimRight_append hletter, Text.padRight_append_space,
    rawText_append hraw, htext]
  simp only [List.append_assoc]

/-- What the column of labels begins with. -/
theorem head?_labelText (hstem : symbols.stem = defaultStem) (hlabel : row.label = symbols.lookup row.address)
    (rest : List Char) : ∀ c ∈ (Text.padRight labelWidth row.labelText.toList ++ rest).head?, Hex.digitValue? c = none := by
  have hc : ∀ c ∈ (Text.padRight labelWidth row.labelText.toList ++ rest).head?, c = ' ' ∨ c = 'l' := by
    cases hlookup : symbols.lookup row.address with
    | none =>
      rw [hlookup] at hlabel
      simp [labelText, hlabel, labelWidth, Text.padRight, List.replicate_succ]
    | some label =>
      obtain ⟨-, rfl⟩ := Symbols.lookup_eq_some_iff.1 hlookup
      rw [hlookup] at hlabel
      simp [labelText, hlabel, Text.padRight, Symbols.name, hstem, defaultStem]
  intro c hmem
  rcases hc c hmem with rfl | rfl <;> decide

/-- **The address and the bytes of a row are read back from its line**, however many bytes there are, with a label and
without. -/
theorem readLine_line (spelled : row.Spelled symbols) (hstem : symbols.stem = defaultStem)
    (hlabel : row.label = symbols.lookup row.address) (hraw : row.raw ≠ []) (haddress : row.address.toNat < 2 ^ 24) :
    readLine row.line.toList = some (row.address, row.raw) := by
  have hlength : (Hex.fixed .upper 6 row.address.toNat).length = 6 := Hex.length_fixed _ _ _
  have hnumber : row.address.toNat % 16 ^ 6 = row.address.toNat := Nat.mod_eq_of_lt haddress
  rw [line_toList spelled hraw, Hex.atLeast_six .upper haddress, readLine, List.take_left' hlength, Hex.number?_fixed,
    hnumber, Option.map_some, UInt32.ofNat_toNat, ← List.append_assoc, List.drop_left' (by simp),
    readBytes_spaced]
  intro c hmem
  cases hpadding : rawWidth - row.rawText.toList.length with
  | zero =>
    rw [hpadding, List.replicate_zero, List.nil_append] at hmem
    exact head?_labelText hstem hlabel _ c hmem
  | succ k =>
    rw [hpadding, List.replicate_succ] at hmem
    obtain rfl : ' ' = c := Option.some.inj hmem
    decide

/-- The label ends the bytes of a row that fills its column. -/
example : readLine "002100  DB 01 02 03 04 05 06 07 08 09 loc_2100:    DB 0DBh".toList =
    some (0x2100, [0xDB, 1, 2, 3, 4, 5, 6, 7, 8, 9]) := by decide

theorem oneLine_line (spelled : row.Spelled symbols) (hstem : symbols.stem = defaultStem)
    (hlabel : row.label = symbols.lookup row.address) : Text.OneLine row.line.toList := by
  have htext : Text.OneLine row.text.toList := spelled.oneLine_text fun _ _ => Symbols.oneLine_of_lookup hstem
  have hlabelText : Text.OneLine row.labelText.toList := by
    rw [labelText]
    split
    · next label hsome =>
      have hline := Symbols.oneLine_of_lookup hstem (hlabel.symm.trans hsome)
      simp [hline]
    · decide
  have hcolumns : Text.OneLine row.columns := by
    simp [columns, Hex.oneLine_atLeast, row.oneLine_rawText.padRight, hlabelText.padRight, htext]
  rw [line, String.toList_ofList]
  exact hcolumns.of_subset (Text.trimRight_subset _)

/-- A listing is read back if its lines are. -/
theorem readListing_listing {rows : List Row} (hlines : ∀ row ∈ rows, Text.OneLine row.line.toList)
    (hread : ∀ row ∈ rows, readLine row.line.toList = some (row.address, row.raw)) :
    readListing (listing rows).toList = rows.map fun row => some (row.address, row.raw) := by
  have htext : (listing rows).toList = (rows.map fun row => row.line.toList).flatMap (· ++ ['\n']) := by
    rw [listing, String.toList_join, List.flatMap_map, List.flatMap_map]
    simp
  rw [readListing, htext, Text.splitOn_flatMap (by simpa using hlines), List.dropLast_concat, List.map_map]
  refine List.map_congr_left fun row hmem => ?_
  rw [Function.comp_apply, hread row hmem]

end Row

/-! ## Listings -/

namespace Walk.Covers

variable {start start' : UInt32} {bytes bytes' : List UInt8} {rows rows' : List Row}

theorem head?_address (h : Covers start bytes rows) (hfilled : bytes ≠ []) : rows.head?.map Row.address = some start := by
  cases h with
  | nil => exact absurd rfl hfilled
  | cons _ _ => rfl

/-- The addresses and the bytes of the rows tell where the bytes start and what they are. -/
theorem eq_of_map_eq (h : Covers start bytes rows) (h' : Covers start' bytes' rows') (hfilled : bytes ≠ [])
    (hfilled' : bytes' ≠ [])
    (hrows : (rows.map fun row => (row.address, row.raw)) = rows'.map fun row => (row.address, row.raw)) :
    start = start' ∧ bytes = bytes' := by
  constructor
  · have hfirst := congrArg (fun shown => shown.head?.map Prod.fst) hrows
    simp only [List.head?_map, Option.map_map] at hfirst
    exact Option.some.inj ((h.head?_address hfilled).symm.trans (hfirst.trans (h'.head?_address hfilled')))
  · have hraw := congrArg (List.flatMap Prod.snd) hrows
    rw [List.flatMap_map, List.flatMap_map] at hraw
    exact h.flatMap_raw.symm.trans (hraw.trans h'.flatMap_raw)

end Walk.Covers

namespace View

variable {view : View} {symbols : Symbols} {config : Config}

/-- Every line of a listing is read back. -/
theorem readLine_of_mem_rows (hstem : symbols.stem = defaultStem)
    (hbound : view.start.toNat + view.bytes.length ≤ 2 ^ 24) {row : Row} (hmem : row ∈ view.rows symbols config) :
    Text.OneLine row.line.toList ∧ Row.readLine row.line.toList = some (row.address, row.raw) := by
  obtain ⟨spelled, hlabel⟩ := mem_rows_spelled hmem
  have covers := view.rows_covers symbols config
  obtain ⟨-, hlt, hle⟩ := covers.bounds (by omega) row hmem
  exact ⟨Row.oneLine_line spelled hstem hlabel,
    Row.readLine_line spelled hstem hlabel (covers.raw_ne_nil row hmem) (by omega)⟩

/-- The start and the bytes of a view, as its listing tells them. -/
theorem readListing_rows (hstem : symbols.stem = defaultStem) (hbound : view.start.toNat + view.bytes.length ≤ 2 ^ 24) :
    Row.readListing (Row.listing (view.rows symbols config)).toList =
      (view.rows symbols config).map fun row => some (row.address, row.raw) :=
  Row.readListing_listing (fun _ hmem => (readLine_of_mem_rows hstem hbound hmem).1)
    fun _ hmem => (readLine_of_mem_rows hstem hbound hmem).2

/-- **A listing determines the bytes that it lists.** Whatever is known about the bytes of a view, whichever of them are
labelled and however long rows may be, the address and the bytes of each row are read back from its line, if labels have the
usual stem. So two views with one listing have the same start and the same bytes. -/
theorem listing_determines_bytes :
    (∀ (view : View) (symbols : Symbols) (config : Config), symbols.stem = defaultStem →
      view.start.toNat + view.bytes.length ≤ 2 ^ 24 →
        ∀ row ∈ view.rows symbols config, Row.readLine row.line.toList = some (row.address, row.raw)) ∧
    ∀ (view view' : View) (symbols symbols' : Symbols) (config config' : Config),
      symbols.stem = defaultStem → symbols'.stem = defaultStem → view.bytes ≠ [] → view'.bytes ≠ [] →
        view.start.toNat + view.bytes.length ≤ 2 ^ 24 → view'.start.toNat + view'.bytes.length ≤ 2 ^ 24 →
          Row.listing (view.rows symbols config) = Row.listing (view'.rows symbols' config') →
            view.start = view'.start ∧ view.bytes = view'.bytes := by
  refine ⟨fun view symbols config hstem hbound row hmem => (readLine_of_mem_rows hstem hbound hmem).2, ?_⟩
  intro view view' symbols symbols' config config' hstem hstem' hfilled hfilled' hbound hbound' hlisting
  have hread := (readListing_rows hstem hbound).symm.trans (hlisting ▸ readListing_rows hstem' hbound')
  have hsome : Function.Injective (some : UInt32 × List UInt8 → _) := fun _ _ => Option.some.inj
  refine (view.rows_covers symbols config).eq_of_map_eq (view'.rows_covers symbols' config') hfilled hfilled' ?_
  refine List.map_injective_iff.2 hsome ?_
  rwa [List.map_map, List.map_map]

/-- Twelve bytes, which are more than the column holds. -/
def longView : View := ⟨0x2100, [0xDB, 1, 2, 3, 4, 5, 6, 7, 8, 9, 10, 11], []⟩

/-- The same bytes, of which more is known. -/
def longDataView : View := { longView with trace := [.ofFlags [.data]] }

/-- One label, at the start of these bytes. -/
def startLabel : Symbols := (Symbols.empty defaultStem).insert 0x2100

/-- The row that shows them. The label stands right behind the last byte. -/
def longRow : Row :=
  ⟨0x2100, .bytes, Row.bytesMnemonic, longView.bytes.map .byte, longView.bytes, some "loc_2100"⟩

theorem listing_determines_bytes_longRow :
    longView.start.toNat + longView.bytes.length ≤ 2 ^ 24 ∧ longView.bytes ≠ [] ∧
      longRow ∈ longView.rows startLabel ⟨5, 12, defaultStem⟩ ∧
      Row.readLine longRow.line.toList = some (longRow.address, longRow.raw) ∧
      Row.listing (longView.rows startLabel ⟨5, 12, defaultStem⟩) =
        Row.listing (longDataView.rows (startLabel.insert 0x3000) ⟨1, 20, defaultStem⟩) ∧
      longView.start = longDataView.start ∧ longView.bytes = longDataView.bytes := by
  have hrows : longView.rows startLabel ⟨5, 12, defaultStem⟩ = [longRow] := by decide +kernel
  have hrows' : longDataView.rows (startLabel.insert 0x3000) ⟨1, 20, defaultStem⟩ = [longRow] := by decide +kernel
  have hmem : longRow ∈ longView.rows startLabel ⟨5, 12, defaultStem⟩ := by
    rw [hrows]
    exact List.mem_singleton_self longRow
  have hlisting := congrArg Row.listing (hrows.trans hrows'.symm)
  have hbound : longView.start.toNat + longView.bytes.length ≤ 2 ^ 24 := by decide
  have hfilled : longView.bytes ≠ [] := by decide
  exact ⟨hbound, hfilled, hmem, listing_determines_bytes.1 longView _ _ rfl hbound longRow hmem, hlisting,
    listing_determines_bytes.2 longView longDataView _ _ _ _ rfl rfl hfilled hfilled hbound hbound hlisting⟩

end View

end TraceDisasm
