import TraceDisasm.Proofs.RowLimits

/-!
# What rows of data hide

A row of data should hide nothing: a byte that is known as an instruction is to be shown as code, and a label is to stand in
front of its row (`View.HidesNothing`). Rows of bytes see to this, for they end before every byte that is known as an
instruction and before every label. Rows of words do not. They are made of whole words, and only the first byte of each word
is looked at: whether it is known as the low byte of a word, and whether it has a label. So a row of words passes over code
behind its first byte, and over the labels of second bytes (`View.PassesNothing`).

Nothing else is hidden. A listing hides nothing just if its rows of words pass over nothing
(`View.hidesNothing_of_passesNothing`, `View.HidesNothing.passesNothing`). This is so if a byte that is known as the low byte
of a word is not known as an instruction, and the byte behind it is neither that nor labelled
(`View.hidesNothing_of_exclusive`).
-/

namespace TraceDisasm

/-- What is known about a byte of a view. -/
def View.known (view : View) (index : Nat) : Access := view.trace[index]?.getD .none

/-- The rows hide neither code nor labels. -/
structure View.HidesNothing (view : View) (symbols : Symbols) (rows : List Row) : Prop where
  /-- A byte that is known as an instruction is in a row of code. -/
  code : ∀ index < view.bytes.length, (view.known index).has .instruction = true →
    ∃ offset row, RowAt rows offset row ∧ offset ≤ index ∧ index < offset + row.length ∧ row.isCode = true
  /-- Only the first address of a row of data has a label, -/
  label : ∀ row ∈ rows, row.isCode = false → ∀ i < row.length,
    symbols.contains (row.address + UInt32.ofNat i) = true → i = 0
  /-- and this is shown. -/
  shown : ∀ row ∈ rows, row.label = symbols.lookup row.address

/-- Behind its first byte, the row that stands behind `offset` bytes passes over no code, and over no label of the second
byte of a word. -/
def View.PassesNothing (view : View) (symbols : Symbols) (offset : Nat) (row : Row) : Prop :=
  ∀ i, 0 < i → i < row.length → (view.known (offset + i)).has .instruction = false ∧
    (i % 2 = 1 → symbols.contains (row.address + UInt32.ofNat i) = false)

namespace Walk

variable {symbols : Symbols} {config : Config} {walk : Walk}

/-! ## One row -/

theorem step_address (hrest : walk.cursor.rest ≠ []) : (walk.step symbols config).1.address = walk.cursor.address := by
  obtain ⟨count, hreads⟩ := step_reads symbols config walk hrest
  exact hreads.2.2.1

theorem AtCode.isCode_step (h : walk.AtCode) : (walk.step symbols config).1.isCode = true := by
  rw [step, h.bareRow]
  exact isCode_instructionRow symbols walk

theorem AtWords.lt_wordCount (h : walk.AtWords) {i : Nat} (hi : i < (walk.step symbols config).1.length) :
    i < 2 * wordCount symbols config walk := by
  rw [← h.length (Nat.le_refl (wordCount symbols config walk))]
  simp only [step, h.bareRow] at hi
  exact hi

theorem AtBytes.lt_byteCount (h : walk.AtBytes) {i : Nat} (hi : i < (walk.step symbols config).1.length) :
    i < byteCount symbols config walk := by
  rw [← h.length symbols config]
  simp only [step, h.bareRow] at hi
  exact hi

theorem IsAt.known {view : View} {offset : Nat} (h : IsAt view offset walk) (i : Nat) :
    (walk.trace.drop i).headD .none = view.known (offset + i) := by
  rw [h.trace, List.drop_drop, View.known, List.headD_eq_head?_getD, List.head?_drop]

/-- A row that passes over nothing hides nothing. -/
theorem IsAt.shows_of_passesNothing {view : View} {offset : Nat} (h : IsAt view offset walk)
    (hrest : walk.cursor.rest ≠ [])
    (hpasses : (walk.step symbols config).1.kind = .words →
      view.PassesNothing symbols offset (walk.step symbols config).1)
    (hdata : (walk.step symbols config).1.isCode = false) {i : Nat} (hi : i < (walk.step symbols config).1.length) :
    (view.known (offset + i)).has .instruction = false ∧
      (symbols.contains ((walk.step symbols config).1.address + UInt32.ofNat i) = true → i = 0) := by
  rcases walk.at_cases hrest with hcode | hwords | hbytes
  · rw [hcode.isCode_step] at hdata
    cases hdata
  · rcases Nat.eq_zero_or_pos i with rfl | hpos
    · exact ⟨by rw [← h.known 0]; exact hwords.plain, fun _ => rfl⟩
    · have hkind : (walk.step symbols config).1.kind = .words := by rw [Walk.step, hwords.bareRow]; rfl
      obtain ⟨hplain, hodd⟩ := hpasses hkind i hpos hi
      refine ⟨hplain, fun hlabel => absurd hlabel (Bool.eq_false_iff.1 ?_)⟩
      rcases Nat.mod_two_eq_zero_or_one i with heven | hsecond
      · obtain ⟨word, rfl⟩ := Nat.dvd_of_mod_eq_zero heven
        have hword : word < wordCount symbols config walk := by have := hwords.lt_wordCount hi; omega
        rw [step_address hrest]
        exact (goesOn_of_lt_wordCount (by omega) hword).2.2.1
      · exact hodd hsecond
  · have hlt := hbytes.lt_byteCount hi
    have hplain := (hbytes.skip hlt).plain
    rw [Walk.known, trace_skip, h.known] at hplain
    refine ⟨hplain, fun hlabel => Nat.eq_zero_of_not_pos fun hpos => ?_⟩
    rw [step_address hrest, (goesOn_of_lt_byteCount hpos hlt).2.2.1] at hlabel
    cases hlabel

end Walk

namespace View

variable {view : View} {symbols : Symbols} {config : Config}

/-! ## Whole listings -/

/-- **Only rows of words that pass over something hide anything.** -/
theorem hidesNothing_of_passesNothing (h : ∀ offset row, RowAt (view.rows symbols config) offset row → row.kind = .words →
    view.PassesNothing symbols offset row) : view.HidesNothing symbols (view.rows symbols config) where
  code index hindex hcode := by
    rw [← (view.rows_covers symbols config).flatMap_raw] at hindex
    obtain ⟨offset, row, hrow, hle, hlt⟩ := RowAt.exists_covering hindex
    refine ⟨offset, row, hrow, hle, hlt, ?_⟩
    by_contra hdata
    obtain ⟨walk, hat, hrest, rfl⟩ := exists_walk_of_rowAt hrow
    obtain ⟨i, rfl⟩ := Nat.exists_eq_add_of_le hle
    have hi : i < (walk.step symbols config).1.length := Nat.lt_of_add_lt_add_left hlt
    have hplain := (hat.shows_of_passesNothing hrest (h offset _ hrow) (Bool.eq_false_iff.2 hdata) hi).1
    rw [hplain] at hcode
    cases hcode
  label row hmem hdata i hi := by
    obtain ⟨offset, hrow⟩ := RowAt.exists_of_mem hmem
    obtain ⟨walk, hat, hrest, rfl⟩ := exists_walk_of_rowAt hrow
    exact (hat.shows_of_passesNothing hrest (h offset _ hrow) hdata hi).2
  shown row hmem := by
    obtain ⟨offset, hrow⟩ := RowAt.exists_of_mem hmem
    obtain ⟨walk, -, -, rfl⟩ := exists_walk_of_rowAt hrow
    rfl

theorem HidesNothing.passesNothing {rows : List Row} (h : view.HidesNothing symbols rows)
    (hbytes : (rows.flatMap Row.raw).length = view.bytes.length) {offset : Nat} {row : Row} (hrow : RowAt rows offset row)
    (hwords : row.kind = .words) : view.PassesNothing symbols offset row := by
  have hdata : row.isCode = false := by simp [Row.isCode, hwords]
  intro i hpos hi
  refine ⟨Bool.eq_false_iff.2 fun hcode => ?_, fun _ => Bool.eq_false_iff.2 fun hlabel => ?_⟩
  · have hindex : offset + i < view.bytes.length := by
      have := hrow.stop_le
      omega
    obtain ⟨offset', row', hrow', hle, hlt, hshown⟩ := h.code (offset + i) hindex hcode
    rw [← hrow.eq_of_covering hrow' (Nat.le_add_right offset i) (Nat.add_lt_add_left hi offset) hle hlt, hdata] at hshown
    cases hshown
  · exact Nat.ne_of_gt hpos (h.label row hrow.mem hdata i hi hlabel)

/-- **What rows of data hide.** A listing hides no code and no label just if no row of words passes over any. -/
theorem hidesNothing_iff (view : View) (symbols : Symbols) (config : Config) :
    view.HidesNothing symbols (view.rows symbols config) ↔
      ∀ offset row, RowAt (view.rows symbols config) offset row → row.kind = .words →
        view.PassesNothing symbols offset row := by
  have hbytes := congrArg List.length (view.rows_covers symbols config).flatMap_raw
  exact ⟨fun h offset row hrow hwords => h.passesNothing hbytes hrow hwords, hidesNothing_of_passesNothing⟩

/-- Nothing is hidden where no word begins at an instruction, or has one or a label behind its first byte. -/
theorem hidesNothing_of_exclusive (view : View) (symbols : Symbols) (config : Config)
    (h : ∀ index, (view.known index).has .wordLo = true → (view.known index).has .instruction = false ∧
      (view.known (index + 1)).has .instruction = false ∧
      symbols.contains (view.start + UInt32.ofNat (index + 1)) = false) :
    view.HidesNothing symbols (view.rows symbols config) := by
  refine hidesNothing_of_passesNothing fun offset row hrow hkind i hpos hi => ?_
  obtain ⟨walk, hat, hrest, rfl⟩ := exists_walk_of_rowAt hrow
  rcases walk.at_cases hrest with hcode | hwords | hbytes
  · exact absurd hkind (hcode.kind_ne symbols config)
  · have hlt := hwords.lt_wordCount hi
    have hlow := hwords.wordLo (by omega : i / 2 < Walk.wordCount symbols config walk)
    rw [hat.known] at hlow
    obtain ⟨hfirst, hsecond, hlabel⟩ := h _ hlow
    rcases Nat.mod_two_eq_zero_or_one i with heven | hodd
    · have hindex : offset + i = offset + 2 * (i / 2) := by omega
      refine ⟨by rwa [hindex], fun hodd => ?_⟩
      omega
    · have hindex : offset + i = offset + 2 * (i / 2) + 1 := by omega
      refine ⟨by rwa [hindex], fun _ => ?_⟩
      rwa [← hindex, ← Address.add_ofNat_add, ← hat.address, ← Walk.step_address hrest] at hlabel
  · simp only [Walk.step, hbytes.bareRow] at hkind
    cases hkind

/-- The label of the byte behind the return of `returnAsWord`. -/
def behindReturn : Symbols := (Symbols.empty defaultStem).insert 0x1003

/-- The return is the second word of a row, and hidden with the label behind it. -/
theorem not_hidesNothing_returnAsWord :
    ¬ returnAsWord.HidesNothing behindReturn (returnAsWord.rows behindReturn .standard) := by
  intro h
  have hwords : (Walk.ofView returnAsWord).AtWords := ⟨rfl, by decide, by decide, by decide⟩
  have hcount : Walk.wordCount behindReturn .standard (Walk.ofView returnAsWord) = 2 := by decide
  have hrow : RowAt (returnAsWord.rows behindReturn .standard) 0
      ((Walk.ofView returnAsWord).step behindReturn .standard).1 := by
    rw [rows_eq_listing, Walk.listing_cons _ _ _ hwords.rest]
    exact .head _ _
  have hbytes := congrArg List.length (returnAsWord.rows_covers behindReturn .standard).flatMap_raw
  simp only [Walk.step, hwords.bareRow, hcount] at hrow
  have hpasses := h.passesNothing hbytes hrow rfl 2 (by decide) (by decide)
  exact absurd hpasses.1 (by decide)

end View

end TraceDisasm
