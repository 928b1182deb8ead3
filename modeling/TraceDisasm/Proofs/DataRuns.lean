import TraceDisasm.Proofs.RowKinds

/-!
# How far a row of data goes

A row of data takes one word or byte after the other and ends at the first place where it has to: at the limit, at the end
of the bytes, before a label, or before a byte that begins something else (`View.EndsWords`, `View.EndsBytes`). The first
word or byte belongs to it in any case. So its length is the least positive number of words or bytes behind which it has to
end (`FirstEnd`), and this settles both that it passes over nothing it should end before and that it does not end without
need.

The operands of a row of data are its bytes once more: `View.data_rows` says this for every row of a listing.
-/

namespace TraceDisasm

/-! ## The words of some bytes -/

namespace Cursor

/-- The two bytes of a word, the low one first. -/
def bytesOf (word : UInt16) : List UInt8 := [word.toUInt8, (word >>> 8).toUInt8]

theorem toNat_wordOf (low high : UInt8) : (wordOf low high).toNat = 256 * high.toNat + low.toNat := by
  have hlow := low.toNat_lt
  have hhigh := high.toNat_lt
  have hshift : (high.toUInt16 <<< 8).toNat = high.toNat * 256 := by
    rw [UInt16.toNat_shiftLeft, UInt8.toNat_toUInt16, Nat.shiftLeft_eq]
    exact Nat.mod_eq_of_lt (show high.toNat * 256 < 65536 by omega)
  have hor : 256 * high.toNat + low.toNat = 256 * high.toNat ||| low.toNat :=
    Nat.two_pow_add_eq_or_of_lt (i := 8) hlow high.toNat
  rw [wordOf, UInt16.toNat_or, UInt8.toNat_toUInt16, hshift, Nat.or_comm, Nat.mul_comm, hor]

theorem bytesOf_wordOf (low high : UInt8) : bytesOf (wordOf low high) = [low, high] := by
  have hword := toNat_wordOf low high
  have hlt := low.toNat_lt
  have hlt' := high.toNat_lt
  have hlow : (wordOf low high).toUInt8 = low := by
    rw [← UInt8.toNat_inj, UInt16.toNat_toUInt8, hword]
    omega
  have hhigh : (wordOf low high >>> 8).toUInt8 = high := by
    rw [← UInt8.toNat_inj, UInt16.toNat_toUInt8, UInt16.toNat_shiftRight, hword, Nat.shiftRight_eq_div_pow]
    show (256 * high.toNat + low.toNat) / 256 % 256 = high.toNat
    omega
  rw [bytesOf, hlow, hhigh]

/-- The words that some bytes make, two by two. -/
def wordsOf : List UInt8 → List UInt16
  | low :: high :: rest => wordOf low high :: wordsOf rest
  | _ => []

theorem length_lt_two {bytes : List UInt8} (hshort : ∀ low high rest, bytes = low :: high :: rest → False) :
    bytes.length < 2 := by
  rcases bytes with _ | ⟨low, _ | ⟨high, rest⟩⟩
  · exact Nat.zero_lt_two
  · exact Nat.one_lt_two
  · exact (hshort low high rest rfl).elim

theorem length_wordsOf (bytes : List UInt8) : (wordsOf bytes).length = bytes.length / 2 := by
  fun_induction wordsOf bytes with
  | case1 low high rest ih =>
    simp only [List.length_cons, ih]
    omega
  | case2 bytes hshort =>
    have hlt := length_lt_two hshort
    rw [List.length_nil]
    omega

theorem flatMap_bytesOf_wordsOf {bytes : List UInt8} (heven : bytes.length % 2 = 0) :
    (wordsOf bytes).flatMap bytesOf = bytes := by
  fun_induction wordsOf bytes with
  | case1 low high rest ih =>
    simp only [List.length_cons] at heven
    rw [List.flatMap_cons, bytesOf_wordOf, ih (by omega)]
    rfl
  | case2 bytes hshort =>
    have hlt := length_lt_two hshort
    have hnil : bytes = [] := List.length_eq_zero_iff.1 (by omega)
    rw [hnil]
    rfl

end Cursor

/-! ## The first place to end -/

/-- The count is the first one, from one on, behind which a row has to end. -/
structure FirstEnd (mustEnd : Nat → Prop) (count : Nat) : Prop where
  pos : 1 ≤ count
  ends : mustEnd count
  goesOn : ∀ i, 1 ≤ i → i < count → ¬ mustEnd i

namespace FirstEnd

variable {mustEnd mustEnd' : Nat → Prop} {count count' limit : Nat}

/-- A row with a limit goes up to the limit at most, but keeps what it starts with. -/
theorem le_max (h : FirstEnd mustEnd count) (hlimit : ∀ i, limit ≤ i → mustEnd i) : count ≤ max 1 limit := by
  by_contra hlong
  exact h.goesOn (count - 1) (by omega) (by omega) (hlimit (count - 1) (by omega))

theorem unique (h : FirstEnd mustEnd count) (h' : FirstEnd mustEnd count') : count = count' := by
  rcases Nat.lt_trichotomy count count' with hlt | heq | hlt
  · exact absurd h.ends (h'.goesOn count h.pos hlt)
  · exact heq
  · exact absurd h'.ends (h.goesOn count' h'.pos hlt)

/-- What lies behind the end of a row has no part in it. -/
theorem congr (h : FirstEnd mustEnd count) (hsame : ∀ i ≤ count, mustEnd i ↔ mustEnd' i) : FirstEnd mustEnd' count where
  pos := h.pos
  ends := (hsame count (Nat.le_refl _)).1 h.ends
  goesOn i hpos hlt := mt (hsame i hlt.le).2 (h.goesOn i hpos hlt)

end FirstEnd

namespace View

/-- The address of the byte behind `index` others. -/
def addressAt (view : View) (index : Nat) : UInt32 := view.start + UInt32.ofNat index

/-- A row of words that starts behind `index` bytes has to end behind `count` words. -/
def EndsWords (view : View) (symbols : Symbols) (config : Config) (index count : Nat) : Prop :=
  config.maxWords ≤ count ∨ view.bytes.length < index + 2 * count + 2 ∨
    symbols.contains (view.addressAt (index + 2 * count)) = true ∨
      (view.known (index + 2 * count)).has .wordLo = false

/-- A row of bytes that starts behind `index` bytes has to end behind `count` bytes of its own. -/
def EndsBytes (view : View) (symbols : Symbols) (config : Config) (index count : Nat) : Prop :=
  config.maxBytes ≤ count ∨ view.bytes.length ≤ index + count ∨
    symbols.contains (view.addressAt (index + count)) = true ∨
      (view.known (index + count)).has .wordLo = true ∨ (view.known (index + count)).has .instruction = true

end View

namespace Walk

variable {symbols : Symbols} {config : Config} {walk : Walk} {view : View} {index : Nat}

/-! ## Where the walk ends a row -/

/-- Behind the words of a row, nothing lets it go on. -/
theorem wordRun_ends (symbols : Symbols) (limit count : Nat) (address : UInt32) (rest : List UInt8) (trace : List Access) :
    ∃ i, wordRun symbols limit count address rest trace = count + i ∧
      (limit ≤ count + i ∨ rest.length < 2 * i + 2 ∨ symbols.contains (address + UInt32.ofNat (2 * i)) = true ∨
        ((trace.drop (2 * i)).headD .none).has .wordLo = false) := by
  fun_induction wordRun symbols limit count address rest trace with
  | case1 count address low high rest trace ends =>
    simp only [Bool.or_eq_true, decide_eq_true_eq, Bool.not_eq_true'] at ends
    refine ⟨0, rfl, ?_⟩
    rcases ends with (hlimit | hlabel) | hword
    · exact .inl hlimit
    · exact .inr (.inr (.inl (by simpa using hlabel)))
    · exact .inr (.inr (.inr hword))
  | case2 count address low high rest trace _ ih =>
    obtain ⟨i, hrun, hends⟩ := ih
    refine ⟨i + 1, by rw [hrun]; omega, ?_⟩
    rw [Nat.mul_succ, Nat.add_comm (2 * i) 2, ← Address.add_ofNat_add, ← List.drop_drop, List.length_cons,
      List.length_cons]
    rcases hends with hlimit | hshort | hother
    · exact .inl (by omega)
    · exact .inr (.inl (by omega))
    · exact .inr (.inr hother)
  | case3 rest count address trace hshort =>
    exact ⟨0, rfl, .inr (.inl (Cursor.length_lt_two hshort))⟩

/-- Behind the bytes of a row, nothing lets it go on. -/
theorem byteRun_ends (symbols : Symbols) (limit count : Nat) (address : UInt32) (rest : List UInt8) (trace : List Access) :
    ∃ i, byteRun symbols limit count address rest trace = count + i ∧
      (limit ≤ count + i ∨ rest.length ≤ i ∨ symbols.contains (address + UInt32.ofNat i) = true ∨
        ((trace.drop i).headD .none).has .wordLo = true ∨ ((trace.drop i).headD .none).has .instruction = true) := by
  induction rest generalizing count address trace with
  | nil => exact ⟨0, rfl, .inr (.inl (Nat.le_refl 0))⟩
  | cons byte rest ih =>
    rw [byteRun]
    split
    · next ends =>
      simp only [Bool.or_eq_true, decide_eq_true_eq] at ends
      refine ⟨0, rfl, ?_⟩
      rcases ends with ((hlimit | hlabel) | hword) | hcode
      · exact .inl hlimit
      · exact .inr (.inr (.inl (by simpa using hlabel)))
      · exact .inr (.inr (.inr (.inl hword)))
      · exact .inr (.inr (.inr (.inr hcode)))
    · obtain ⟨i, hrun, hends⟩ := ih (count + 1) (address + 1) trace.tail
      refine ⟨i + 1, by rw [hrun]; omega, ?_⟩
      rw [Nat.add_comm i 1, ← Address.add_ofNat_add, ← List.drop_drop, List.length_cons, List.drop_one]
      rcases hends with hlimit | hshort | hother
      · exact .inl (by omega)
      · exact .inr (.inl (by omega))
      · exact .inr (.inr hother)

theorem IsAt.addressAt (hat : IsAt view index walk) (i : Nat) :
    walk.cursor.address + UInt32.ofNat i = view.addressAt (index + i) :=
  hat.address_add i

/-- A row of words ends at the first place where it has to. -/
theorem IsAt.firstEnd_words (hat : IsAt view index walk) :
    FirstEnd (view.EndsWords symbols config index) (wordCount symbols config walk) := by
  have hremaining := hat.remaining
  have hle := hat.le
  refine ⟨?_, ?_, ?_⟩
  · exact le_wordRun symbols config.maxWords 1 _ _ _
  · obtain ⟨i, hrun, hends⟩ := wordRun_ends symbols config.maxWords 1 (walk.cursor.address + 2) (walk.cursor.rest.drop 2)
      (walk.trace.drop 2)
    have hindex : index + 2 * (1 + i) = index + (2 + 2 * i) := by omega
    have haddress := hat.addressAt (2 + 2 * i)
    rw [← Address.add_ofNat_add] at haddress
    rw [List.drop_drop, hat.known, List.length_drop] at hends
    rw [wordCount, hrun, View.EndsWords, hindex, ← haddress]
    rw [Cursor.remaining] at hremaining
    rcases hends with hlimit | hshort | hother
    · exact .inl hlimit
    · exact .inr (.inl (by omega))
    · exact .inr (.inr hother)
  · rintro i hpos hlt hends
    obtain ⟨hlimit, hlen, hlabel, hword⟩ := goesOn_of_lt_wordCount hpos hlt
    rw [View.EndsWords, ← hat.addressAt, ← hat.known, hlabel, hword] at hends
    simp only [Bool.false_eq_true, Bool.true_eq_false, or_false] at hends
    omega

/-- A row of bytes ends at the first place where it has to. -/
theorem IsAt.firstEnd_bytes (hat : IsAt view index walk) :
    FirstEnd (view.EndsBytes symbols config index) (byteCount symbols config walk) := by
  have hremaining := hat.remaining
  have hle := hat.le
  refine ⟨?_, ?_, ?_⟩
  · exact le_byteRun symbols config.maxBytes 1 _ _ _
  · obtain ⟨i, hrun, hends⟩ := byteRun_ends symbols config.maxBytes 1 (walk.cursor.address + 1) (walk.cursor.rest.drop 1)
      (walk.trace.drop 1)
    have haddress := hat.addressAt (1 + i)
    rw [← Address.add_ofNat_add] at haddress
    rw [List.drop_drop, hat.known, List.length_drop] at hends
    rw [byteCount, hrun, View.EndsBytes, ← haddress]
    rw [Cursor.remaining] at hremaining
    rcases hends with hlimit | hshort | hother
    · exact .inl hlimit
    · exact .inr (.inl (by omega))
    · exact .inr (.inr hother)
  · rintro i hpos hlt hends
    obtain ⟨hlimit, hlen, hlabel, hword, hplain⟩ := goesOn_of_lt_byteCount hpos hlt
    rw [View.EndsBytes, ← hat.addressAt, ← hat.known, hlabel, hword, hplain] at hends
    simp only [Bool.false_eq_true, or_false] at hends
    omega

/-! ## What the walk puts into a row -/

theorem wordOperands_eq_mapIdx (symbols : Symbols) (bytes : List UInt8) (trace : List Access) :
    wordOperands symbols [] bytes trace = (Cursor.wordsOf bytes).mapIdx fun i word =>
      .word word (if ((trace.drop (2 * i)).headD .none).has .vector then symbols.lookup word.toUInt32 else none) := by
  fun_induction Cursor.wordsOf bytes generalizing trace with
  | case1 low high rest ih =>
    rw [wordOperands_cons, ih, List.mapIdx_cons]
    simp only [List.drop_drop, Nat.mul_succ, Nat.add_comm 2, Nat.mul_zero, List.drop_zero]
  | case2 bytes hshort =>
    rcases bytes with _ | ⟨low, _ | ⟨high, rest⟩⟩
    · rfl
    · rfl
    · exact (hshort low high rest rfl).elim

end Walk

/-! ## The rows of a listing -/

namespace View

variable {view : View} {symbols : Symbols} {config : Config} {row : Row} {index : Nat}

/-- The operand of a word of data that starts behind `index` bytes. It has a label just if its first byte is known as a
vector and the word is a labelled address. -/
def wordOperand (view : View) (symbols : Symbols) (index : Nat) (word : UInt16) : Operand :=
  .word word (if (view.known index).has .vector then symbols.lookup word.toUInt32 else none)

/-- The row shows words, and starts behind `index` bytes of the view. -/
structure WordsRow (view : View) (symbols : Symbols) (config : Config) (index : Nat) (row : Row) (words : List UInt16) :
    Prop where
  raw : row.raw = words.flatMap Cursor.bytesOf
  operands : row.operands = words.mapIdx fun i word => view.wordOperand symbols (index + 2 * i) word
  pos : 1 ≤ words.length
  limit : words.length ≤ max 1 config.maxWords
  /-- Where the row goes on, a word starts that has no label. -/
  goesOn : ∀ i, 1 ≤ i → i < words.length → symbols.contains (view.addressAt (index + 2 * i)) = false ∧
    (view.known (index + 2 * i)).has .wordLo = true
  ends : view.EndsWords symbols config index words.length

/-- The row shows bytes, and starts behind `index` bytes of the view. -/
structure BytesRow (view : View) (symbols : Symbols) (config : Config) (index : Nat) (row : Row) : Prop where
  operands : row.operands = row.raw.map .byte
  pos : 1 ≤ row.length
  limit : row.length ≤ max 1 config.maxBytes
  /-- Where the row goes on, there is a byte that begins nothing else and has no label. -/
  goesOn : ∀ i, 1 ≤ i → i < row.length → symbols.contains (view.addressAt (index + i)) = false ∧
    (view.known (index + i)).has .wordLo = false ∧ (view.known (index + i)).has .instruction = false
  ends : view.EndsBytes symbols config index row.length

theorem wordsRow_of_isAt {walk : Walk} (hat : Walk.IsAt view index walk) (hwords : walk.AtWords) :
    ∃ words, view.WordsRow symbols config index (walk.step symbols config).1 words := by
  have hend : FirstEnd (view.EndsWords symbols config index) _ := hat.firstEnd_words
  have hlength : (walk.cursor.rest.take (2 * Walk.wordCount symbols config walk)).length =
      2 * Walk.wordCount symbols config walk := hwords.length (Nat.le_refl _)
  rw [Walk.step, hwords.bareRow]
  generalize Walk.wordCount symbols config walk = count at hend hlength
  have hcount : (Cursor.wordsOf (walk.cursor.rest.take (2 * count))).length = count := by
    rw [Cursor.length_wordsOf, hlength]
    omega
  refine ⟨Cursor.wordsOf (walk.cursor.rest.take (2 * count)), ?_, ?_, ?_, ?_, ?_, ?_⟩
  · have heven : (walk.cursor.rest.take (2 * count)).length % 2 = 0 := by omega
    exact (Cursor.flatMap_bytesOf_wordsOf heven).symm
  · show Walk.wordOperands symbols [] (walk.cursor.rest.take (2 * count)) walk.trace = _
    rw [Walk.wordOperands_eq_mapIdx]
    simp only [hat.known, wordOperand]
  · rw [hcount]
    exact hend.pos
  · rw [hcount]
    exact hend.le_max fun i hlimit => .inl hlimit
  · rw [hcount]
    intro i hpos hlt
    have hgoesOn := hend.goesOn i hpos hlt
    simp only [EndsWords, not_or, Bool.not_eq_true, Bool.not_eq_false] at hgoesOn
    exact ⟨hgoesOn.2.2.1, hgoesOn.2.2.2⟩
  · rw [hcount]
    exact hend.ends

theorem bytesRow_of_isAt {walk : Walk} (hat : Walk.IsAt view index walk) (hbytes : walk.AtBytes) :
    view.BytesRow symbols config index (walk.step symbols config).1 := by
  have hend : FirstEnd (view.EndsBytes symbols config index) _ := hat.firstEnd_bytes
  have hlength : (walk.step symbols config).1.length = Walk.byteCount symbols config walk := by
    rw [Walk.step, hbytes.bareRow]
    exact hbytes.length symbols config
  refine ⟨?_, ?_, ?_, ?_, ?_⟩
  · rw [Walk.step, hbytes.bareRow]
    rfl
  · rw [hlength]
    exact hend.pos
  · rw [hlength]
    exact hend.le_max fun i hlimit => .inl hlimit
  · rw [hlength]
    intro i hpos hlt
    have hgoesOn := hend.goesOn i hpos hlt
    simp only [EndsBytes, not_or, Bool.not_eq_true] at hgoesOn
    exact hgoesOn.2.2
  · rw [hlength]
    exact hend.ends

/-- **Rows of data.** Every row of words or bytes of a listing shows the bytes of the view from its address on, goes on only
over what may stand in it, and ends only where it has to. -/
theorem data_rows (bound : view.start.toNat + view.bytes.length < 2 ^ 32) (hmem : row ∈ view.rows symbols config) :
    ∃ index, row.address.toNat = view.start.toNat + index ∧
      row.raw = (view.bytes.drop index).take row.length ∧
      (row.kind = .words → ∃ words, view.WordsRow symbols config index row words) ∧
      (row.kind = .bytes → view.BytesRow symbols config index row) := by
  obtain ⟨index, walk, hat, hrest, rfl⟩ := View.exists_walk_of_mem hmem
  obtain ⟨count, hreads⟩ := Walk.step_reads symbols config walk hrest
  refine ⟨index, ?_, ?_, ?_, ?_⟩
  · rw [Walk.step_address hrest, hat.toNat_address bound]
  · rw [hreads.length, hreads.2.2.2.1, hat.rest]
  · intro hkind
    rcases Walk.step_kind_cases symbols config hrest with ⟨-, hcode⟩ | ⟨hwords, -⟩ | ⟨-, hbytes⟩
    · simp [Row.isCode, hkind] at hcode
    · exact wordsRow_of_isAt hat hwords
    · rw [hkind] at hbytes
      cases hbytes
  · intro hkind
    rcases Walk.step_kind_cases symbols config hrest with ⟨-, hcode⟩ | ⟨-, hwords⟩ | ⟨hbytes, -⟩
    · simp [Row.isCode, hkind] at hcode
    · rw [hkind] at hwords
      cases hwords
    · exact bytesRow_of_isAt hat hbytes

/-- A vector to `0x1000`, a word, and a byte that is left. -/
def vectorAndWord : View :=
  ⟨0x2102, [0x00, 0x10, 0x34, 0x12, 0x99], [.ofFlags [.wordLo, .vector], .none, .ofFlags [.wordLo]]⟩

/-- A label at `0x1000`. -/
def entryLabel : Symbols := (Symbols.empty defaultStem).insert 0x1000

/-- The row of the words of `vectorAndWord`. The first of them shows the label that it leads to. -/
def vectorRow : Row :=
  ⟨0x2102, .words, "DW", [.word 0x1000 (some "loc_1000"), .word 0x1234 none], [0x00, 0x10, 0x34, 0x12], none⟩

theorem data_rows_vectorAndWord :
    vectorAndWord.start.toNat + vectorAndWord.bytes.length < 2 ^ 32 ∧
      vectorRow ∈ vectorAndWord.rows entryLabel .standard ∧
      ∃ words, vectorAndWord.WordsRow entryLabel .standard 0 vectorRow words := by
  have bound : vectorAndWord.start.toNat + vectorAndWord.bytes.length < 2 ^ 32 := by decide
  have hrows : vectorAndWord.rows entryLabel .standard =
      [vectorRow, ⟨0x2106, .bytes, "DB", [.byte 0x99], [0x99], none⟩] := by
    decide +kernel
  have hmem : vectorRow ∈ vectorAndWord.rows entryLabel .standard := by
    rw [hrows]
    exact List.mem_cons_self
  obtain ⟨index, haddress, -, hwords, -⟩ := data_rows bound hmem
  have hindex : index = 0 := by
    have hstart : vectorRow.address.toNat = vectorAndWord.start.toNat := rfl
    omega
  exact ⟨bound, hmem, hindex ▸ hwords rfl⟩

end View

end TraceDisasm
