import TraceDisasm.Proofs.OperandLabels

/-!
# Limits on rows of data

How many words or bytes stand in one row is a matter of presentation, and two listings that differ in nothing else should
say the same of every byte (`SameReading`). Whether they do is seen by comparison with the finest listing, which has one
word or byte in a row of data. There every word and byte is looked at as the start of a row.

A longer row of bytes ends before every byte that begins something else, so it falls apart into rows of the finest listing.
A longer row of words does not: it goes on over a byte that is known as the low byte of a word, also if that byte is known
as an instruction. Where no row of words does this, a listing says what the finest one says, and where a row does, it says
something else (`Walk.listing_finest_iff`). So the limits are presentation only for listings without such a row
(`View.sameReading_iff_avoidsCode`), and so for every listing of a view in which no byte is known as both
(`View.sameReading_of_exclusive`). Other listings depend on them (`View.reading_depends_on_limit`).
-/

namespace TraceDisasm

/-! ## What a listing says -/

/-- What each byte of a row is shown as. -/
def Row.kinds (row : Row) : List RowKind := List.replicate row.length row.kind

/-- Whether a row shows bytes that have been decoded. -/
def Row.isCode (row : Row) : Bool := row.kind = .instruction ∨ row.kind = .illegal

/-- Two listings say the same of every byte. -/
structure SameReading (rows rows' : List Row) : Prop where
  /-- The kind of every byte, in order. -/
  kinds : rows.flatMap Row.kinds = rows'.flatMap Row.kinds
  code : rows.filter Row.isCode = rows'.filter Row.isCode
  /-- All operands in order, and so the words and the bytes among them. -/
  operands : rows.flatMap Row.operands = rows'.flatMap Row.operands

namespace SameReading

variable {a b c a' b' : List Row}

theorem refl (a : List Row) : SameReading a a := ⟨rfl, rfl, rfl⟩

theorem symm (h : SameReading a b) : SameReading b a := ⟨h.kinds.symm, h.code.symm, h.operands.symm⟩

theorem trans (h : SameReading a b) (h' : SameReading b c) : SameReading a c :=
  ⟨h.kinds.trans h'.kinds, h.code.trans h'.code, h.operands.trans h'.operands⟩

theorem append (h : SameReading a b) (h' : SameReading a' b') : SameReading (a ++ a') (b ++ b') where
  kinds := by rw [List.flatMap_append, List.flatMap_append, h.kinds, h'.kinds]
  code := by rw [List.filter_append, List.filter_append, h.code, h'.code]
  operands := by rw [List.flatMap_append, List.flatMap_append, h.operands, h'.operands]

theorem of_append (h : SameReading (a ++ a') (b ++ b')) (hfirst : SameReading a b) : SameReading a' b' where
  kinds := by
    have := h.kinds
    rwa [List.flatMap_append, List.flatMap_append, hfirst.kinds, List.append_right_inj] at this
  code := by
    have := h.code
    rwa [List.filter_append, List.filter_append, hfirst.code, List.append_right_inj] at this
  operands := by
    have := h.operands
    rwa [List.flatMap_append, List.flatMap_append, hfirst.operands, List.append_right_inj] at this

/-- The label of a row of data tells nothing of its bytes. -/
theorem of_label {row : Row} (hdata : row.isCode = false) (label : Option String) :
    SameReading [{ row with label := label }] [row] := by
  have hlabel : Row.isCode { row with label := label } = false := hdata
  refine ⟨rfl, ?_, rfl⟩
  rw [List.filter_singleton, List.filter_singleton, hdata, hlabel]
  rfl

end SameReading

/-- No word of the row starts at a byte that is known as an instruction. The bytes of the row are those of which `trace`
tells first. -/
def Row.AvoidsCode (row : Row) (trace : List Access) : Prop :=
  row.kind = .words → ∀ i, 2 * i < row.length → ((trace.drop (2 * i)).headD .none).has .instruction = false

/-- No word of the rows starts at a byte that is known as an instruction. -/
def AvoidsCode : List Access → List Row → Prop
  | _, [] => True
  | trace, row :: rows => row.AvoidsCode trace ∧ AvoidsCode (trace.drop row.length) rows

/-- One word or byte in each row of data. -/
def Config.finest : Config := ⟨1, 1, defaultStem⟩

namespace Walk

variable {symbols : Symbols} {config : Config} {walk : Walk}

@[simp] theorem cursor_skip (walk : Walk) (n : Nat) : (walk.skip n).cursor = walk.cursor.skip n := rfl

@[simp] theorem trace_skip (walk : Walk) (n : Nat) : (walk.skip n).trace = walk.trace.drop n := rfl

@[simp] theorem skip_skip (walk : Walk) (m n : Nat) : (walk.skip m).skip n = walk.skip (m + n) := by
  simp [skip]

theorem skip_zero (h : walk.inCode = false) : walk.skip 0 = walk := by
  obtain ⟨cursor, trace, jumpPage, inCode⟩ := walk
  simp_all [skip]

/-! ## How far a row of data goes -/

/-- A row of words goes on over words without a label, and only up to the limit. -/
theorem goesOn_of_lt_wordRun {limit count : Nat} {address : UInt32} {rest : List UInt8} {trace : List Access} {i : Nat}
    (h : count + i < wordRun symbols limit count address rest trace) :
    count + i < limit ∧ 2 * i + 2 ≤ rest.length ∧ symbols.contains (address + UInt32.ofNat (2 * i)) = false ∧
      ((trace.drop (2 * i)).headD .none).has .wordLo = true := by
  fun_induction wordRun symbols limit count address rest trace generalizing i with
  | case1 => omega
  | case2 count address low high rest trace goesOn ih =>
    cases i with
    | zero =>
      simp only [Bool.or_eq_true, not_or, Bool.not_eq_true, Bool.not_eq_false', decide_eq_true_eq] at goesOn
      exact ⟨by omega, by simp, by simpa using goesOn.1.2, goesOn.2⟩
    | succ i =>
      obtain ⟨hlimit, hlen, hlabel, hword⟩ := ih (i := i) (by omega)
      rw [List.drop_drop] at hword
      rw [Nat.mul_succ, Nat.add_comm (2 * i), ← Address.add_ofNat_add, List.length_cons, List.length_cons]
      exact ⟨by omega, by omega, hlabel, hword⟩
  | case3 => omega

/-- A row of bytes goes on over bytes that begin nothing else and have no label, and only up to the limit. -/
theorem goesOn_of_lt_byteRun {limit count : Nat} {address : UInt32} {rest : List UInt8} {trace : List Access} {i : Nat}
    (h : count + i < byteRun symbols limit count address rest trace) :
    count + i < limit ∧ i < rest.length ∧ symbols.contains (address + UInt32.ofNat i) = false ∧
      ((trace.drop i).headD .none).has .wordLo = false ∧ ((trace.drop i).headD .none).has .instruction = false := by
  induction rest generalizing count address trace i with
  | nil =>
    rw [byteRun] at h
    omega
  | cons byte rest ih =>
    rw [byteRun] at h
    split at h
    · omega
    · next goesOn =>
      cases i with
      | zero =>
        simp only [Bool.or_eq_true, not_or, Bool.not_eq_true, decide_eq_true_eq] at goesOn
        exact ⟨by omega, by simp, by simpa using goesOn.1.1.2, goesOn.1.2, goesOn.2⟩
      | succ i =>
        obtain ⟨hlimit, hlen, hlabel, hplain⟩ := ih (by rwa [Nat.add_comm i, ← Nat.add_assoc] at h)
        rw [List.drop_tail] at hplain
        rw [Nat.add_comm i, ← Address.add_ofNat_add, Nat.add_comm 1, List.length_cons]
        exact ⟨by omega, by omega, hlabel, hplain⟩

/-! ## What a row starts with -/

/-- What is known about the next byte. -/
def known (walk : Walk) : Access := walk.trace.headD .none

/-- The next row is one of words. -/
structure AtWords (walk : Walk) : Prop where
  data : walk.inCode = false
  plain : walk.known.has .instruction = false
  two : 2 ≤ walk.cursor.remaining
  word : walk.known.has .wordLo = true

/-- The next row is one of bytes. -/
structure AtBytes (walk : Walk) : Prop where
  data : walk.inCode = false
  plain : walk.known.has .instruction = false
  rest : walk.cursor.rest ≠ []
  byte : (walk.cursor.hasWord && walk.known.has .wordLo) = false

/-- The next row is one of code. -/
def AtCode (walk : Walk) : Prop := walk.inCode = true ∨ walk.known.has .instruction = true

theorem at_cases (walk : Walk) (h : walk.cursor.rest ≠ []) : walk.AtCode ∨ walk.AtWords ∨ walk.AtBytes := by
  unfold AtCode
  rcases hcode : walk.inCode with _ | _
  · rcases hplain : walk.known.has .instruction with _ | _
    · rcases hword : (walk.cursor.hasWord && walk.known.has .wordLo) with _ | _
      · exact .inr (.inr ⟨hcode, hplain, h, hword⟩)
      · rw [Bool.and_eq_true, Cursor.hasWord_eq_true_iff] at hword
        exact .inr (.inl ⟨hcode, hplain, hword.1, hword.2⟩)
    · exact .inl (.inr rfl)
  · exact .inl (.inl rfl)

/-- Number of words in a row of words. -/
def wordCount (symbols : Symbols) (config : Config) (walk : Walk) : Nat :=
  wordRun symbols config.maxWords 1 (walk.cursor.address + 2) (walk.cursor.rest.drop 2) (walk.trace.drop 2)

/-- Number of bytes in a row of bytes. -/
def byteCount (symbols : Symbols) (config : Config) (walk : Walk) : Nat :=
  byteRun symbols config.maxBytes 1 (walk.cursor.address + 1) (walk.cursor.rest.drop 1) (walk.trace.drop 1)

/-- A row of words goes on behind its first one only over words without a label that are within the limit. -/
theorem goesOn_of_lt_wordCount {i : Nat} (hpos : 0 < i) (hi : i < wordCount symbols config walk) :
    i < config.maxWords ∧ 2 * i + 2 ≤ walk.cursor.remaining ∧
      symbols.contains (walk.cursor.address + UInt32.ofNat (2 * i)) = false ∧
      ((walk.trace.drop (2 * i)).headD .none).has .wordLo = true := by
  obtain ⟨j, rfl⟩ := Nat.exists_eq_add_of_le hpos
  obtain ⟨hlimit, hlen, hlabel, hword⟩ := goesOn_of_lt_wordRun hi
  rw [List.length_drop] at hlen
  rw [List.drop_drop] at hword
  rw [Nat.mul_add, ← Address.add_ofNat_add, Cursor.remaining]
  exact ⟨hlimit, by omega, hlabel, hword⟩

/-- A row of bytes goes on behind its first one only over bytes that begin nothing else, have no label, and are within the
limit. -/
theorem goesOn_of_lt_byteCount {i : Nat} (hpos : 0 < i) (hi : i < byteCount symbols config walk) :
    i < config.maxBytes ∧ i < walk.cursor.remaining ∧
      symbols.contains (walk.cursor.address + UInt32.ofNat i) = false ∧
      ((walk.trace.drop i).headD .none).has .wordLo = false ∧
      ((walk.trace.drop i).headD .none).has .instruction = false := by
  obtain ⟨j, rfl⟩ := Nat.exists_eq_add_of_le hpos
  obtain ⟨hlimit, hlen, hlabel, hplain⟩ := goesOn_of_lt_byteRun hi
  rw [List.length_drop] at hlen
  rw [List.drop_drop] at hplain
  rw [← Address.add_ofNat_add, Cursor.remaining]
  exact ⟨hlimit, by omega, hlabel, hplain⟩

/-- A row of the next `count` words. -/
def wordsAhead (symbols : Symbols) (walk : Walk) (count : Nat) : Row :=
  ⟨walk.cursor.address, .words, Row.wordsMnemonic, wordOperands symbols [] (walk.cursor.rest.take (2 * count)) walk.trace,
    walk.cursor.rest.take (2 * count), none⟩

/-- A row of the next `count` bytes. -/
def bytesAhead (walk : Walk) (count : Nat) : Row :=
  ⟨walk.cursor.address, .bytes, Row.bytesMnemonic, (walk.cursor.rest.take count).map .byte, walk.cursor.rest.take count,
    none⟩

theorem AtCode.bareRow (h : walk.AtCode) : walk.bareRow symbols config = walk.instructionRow symbols := by
  unfold Walk.bareRow
  exact if_pos (by simpa [known, AtCode] using h)

theorem AtWords.bareRow (h : walk.AtWords) : walk.bareRow symbols config =
    (wordsAhead symbols walk (wordCount symbols config walk), walk.skip (2 * wordCount symbols config walk)) := by
  have hword := (Cursor.hasWord_eq_true_iff walk.cursor).2 h.two
  have hplain : (walk.inCode || walk.known.has .instruction) = false := by rw [h.data, h.plain]; rfl
  unfold Walk.bareRow
  exact (if_neg (by simpa [known] using hplain)).trans (if_pos (by simpa [hword, known] using h.word))

theorem AtBytes.bareRow (h : walk.AtBytes) : walk.bareRow symbols config =
    (bytesAhead walk (byteCount symbols config walk), walk.skip (byteCount symbols config walk)) := by
  have hplain : (walk.inCode || walk.known.has .instruction) = false := by rw [h.data, h.plain]; rfl
  unfold Walk.bareRow
  exact (if_neg (by simpa [known] using hplain)).trans (if_neg (by simpa [known] using h.byte))

/-! ## Rows of the finest listing -/

/-- A row of `count` units falls apart into rows of one unit each, if a row of units starts at each of them. -/
theorem exists_pieces {At : Walk → Prop} {ahead : Walk → Nat → Row} {width : Nat}
    (hdata : ∀ walk count, (ahead walk count).isCode = false)
    (hrest : ∀ walk, At walk → walk.cursor.rest ≠ [])
    (hstep : ∀ walk, At walk → walk.bareRow symbols .finest = (ahead walk 1, walk.skip width))
    (hnil : ∀ walk, SameReading [] [ahead walk 0])
    (hcons : ∀ walk count, At walk →
      SameReading ([ahead walk 1] ++ [ahead (walk.skip width) count]) [ahead walk (count + 1)])
    (count : Nat) (walk : Walk) (hin : walk.inCode = false) (hat : ∀ i < count, At (walk.skip (width * i))) :
    ∃ rows, walk.listing symbols .finest = rows ++ (walk.skip (width * count)).listing symbols .finest ∧
      SameReading rows [ahead walk count] := by
  induction count generalizing walk with
  | zero => exact ⟨[], by rw [Nat.mul_zero, skip_zero hin, List.nil_append], hnil walk⟩
  | succ count ih =>
    have hfirst : At walk := by simpa [skip_zero hin] using hat 0 (Nat.succ_pos _)
    obtain ⟨rows, hrows, hsame⟩ := ih (walk.skip width) rfl fun i hi => by
      have := hat (i + 1) (Nat.succ_lt_succ hi)
      rwa [Nat.mul_succ, Nat.add_comm, ← skip_skip] at this
    have hnext : walk.step symbols .finest = ((ahead walk 1).withLabel symbols, walk.skip width) := by
      unfold step
      rw [hstep walk hfirst]
    refine ⟨(ahead walk 1).withLabel symbols :: rows, ?_, ?_⟩
    · rw [listing_cons symbols .finest walk (hrest walk hfirst), hnext, hrows, skip_skip, Nat.mul_succ, Nat.add_comm]
      rfl
    · exact ((SameReading.of_label (hdata walk 1) _).append hsame).trans (hcons walk count hfirst)

theorem AtWords.rest (h : walk.AtWords) : walk.cursor.rest ≠ [] := by
  intro hnil
  have := h.two
  simp [Cursor.remaining, hnil] at this

theorem AtWords.sameReading (h : walk.AtWords) (count : Nat) :
    SameReading ([wordsAhead symbols walk 1] ++ [wordsAhead symbols (walk.skip 2) count])
      [wordsAhead symbols walk (count + 1)] := by
  obtain ⟨⟨start, index, rest⟩, trace, jumpPage, inCode⟩ := walk
  have htwo := h.two
  match rest with
  | [] | [_] => simp [Cursor.remaining] at htwo
  | low :: high :: rest =>
    refine ⟨?_, rfl, ?_⟩
    · simp [wordsAhead, Row.kinds, Row.length, Cursor.skip, Nat.mul_succ, List.replicate_succ]
    · simp [wordsAhead, Cursor.skip, Nat.mul_succ, wordOperands_cons, wordOperands]

theorem AtBytes.sameReading (h : walk.AtBytes) (count : Nat) :
    SameReading ([bytesAhead walk 1] ++ [bytesAhead (walk.skip 1) count]) [bytesAhead walk (count + 1)] := by
  obtain ⟨⟨start, index, rest⟩, trace, jumpPage, inCode⟩ := walk
  have hrest := h.rest
  match rest with
  | [] => exact absurd rfl hrest
  | byte :: rest =>
    refine ⟨?_, rfl, ?_⟩
    · simp [bytesAhead, Row.kinds, Row.length, Cursor.skip, List.replicate_succ]
    · simp [bytesAhead, Cursor.skip]

theorem exists_words (symbols : Symbols) (count : Nat) (hin : walk.inCode = false)
    (hat : ∀ i < count, (walk.skip (2 * i)).AtWords) :
    ∃ rows, walk.listing symbols .finest = rows ++ (walk.skip (2 * count)).listing symbols .finest ∧
      SameReading rows [wordsAhead symbols walk count] := by
  refine exists_pieces (fun _ _ => rfl) (fun _ h => h.rest) ?_ (fun _ => ⟨rfl, rfl, rfl⟩)
    (fun _ count h => h.sameReading count) count walk hin hat
  intro walk h
  have hone : wordCount symbols .finest walk = 1 := wordRun_of_le (Nat.le_refl 1) ..
  rw [h.bareRow, hone]

theorem exists_bytes (symbols : Symbols) (count : Nat) (hin : walk.inCode = false)
    (hat : ∀ i < count, (walk.skip i).AtBytes) :
    ∃ rows, walk.listing symbols .finest = rows ++ (walk.skip count).listing symbols .finest ∧
      SameReading rows [bytesAhead walk count] := by
  have hone : ∀ walk, AtBytes walk → walk.bareRow symbols .finest = (bytesAhead walk 1, walk.skip 1) := by
    intro walk h
    have hcount : byteCount symbols .finest walk = 1 := byteRun_of_le (Nat.le_refl 1) ..
    rw [h.bareRow, hcount]
  have pieces := exists_pieces (fun _ _ => rfl) (fun _ h => h.rest) hone (fun _ => ⟨rfl, rfl, rfl⟩)
    (fun _ count h => h.sameReading count) count walk hin
  simp only [Nat.one_mul] at pieces
  exact pieces hat

/-! ## A row against the finest listing -/

/-- All words of a row are known as words. -/
theorem AtWords.wordLo (h : walk.AtWords) {i : Nat} (hi : i < wordCount symbols config walk) :
    ((walk.trace.drop (2 * i)).headD .none).has .wordLo = true := by
  cases i with
  | zero => exact h.word
  | succ i => exact (goesOn_of_lt_wordCount i.succ_pos hi).2.2.2

theorem AtWords.skip (h : walk.AtWords) {i : Nat} (hi : i < wordCount symbols config walk)
    (hplain : ((walk.trace.drop (2 * i)).headD .none).has .instruction = false) : (walk.skip (2 * i)).AtWords := by
  refine ⟨rfl, hplain, ?_, h.wordLo hi⟩
  cases i with
  | zero => simpa using h.two
  | succ i =>
    obtain ⟨-, hlen, -, -⟩ := goesOn_of_lt_wordCount i.succ_pos hi
    rw [cursor_skip, Cursor.remaining_skip]
    omega

theorem AtBytes.skip (h : walk.AtBytes) {i : Nat} (hi : i < byteCount symbols config walk) :
    (walk.skip i).AtBytes := by
  cases i with
  | zero => rwa [skip_zero h.data]
  | succ i =>
    obtain ⟨-, hlen, -, hword, hplain⟩ := goesOn_of_lt_byteCount i.succ_pos hi
    refine ⟨rfl, hplain, ?_, ?_⟩
    · rw [cursor_skip, Cursor.rest_skip, ne_eq, List.drop_eq_nil_iff]
      exact Nat.not_le_of_lt hlen
    · rw [known, trace_skip, hword, Bool.and_false]

theorem AtWords.length (h : walk.AtWords) {i : Nat} (hi : i ≤ wordCount symbols config walk) :
    (wordsAhead symbols walk i).length = 2 * i := by
  have htwo := h.two
  have hle := wordRun_le symbols config.maxWords 1 (walk.cursor.address + 2) (walk.cursor.rest.drop 2) (walk.trace.drop 2)
  rw [List.length_drop] at hle
  rw [Cursor.remaining] at htwo
  rw [wordCount] at hi
  simp only [Row.length, wordsAhead, List.length_take]
  omega

theorem AtBytes.length (h : walk.AtBytes) (symbols : Symbols) (config : Config) :
    (bytesAhead walk (byteCount symbols config walk)).length = byteCount symbols config walk := by
  have hle := byteRun_le symbols config.maxBytes 1 (walk.cursor.address + 1) (walk.cursor.rest.drop 1) (walk.trace.drop 1)
  have hpos := List.length_pos_iff.2 h.rest
  rw [List.length_drop] at hle
  rw [Row.length, bytesAhead, List.length_take, byteCount]
  omega

theorem isCode_instructionRow (symbols : Symbols) (walk : Walk) : (walk.instructionRow symbols).1.isCode = true := by
  simp only [instructionRow, Instruction.decode]
  split
  · rfl
  · split <;> rfl

theorem AtCode.kind_ne (h : walk.AtCode) (symbols : Symbols) (config : Config) :
    (walk.step symbols config).1.kind ≠ .words := by
  intro hkind
  have hcode := isCode_instructionRow symbols walk
  simp only [step, h.bareRow, Row.withLabel_kind] at hkind
  simp [Row.isCode, hkind] at hcode

/-- A row that avoids code is made of rows of the finest listing. -/
theorem exists_finest_rows (h : walk.cursor.rest ≠ []) (havoids : (walk.step symbols config).1.AvoidsCode walk.trace) :
    ∃ rows, walk.listing symbols .finest = rows ++ (walk.step symbols config).2.listing symbols .finest ∧
      SameReading rows [(walk.step symbols config).1] := by
  rcases walk.at_cases h with hcode | hwords | hbytes
  · refine ⟨[(walk.step symbols config).1], ?_, .refl _⟩
    rw [listing_cons symbols .finest walk h, step, step, hcode.bareRow, hcode.bareRow]
    rfl
  · rw [step, hwords.bareRow] at havoids ⊢
    have hat : ∀ i < wordCount symbols config walk, (walk.skip (2 * i)).AtWords := fun i hi => by
      refine hwords.skip hi (havoids rfl i ?_)
      show 2 * i < (wordsAhead symbols walk (wordCount symbols config walk)).length
      rw [hwords.length (Nat.le_refl _)]
      omega
    obtain ⟨rows, hrows, hsame⟩ := exists_words symbols _ hwords.data hat
    exact ⟨rows, hrows, hsame.trans (SameReading.of_label rfl _).symm⟩
  · rw [step, hbytes.bareRow]
    obtain ⟨rows, hrows, hsame⟩ := exists_bytes symbols (byteCount symbols config walk) hbytes.data
      fun i hi => hbytes.skip hi
    exact ⟨rows, hrows, hsame.trans (SameReading.of_label rfl _).symm⟩

/-- Code is not shown as words. -/
theorem AtCode.kinds_ne (h : walk.AtCode) (hrest : walk.cursor.rest ≠ []) (kinds : List RowKind) :
    (walk.listing symbols config).flatMap Row.kinds ≠ .words :: kinds := by
  obtain ⟨count, hreads⟩ := step_reads symbols config walk hrest
  obtain ⟨more, rfl⟩ := Nat.exists_eq_add_of_le' hreads.1
  rw [listing_cons symbols config walk hrest, List.flatMap_cons, Row.kinds, hreads.length, List.replicate_succ]
  intro heq
  exact h.kind_ne symbols config (List.cons.inj heq).1

/-- If the finest listing shows all bytes of a row of words as words, then none of the words starts at code. -/
theorem AtWords.plain_of_kinds (h : walk.AtWords) {kinds : List RowKind}
    (hkinds : (walk.listing symbols .finest).flatMap Row.kinds =
      List.replicate (2 * wordCount symbols config walk) .words ++ kinds) {i : Nat}
    (hi : i < wordCount symbols config walk) : ((walk.trace.drop (2 * i)).headD .none).has .instruction = false := by
  induction i using Nat.strongRecOn with
  | ind i ih =>
    -- the words before this one are rows of the finest listing, which goes on behind them
    obtain ⟨pieces, hpieces, hsame⟩ := exists_words symbols i h.data fun j hj =>
      h.skip (Nat.lt_trans hj hi) (ih j hj (Nat.lt_trans hj hi))
    have hpiecesKinds : pieces.flatMap Row.kinds = List.replicate (2 * i) .words := by
      rw [hsame.kinds, List.flatMap_singleton, Row.kinds, h.length (Nat.le_of_lt hi)]
      rfl
    obtain ⟨more, hmore⟩ := Nat.exists_eq_add_of_lt hi
    have hsplit : 2 * wordCount symbols config walk = 2 * i + (2 * more + 1 + 1) := by omega
    rw [hpieces, List.flatMap_append, hpiecesKinds, hsplit, List.replicate_add, List.append_assoc,
      List.append_right_inj, List.replicate_succ, List.cons_append] at hkinds
    by_contra hcode
    have hrest : (walk.skip (2 * i)).cursor.rest ≠ [] := fun hnil => by
      rw [listing_nil symbols .finest _ hnil] at hkinds
      cases hkinds
    exact AtCode.kinds_ne (.inr (by simpa [known] using hcode)) hrest _ hkinds

/-- A row that runs over code is not what the finest listing shows. -/
theorem avoidsCode_of_kinds (h : walk.cursor.rest ≠ []) {rows : List Row}
    (hkinds : ((walk.step symbols config).1 :: rows).flatMap Row.kinds =
      (walk.listing symbols .finest).flatMap Row.kinds) :
    (walk.step symbols config).1.AvoidsCode walk.trace := by
  rcases walk.at_cases h with hcode | hwords | hbytes
  · exact fun hkind => absurd hkind (hcode.kind_ne symbols config)
  · have hlength := hwords.length (Nat.le_refl (wordCount symbols config walk))
    simp only [step, hwords.bareRow] at hkinds ⊢
    rw [List.flatMap_cons, Row.kinds, Row.length, Row.withLabel_raw, Row.withLabel_kind] at hkinds
    intro _ i (hi : 2 * i < (wordsAhead symbols walk (wordCount symbols config walk)).length)
    rw [Row.length] at hlength
    rw [hlength] at hkinds
    exact hwords.plain_of_kinds hkinds.symm (by rw [Row.length] at hi; omega)
  · simp only [step, hbytes.bareRow]
    exact fun hkind => by cases hkind

/-- **A listing says what the finest one says just if its rows of words avoid code.** -/
theorem listing_finest_iff (symbols : Symbols) (config : Config) (walk : Walk) :
    SameReading (walk.listing symbols config) (walk.listing symbols .finest) ↔
      AvoidsCode walk.trace (walk.listing symbols config) := by
  refine listing_induct symbols config (P := fun walk rows =>
    SameReading rows (walk.listing symbols .finest) ↔ AvoidsCode walk.trace rows) ?_ ?_ walk
  · intro walk h
    rw [listing_nil symbols .finest walk h]
    exact ⟨fun _ => trivial, fun _ => .refl _⟩
  · intro walk h ih
    obtain ⟨count, hreads⟩ := step_reads symbols config walk h
    have hlength := hreads.length
    obtain ⟨-, -, -, -, -, htrace⟩ := hreads
    rw [AvoidsCode, hlength, ← htrace, ← ih]
    constructor
    · intro hsame
      have havoids := avoidsCode_of_kinds h hsame.kinds
      obtain ⟨pieces, hpieces, hpiecesSame⟩ := exists_finest_rows h havoids
      rw [hpieces] at hsame
      exact ⟨havoids, SameReading.of_append hsame hpiecesSame.symm⟩
    · rintro ⟨havoids, hsame⟩
      obtain ⟨pieces, hpieces, hpiecesSame⟩ := exists_finest_rows h havoids
      rw [hpieces]
      exact hpiecesSame.symm.append hsame

/-- Where nothing is known as the low byte of a word and as an instruction too, rows of words avoid code. -/
theorem avoidsCode_of_exclusive (symbols : Symbols) (config : Config) (walk : Walk)
    (h : ∀ word ∈ walk.trace, word.has .wordLo = true → word.has .instruction = false) :
    AvoidsCode walk.trace (walk.listing symbols config) := by
  refine listing_induct symbols config (P := fun walk rows =>
    (∀ word ∈ walk.trace, word.has .wordLo = true → word.has .instruction = false) → AvoidsCode walk.trace rows)
    ?_ ?_ walk h
  · intro walk _ _
    trivial
  · intro walk hrest ih h
    obtain ⟨count, hreads⟩ := step_reads symbols config walk hrest
    have hlength := hreads.length
    obtain ⟨-, -, -, -, -, htrace⟩ := hreads
    rw [AvoidsCode, hlength, ← htrace]
    refine ⟨?_, ih fun word hmem => h word (List.mem_of_mem_drop (htrace ▸ hmem))⟩
    rcases walk.at_cases hrest with hcode | hwords | hbytes
    · exact fun hkind => absurd hkind (hcode.kind_ne symbols config)
    · have hlength := hwords.length (Nat.le_refl (wordCount symbols config walk))
      simp only [step, hwords.bareRow]
      intro _ i (hi : 2 * i < (wordsAhead symbols walk (wordCount symbols config walk)).length)
      have hword := hwords.wordLo (show i < wordCount symbols config walk by omega)
      rcases hknown : walk.trace.drop (2 * i) with _ | ⟨word, rest⟩
      · exact Access.has_none _
      · rw [hknown] at hword
        exact h word (List.mem_of_mem_drop (hknown ▸ List.mem_cons_self)) hword
    · simp only [step, hbytes.bareRow]
      exact fun hkind => by cases hkind

end Walk

namespace View

theorem rows_finest_iff (view : View) (symbols : Symbols) (config : Config) :
    SameReading (view.rows symbols config) (view.rows symbols .finest) ↔
      AvoidsCode view.trace (view.rows symbols config) := by
  rw [rows_eq_listing, rows_eq_listing]
  exact (Walk.ofView view).listing_finest_iff symbols config

/-- **Limits are presentation only where rows of words avoid code.** Take two listings of a view, of which one does. Then
the other says the same of every byte just if it does so too. -/
theorem sameReading_iff_avoidsCode (view : View) (symbols : Symbols) (config other : Config)
    (h : AvoidsCode view.trace (view.rows symbols other)) :
    SameReading (view.rows symbols config) (view.rows symbols other) ↔
      AvoidsCode view.trace (view.rows symbols config) := by
  have hother := (view.rows_finest_iff symbols other).2 h
  constructor
  · intro hsame
    exact (view.rows_finest_iff symbols config).1 (hsame.trans hother)
  · intro havoids
    exact SameReading.trans ((view.rows_finest_iff symbols config).2 havoids) hother.symm

/-- No limit shows where nothing is known as the low byte of a word and as an instruction too. -/
theorem sameReading_of_exclusive (view : View) (symbols : Symbols) (config other : Config)
    (h : ∀ word ∈ view.trace, word.has .wordLo = true → word.has .instruction = false) :
    SameReading (view.rows symbols config) (view.rows symbols other) := by
  have finest (config : Config) : SameReading (view.rows symbols config) (view.rows symbols .finest) := by
    rw [rows_finest_iff, rows_eq_listing]
    exact Walk.avoidsCode_of_exclusive symbols config (Walk.ofView view) h
  exact SameReading.trans (finest config) (finest other).symm

/-- A word, and behind it a return that is known as the low byte of a word too. -/
def returnAsWord : View :=
  ⟨0x1000, [0x34, 0x12, 0xF8, 0x00], [.ofFlags [.wordLo], .none, .ofFlags [.wordLo, .instruction], .none]⟩

theorem sameReading_iff_avoidsCode_finest :
    AvoidsCode returnAsWord.trace (returnAsWord.rows (.empty defaultStem) .finest) ∧
      (SameReading (returnAsWord.rows (.empty defaultStem) .standard) (returnAsWord.rows (.empty defaultStem) .finest) ↔
        AvoidsCode returnAsWord.trace (returnAsWord.rows (.empty defaultStem) .standard)) := by
  have havoids : AvoidsCode returnAsWord.trace (returnAsWord.rows (.empty defaultStem) .finest) :=
    (returnAsWord.rows_finest_iff _ _).1 (.refl _)
  exact ⟨havoids, sameReading_iff_avoidsCode returnAsWord (.empty defaultStem) .standard .finest havoids⟩

/-- With the standard limits the return is the second word of a row; with rows of one word it is an instruction. -/
theorem reading_depends_on_limit :
    ¬ SameReading (returnAsWord.rows (.empty defaultStem) .standard)
      (returnAsWord.rows (.empty defaultStem) .finest) := by
  intro hsame
  have havoids := (returnAsWord.rows_finest_iff _ _).1 hsame
  have hwords : (Walk.ofView returnAsWord).AtWords := ⟨rfl, by decide, by decide, by decide⟩
  have hcount : Walk.wordCount (.empty defaultStem) .standard (Walk.ofView returnAsWord) = 2 := by decide
  rw [rows_eq_listing, Walk.listing_cons _ _ _ hwords.rest, AvoidsCode, Walk.step, hwords.bareRow, hcount] at havoids
  exact absurd (havoids.1 rfl 1 (by decide)) (by decide)

end View

end TraceDisasm
