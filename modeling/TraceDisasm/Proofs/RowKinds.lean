import TraceDisasm.Proofs.Encoding
import TraceDisasm.Proofs.HiddenCode

/-!
# What decides on the kind of a row

A listing has loops within loops. Row by row (`View.rows_eq_listing`), a walk decides afresh at the start of every row whether
it shows code, words or bytes. It looks at what is known about the next byte, at the number of bytes that are left, and at a
mark that says whether the row before runs on into this one. The mark can be read off that row (`Walk.step_inCode`): only an
instruction that does not end its run leaves it set. So the rows themselves tell why each of them is of its kind, without the
walk (`View.kinds_decided`).
-/

namespace TraceDisasm

/-- Whether the bytes behind a row are code as well: it shows an instruction, and not one that ends a run. -/
def Row.runsOn (row : Row) : Bool := row.kind = .instruction ∧ row.mnemonic ∉ Mnemonic.breaks

/-- Whether the latest of some rows runs on. If there is none, `initial` tells. -/
def Row.inCode (initial : Bool) (before : List Row) : Bool := (before.getLast?.map runsOn).getD initial

theorem Row.inCode_cons (initial : Bool) (row : Row) (before : List Row) :
    inCode initial (row :: before) = inCode row.runsOn before := by
  unfold inCode
  rw [List.getLast?_cons]
  cases before.getLast? <;> rfl

namespace Walk

variable {symbols : Symbols} {config : Config} {walk : Walk} {view : View}

/-! ## One row -/

/-- What the next row is, by the place where the walk stands. -/
theorem step_kind_cases (symbols : Symbols) (config : Config) (hrest : walk.cursor.rest ≠ []) :
    walk.AtCode ∧ (walk.step symbols config).1.isCode = true ∨
      walk.AtWords ∧ (walk.step symbols config).1.kind = .words ∨
        walk.AtBytes ∧ (walk.step symbols config).1.kind = .bytes := by
  rcases walk.at_cases hrest with hcode | hwords | hbytes
  · exact .inl ⟨hcode, hcode.isCode_step⟩
  · refine .inr (.inl ⟨hwords, ?_⟩)
    rw [step, hwords.bareRow]
    rfl
  · refine .inr (.inr ⟨hbytes, ?_⟩)
    rw [step, hbytes.bareRow]
    rfl

/-- Rows of data run into nothing, and of the rows of code only those do that are no branch and no end. -/
theorem step_inCode (symbols : Symbols) (config : Config) (hrest : walk.cursor.rest ≠ []) :
    (walk.step symbols config).2.inCode = (walk.step symbols config).1.runsOn := by
  rcases walk.at_cases hrest with hcode | hwords | hbytes
  · have agrees := Instruction.decode_agrees symbols walk.jumpPage walk.cursor
    have hkind := isCode_instructionRow symbols walk
    rw [step, hcode.bareRow]
    simp only [Row.isCode, instructionRow, Row.runsOn] at hkind ⊢
    cases hends : (Instruction.decode symbols walk.jumpPage walk.cursor).endsRun with
    | true =>
      rcases agrees.endsRun.1 hends with hillegal | hbreaks
      · simp [hillegal]
      · simp [hbreaks]
    | false =>
      have hruns := mt agrees.endsRun.2 (Bool.eq_false_iff.1 hends)
      rw [not_or] at hruns
      simp only [hruns.1, or_false, decide_eq_true_eq] at hkind
      simp [hkind, hruns.2]
  · rw [step, hwords.bareRow]
    rfl
  · rw [step, hbytes.bareRow]
    rfl

/-! ## The walk behind some rows -/

/-- The row behind some others is the next one of a walk that has their bytes behind it, and its mark is that of the latest
of them. -/
theorem exists_behind {row : Row} {after : List Row} (walk : Walk) :
    ∀ index before, IsAt view index walk → walk.listing symbols config = before ++ row :: after →
      ∃ behind, IsAt view (index + (before.flatMap Row.raw).length) behind ∧ behind.cursor.rest ≠ [] ∧
        row = (behind.step symbols config).1 ∧ behind.inCode = Row.inCode walk.inCode before := by
  refine listing_induct symbols config (P := fun walk rows => ∀ index before, IsAt view index walk →
    rows = before ++ row :: after →
      ∃ behind, IsAt view (index + (before.flatMap Row.raw).length) behind ∧ behind.cursor.rest ≠ [] ∧
        row = (behind.step symbols config).1 ∧ behind.inCode = Row.inCode walk.inCode before) ?_ ?_ walk
  · intro walk _ index before _ hrows
    simp at hrows
  · intro walk hrest ih index before hat hrows
    cases before with
    | nil =>
      obtain ⟨rfl, -⟩ := List.cons.inj hrows
      exact ⟨walk, hat, hrest, rfl, rfl⟩
    | cons first before =>
      obtain ⟨rfl, htail⟩ := List.cons.inj hrows
      obtain ⟨count, hreads⟩ := step_reads symbols config walk hrest
      have hlength := hreads.length
      obtain ⟨behind, hbehind, hbehindRest, hrow, hcode⟩ := ih (index + count) before (hat.step hreads) htail
      refine ⟨behind, ?_, hbehindRest, hrow, ?_⟩
      · rw [List.flatMap_cons, List.length_append, ← Nat.add_assoc]
        rw [Row.length] at hlength
        rwa [hlength]
      · rw [hcode, step_inCode symbols config hrest, Row.inCode_cons]

end Walk

namespace View

variable {view : View} {symbols : Symbols} {config : Config} {before after : List Row} {row : Row}

/-- A row that starts at a byte shows code: the byte is known as an instruction, or the row directly before runs on. -/
def CodeAt (view : View) (index : Nat) (before : List Row) : Prop :=
  (view.known index).has .instruction = true ∨ ∃ previous, before.getLast? = some previous ∧ previous.runsOn = true

/-- Words can start at a byte: it is known as the low byte of a word, and there is another byte. -/
def WordAt (view : View) (index : Nat) : Prop :=
  (view.known index).has .wordLo = true ∧ index + 2 ≤ view.bytes.length

/-- A row that starts at a byte is of the kind that this byte and the rows before it call for. -/
structure CallsFor (view : View) (index : Nat) (before : List Row) (row : Row) : Prop where
  code : (row.kind = .instruction ∨ row.kind = .illegal) ↔ view.CodeAt index before
  words : row.kind = .words ↔ ¬ view.CodeAt index before ∧ view.WordAt index
  bytes : row.kind = .bytes ↔ ¬ view.CodeAt index before ∧ ¬ view.WordAt index

theorem codeAt_iff {index : Nat} {walk : Walk} (hat : Walk.IsAt view index walk)
    (hcode : walk.inCode = Row.inCode false before) : view.CodeAt index before ↔ walk.AtCode := by
  have hknown : walk.known = view.known index := hat.known 0
  rw [CodeAt, Walk.AtCode, hcode, hknown, Row.inCode]
  cases before.getLast? <;> simp [or_comm]

theorem wordAt_iff {index : Nat} {walk : Walk} (hat : Walk.IsAt view index walk) :
    view.WordAt index ↔ (walk.cursor.hasWord && walk.known.has .wordLo) = true := by
  have hknown : walk.known = view.known index := hat.known 0
  have hle := hat.le
  rw [WordAt, Bool.and_eq_true, Cursor.hasWord_eq_true_iff, hat.remaining, hknown]
  constructor
  · rintro ⟨hword, htwo⟩
    exact ⟨by omega, hword⟩
  · rintro ⟨htwo, hword⟩
    exact ⟨hword, by omega⟩

/-- The next row of a walk is of the kind that is called for. -/
theorem callsFor_of_isAt {index : Nat} {walk : Walk} (hat : Walk.IsAt view index walk) (hrest : walk.cursor.rest ≠ [])
    (hmark : walk.inCode = Row.inCode false before) : view.CallsFor index before (walk.step symbols config).1 := by
  have hcodeAt := codeAt_iff hat hmark
  have hwordAt := wordAt_iff hat
  rcases Walk.step_kind_cases symbols config hrest with ⟨hcode, hkind⟩ | ⟨hwords, hkind⟩ | ⟨hbytes, hkind⟩
  · have hyes : view.CodeAt index before := hcodeAt.2 hcode
    simp only [Row.isCode, decide_eq_true_eq] at hkind
    refine ⟨⟨fun _ => hyes, fun _ => hkind⟩, ?_, ?_⟩
    · rcases hkind with hkind | hkind <;> simp [hkind, hyes]
    · rcases hkind with hkind | hkind <;> simp [hkind, hyes]
  · have hno : ¬ view.CodeAt index before := by
      rw [hcodeAt, Walk.AtCode, hwords.data, hwords.plain]
      simp
    have hyes : view.WordAt index := by
      rw [hwordAt, Bool.and_eq_true, Cursor.hasWord_eq_true_iff]
      exact ⟨hwords.two, hwords.word⟩
    exact ⟨by simp [hkind, hno], by simp [hkind, hno, hyes], by simp [hkind, hyes]⟩
  · have hno : ¬ view.CodeAt index before := by
      rw [hcodeAt, Walk.AtCode, hbytes.data, hbytes.plain]
      simp
    have hnot : ¬ view.WordAt index := mt hwordAt.1 (Bool.eq_false_iff.1 hbytes.byte)
    exact ⟨by simp [hkind, hno], by simp [hkind, hnot], by simp [hkind, hno, hnot]⟩

/-- **What decides on the kind of a row.** A row of a listing shows code just if its first byte is known as an instruction
or the row directly before is an instruction that runs on. Otherwise it shows words just if its first byte is known as the
low byte of a word and a second byte is there, and otherwise it shows bytes. -/
theorem kinds_decided (bound : view.start.toNat + view.bytes.length < 2 ^ 32)
    (hrows : view.rows symbols config = before ++ row :: after) :
    ∃ index < view.bytes.length, row.address.toNat = view.start.toNat + index ∧ view.CallsFor index before row := by
  rw [rows_eq_listing] at hrows
  obtain ⟨walk, hat, hrest, rfl, hmark⟩ := Walk.exists_behind (Walk.ofView view) 0 before (.ofView view) hrows
  have hlt := hat.index_lt hrest
  refine ⟨_, hlt, ?_, callsFor_of_isAt hat hrest hmark⟩
  rw [Walk.step_address hrest, hat.toNat_address bound]

/-- An instruction, and behind it unclassified bytes, a word, and the low byte of a word that is cut off. -/
def runThenData : View :=
  ⟨0x1000, [0xFF, 0xF8, 0x34, 0x12, 0x56], [.ofFlags [.instruction], .none, .ofFlags [.wordLo], .none, .ofFlags [.wordLo]]⟩

/-- The return is unclassified, and is code because the instruction before it runs on. Behind it there is data. -/
theorem kinds_decided_runThenData :
    runThenData.start.toNat + runThenData.bytes.length < 2 ^ 32 ∧
      runThenData.rows (.empty defaultStem) .standard =
        [⟨0x1000, .instruction, "NOP", [], [0xFF], none⟩] ++ ⟨0x1001, .instruction, "RET", [], [0xF8], none⟩ ::
          [⟨0x1002, .words, "DW", [.word 0x1234 none], [0x34, 0x12], none⟩,
            ⟨0x1004, .bytes, "DB", [.byte 0x56], [0x56], none⟩] ∧
      ∃ index < runThenData.bytes.length, 0x1001 = runThenData.start.toNat + index ∧
        runThenData.CallsFor index [⟨0x1000, .instruction, "NOP", [], [0xFF], none⟩]
          ⟨0x1001, .instruction, "RET", [], [0xF8], none⟩ := by
  have bound : runThenData.start.toNat + runThenData.bytes.length < 2 ^ 32 := by decide
  have hrows : runThenData.rows (.empty defaultStem) .standard =
      [⟨0x1000, .instruction, "NOP", [], [0xFF], none⟩] ++ ⟨0x1001, .instruction, "RET", [], [0xF8], none⟩ ::
        [⟨0x1002, .words, "DW", [.word 0x1234 none], [0x34, 0x12], none⟩,
          ⟨0x1004, .bytes, "DB", [.byte 0x56], [0x56], none⟩] := by
    decide +kernel
  exact ⟨bound, hrows, kinds_decided bound hrows⟩

end View

end TraceDisasm
