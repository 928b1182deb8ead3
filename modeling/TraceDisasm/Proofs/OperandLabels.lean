import TraceDisasm.Proofs.Tiling

/-!
# Labels in a listing

A table of labels acts on a listing in two ways. A labelled address begins a row and is shown there, so the labels inside
a view decide how its bytes are divided. And a relative branch, or a word that is known as a vector, carries the label of
the place that it leads to, which may be anywhere.

Hence two tables that agree inside a view list it alike, up to the labels of operands (`View.rows_map_bare_eq`); and what
an operand carries is always what the table says about its place (`View.mem_rows_labelled`).
-/

namespace TraceDisasm

/-! ## Rows up to the labels of operands -/

namespace Operand

/-- The operand without its label. -/
def unlabelled : Operand → Operand
  | target address _ => target address none
  | word value _ => word value none
  | operand => operand

/-- The label that an operand carries. -/
def label? : Operand → Option String
  | target _ label => label
  | word _ label => label
  | _ => none

end Operand

/-- The row without the labels of its operands. Its own label stays. -/
def Row.bare (row : Row) : Row := { row with operands := row.operands.map Operand.unlabelled }

@[simp] theorem Row.bare_length (row : Row) : row.bare.length = row.length := rfl

/-! ## Tables that agree inside a view -/

/-- Two tables name labels alike and label the same ones of the `length` addresses from `start` on. -/
structure Symbols.AgreeOn (old new : Symbols) (start : UInt32) (length : Nat) : Prop where
  stem : old.stem = new.stem
  contains : ∀ i < length, old.contains (start + UInt32.ofNat i) = new.contains (start + UInt32.ofNat i)

namespace Symbols.AgreeOn

variable {old new : Symbols} {start : UInt32} {length : Nat}

theorem lookup (h : old.AgreeOn new start length) {i : Nat} (hi : i < length) :
    old.lookup (start + UInt32.ofNat i) = new.lookup (start + UInt32.ofNat i) := by
  simp only [Symbols.lookup, Symbols.name, h.contains i hi, h.stem]

/-- Agreement goes over to what is behind the first addresses. -/
theorem drop (h : old.AgreeOn new start length) (n : Nat) :
    old.AgreeOn new (start + UInt32.ofNat n) (length - n) := by
  refine ⟨h.stem, fun i hi => ?_⟩
  have := h.contains (n + i) (by omega)
  rwa [UInt32.ofNat_add, ← UInt32.add_assoc] at this

theorem head (h : old.AgreeOn new start length) (hlen : 0 < length) : old.contains start = new.contains start := by
  simpa using h.contains 0 hlen

end Symbols.AgreeOn

/-! ## Instructions -/

namespace Argument

variable (branch : Int32 → Operand)

theorem read_unlabelled (argument : Argument) (cursor : Cursor) :
    argument.read (fun d => (branch d).unlabelled) cursor =
      ((argument.read branch cursor).1.map Operand.unlabelled, (argument.read branch cursor).2) := by
  cases argument <;> simp [read, Operand.unlabelled, Function.comp_def]

theorem readAll_unlabelled (arguments : List Argument) (cursor : Cursor) :
    readAll (fun d => (branch d).unlabelled) arguments cursor =
      ((readAll branch arguments cursor).1.map (List.map Operand.unlabelled), (readAll branch arguments cursor).2) := by
  induction arguments generalizing cursor with
  | nil => simp [readAll]
  | cons argument arguments ih =>
    simp only [readAll, read_unlabelled]
    rcases argument.read branch cursor with ⟨_ | operand, after⟩
    · rfl
    · simp only [Option.map_some, ih]
      rcases readAll branch arguments after with ⟨_ | operands, last⟩ <;> rfl

/-- Two ways to make the operands of branches that differ in labels read the same bytes and make the same operands, up
to labels. -/
theorem readAll_congr {branch' : Int32 → Operand} (h : ∀ d, (branch d).unlabelled = (branch' d).unlabelled)
    (arguments : List Argument) (cursor : Cursor) :
    (∃ after, readAll branch arguments cursor = (none, after) ∧ readAll branch' arguments cursor = (none, after)) ∨
      ∃ operands operands' after, readAll branch arguments cursor = (some operands, after) ∧
        readAll branch' arguments cursor = (some operands', after) ∧
        operands.map Operand.unlabelled = operands'.map Operand.unlabelled := by
  have bare := readAll_unlabelled branch arguments cursor
  rw [funext h, readAll_unlabelled branch' arguments cursor] at bare
  rcases hr : readAll branch arguments cursor with ⟨_ | operands, after⟩ <;>
    rcases hr' : readAll branch' arguments cursor with ⟨_ | operands', after'⟩ <;>
    simp only [hr, hr', Option.map_none, Option.map_some, Prod.mk.injEq, Option.some.injEq, reduceCtorEq, false_and,
      true_and] at bare
  · exact .inl ⟨after, rfl, by rw [bare]⟩
  · exact .inr ⟨operands, operands', after, rfl, by rw [bare.2], bare.1.symm⟩

/-- An operand is made of the bytes alone, or it is that of a branch. -/
theorem mem_readAll {arguments : List Argument} {cursor : Cursor} {operands : List Operand}
    (h : (readAll branch arguments cursor).1 = some operands) {operand : Operand} (hmem : operand ∈ operands) :
    (∃ d, operand = branch d) ∨ (∀ address label, operand ≠ .target address label) ∧
      ∀ value label, operand ≠ .word value label := by
  induction arguments generalizing cursor operands with
  | nil =>
    obtain rfl := Option.some.inj h
    simp at hmem
  | cons argument arguments ih =>
    simp only [readAll] at h
    split at h
    · simp at h
    · next first next hfirst =>
      split at h
      · simp at h
      · next others last hothers =>
        obtain rfl := Option.some.inj h
        rcases List.mem_cons.1 hmem with rfl | hmem
        · have hread : (argument.read branch cursor).1 = some operand := by rw [hfirst]
          cases argument with
          | register _ | indirect _ | indexedByL _ =>
            obtain rfl := Option.some.inj hread
            exact .inr ⟨by simp, by simp⟩
          | displaced _ | brPage | vector | immediate8 | absolute | immediate16 =>
            obtain ⟨_, -, rfl⟩ := Option.map_eq_some_iff.1 hread
            exact .inr ⟨by simp, by simp⟩
          | relative8 | relative16 =>
            obtain ⟨_, -, rfl⟩ := Option.map_eq_some_iff.1 hread
            exact .inl ⟨_, rfl⟩
        · exact ih (by rw [hothers]) hmem

end Argument

theorem Operation.loadedPage?_eq_some_iff {operation : Operation} {operands : List Operand} {page : UInt32} :
    operation.loadedPage? operands = some page ↔
      operation.mnemonic = .ld ∧ operation.arguments = [.register .nb, .immediate8] ∧
        ∃ first number, operands = [first, .immediate8 number] ∧ page = Address.pageOfNumber number := by
  constructor
  · intro h
    simp only [loadedPage?] at h
    split at h
    · next first number hm ha => exact ⟨hm, ha, first, number, rfl, (Option.some.inj h).symm⟩
    · simp at h
  · rintro ⟨hm, ha, first, number, rfl, rfl⟩
    simp only [loadedPage?, hm, ha]

theorem Operand.unlabelled_eq_immediate8_iff {operand : Operand} {number : UInt8} :
    operand.unlabelled = .immediate8 number ↔ operand = .immediate8 number := by
  cases operand <;> simp [unlabelled]

theorem Operation.loadedPage?_unlabelled (operation : Operation) (operands : List Operand) :
    operation.loadedPage? (operands.map Operand.unlabelled) = operation.loadedPage? operands := by
  refine Option.ext fun page => ?_
  simp only [loadedPage?_eq_some_iff]
  match operands with
  | [] => simp
  | [_] => simp
  | [_, second] => simp [Operand.unlabelled_eq_immediate8_iff]
  | _ :: _ :: _ :: _ => simp

namespace Instruction

/-- The labels of a table reach an instruction as labels of its operands only. -/
theorem decode_bare (old new : Symbols) (jumpPage : UInt32) (cursor : Cursor) :
    (decode old jumpPage cursor).row.bare = (decode new jumpPage cursor).row.bare ∧
      (decode old jumpPage cursor).endsRun = (decode new jumpPage cursor).endsRun ∧
      (decode old jumpPage cursor).jumpPage = (decode new jumpPage cursor).jumpPage ∧
      (decode old jumpPage cursor).after = (decode new jumpPage cursor).after := by
  simp only [decode]
  rcases cursor.operation with ⟨_ | operation, opcodeEnd⟩
  · exact ⟨rfl, rfl, rfl, rfl⟩
  · let branch (symbols : Symbols) (d : Int32) : Operand :=
      branchTo symbols (Address.relativeTarget (opcodeEnd.skip operation.operandSize).address d jumpPage)
    have same : ∀ d, (branch old d).unlabelled = (branch new d).unlabelled := fun _ => rfl
    rcases Argument.readAll_congr (branch old) same operation.arguments opcodeEnd with
      ⟨after, hold, hnew⟩ | ⟨operands, operands', after, hold, hnew, hmap⟩
    · simp only [branch] at hold hnew
      simp only [hold, hnew, and_self]
    · have page : operation.loadedPage? operands = operation.loadedPage? operands' := by
        rw [← operation.loadedPage?_unlabelled operands, hmap, operation.loadedPage?_unlabelled]
      simp only [branch] at hold hnew
      simp only [hold, hnew, page, Row.bare, List.map_append, hmap, and_self]

/-- Only the operand of a branch may carry a label, and it carries that of its target. -/
theorem mem_decode_operands {symbols : Symbols} {jumpPage : UInt32} {cursor : Cursor} {operand : Operand}
    (h : operand ∈ (decode symbols jumpPage cursor).row.operands) :
    (∃ address, operand = branchTo symbols address) ∨ (∀ address label, operand ≠ .target address label) ∧
      ∀ value label, operand ≠ .word value label := by
  simp only [decode] at h
  split at h
  · simp [illegal] at h
  · split at h
    · simp [illegal] at h
    · next operands after hr =>
      rcases List.mem_append.1 h with h | h
      · obtain ⟨_, -, rfl⟩ := List.mem_map.1 h
        exact .inr ⟨by simp, by simp⟩
      · rcases Argument.mem_readAll _ (by rw [hr]) h with ⟨d, rfl⟩ | hne
        · exact .inl ⟨_, rfl⟩
        · exact .inr hne

end Instruction

/-- The operands of a row carry the labels that a table gives to the places they lead to, where `known` tells what is
known about the bytes of the row. -/
structure Row.Labelled (row : Row) (symbols : Symbols) (known : Nat → Access) : Prop where
  target : ∀ address label, .target address label ∈ row.operands → label = symbols.lookup address
  word : ∀ i value label, row.operands[i]? = some (.word value label) →
    2 * i < row.length ∧ label = if (known (2 * i)).has .vector then symbols.lookup value.toUInt32 else none

namespace Walk

variable {old new : Symbols} (config : Config)

/-! ## Rows of data -/

theorem byteRun_congr {limit count : Nat} {address : UInt32} {rest : List UInt8} {trace : List Access}
    (h : old.AgreeOn new address rest.length) :
    byteRun old limit count address rest trace = byteRun new limit count address rest trace := by
  induction rest generalizing count address trace with
  | nil => rfl
  | cons b rest ih =>
    have tail : old.AgreeOn new (address + 1) rest.length := by simpa using h.drop 1
    simp only [byteRun, h.head (Nat.succ_pos _), ih tail]

theorem wordRun_congr {limit count : Nat} {address : UInt32} {rest : List UInt8} {trace : List Access}
    (h : old.AgreeOn new address rest.length) :
    wordRun old limit count address rest trace = wordRun new limit count address rest trace := by
  fun_induction wordRun old limit count address rest trace with
  | case1 count address a b rest trace stops =>
    rw [h.head (Nat.succ_pos _)] at stops
    rw [wordRun, if_pos stops]
  | case2 count address a b rest trace goesOn ih =>
    have tail : old.AgreeOn new (address + 2) rest.length := by simpa using h.drop 2
    rw [h.head (Nat.succ_pos _)] at goesOn
    rw [wordRun, if_neg goesOn, ih tail]
  | case3 count address rest trace short => rw [wordRun]; exact short

theorem wordOperands_eq_append (symbols : Symbols) (made : List Operand) :
    ∀ (bytes : List UInt8) (trace : List Access),
      wordOperands symbols made bytes trace = made.reverse ++ wordOperands symbols [] bytes trace
  | [], _ | [_], _ => by simp [wordOperands]
  | _ :: _ :: rest, trace => by
    rw [wordOperands, wordOperands, wordOperands_eq_append symbols (_ :: made) rest,
      wordOperands_eq_append symbols [_] rest]
    simp

theorem wordOperands_cons (symbols : Symbols) (low high : UInt8) (rest : List UInt8) (trace : List Access) :
    wordOperands symbols [] (low :: high :: rest) trace =
      .word (Cursor.wordOf low high) (if (trace.headD .none).has .vector
        then symbols.lookup (Cursor.wordOf low high).toUInt32 else none) ::
          wordOperands symbols [] rest (trace.drop 2) := by
  rw [wordOperands, wordOperands_eq_append]
  rfl

theorem wordOperands_unlabelled (old new : Symbols) : ∀ (bytes : List UInt8) (trace : List Access),
    (wordOperands old [] bytes trace).map Operand.unlabelled = (wordOperands new [] bytes trace).map Operand.unlabelled
  | [], _ | [_], _ => rfl
  | _ :: _ :: rest, trace => by
    simp only [wordOperands_cons, List.map_cons, Operand.unlabelled, wordOperands_unlabelled old new rest]

/-- The operands of a row of words are words, each with the label that its first byte calls for. -/
theorem getElem?_wordOperands {symbols : Symbols} {bytes : List UInt8} {trace : List Access} {i : Nat}
    {operand : Operand} (h : (wordOperands symbols [] bytes trace)[i]? = some operand) :
    2 * i < bytes.length ∧ ∃ value, operand = .word value
      (if ((trace.drop (2 * i)).headD .none).has .vector then symbols.lookup value.toUInt32 else none) := by
  induction i generalizing bytes trace with
  | zero =>
    match bytes with
    | [] | [_] => simp [wordOperands] at h
    | low :: high :: rest =>
      rw [wordOperands_cons] at h
      exact ⟨by simp, Cursor.wordOf low high, by simpa using h.symm⟩
  | succ i ih =>
    match bytes with
    | [] | [_] => simp [wordOperands] at h
    | low :: high :: rest =>
      rw [wordOperands_cons] at h
      obtain ⟨hlt, hvalue⟩ := ih (by simpa using h)
      rw [List.drop_drop, Nat.add_comm] at hvalue
      exact ⟨by simp only [List.length_cons]; omega, hvalue⟩

/-! ## The walk -/

theorem bareRow_address (symbols : Symbols) (walk : Walk) :
    (walk.bareRow symbols config).1.address = walk.cursor.address := by
  simp only [bareRow]
  split
  · exact Instruction.decode_row_address ..
  · split <;> rfl

theorem bareRow_bare (walk : Walk) (h : old.AgreeOn new walk.cursor.address walk.cursor.remaining) :
    (walk.bareRow old config).1.bare = (walk.bareRow new config).1.bare ∧
      (walk.bareRow old config).2 = (walk.bareRow new config).2 := by
  have tail (n : Nat) : old.AgreeOn new (walk.cursor.address + UInt32.ofNat n) (walk.cursor.rest.drop n).length := by
    rw [List.length_drop]
    exact h.drop n
  have behindByte : old.AgreeOn new (walk.cursor.address + 1) (walk.cursor.rest.drop 1).length := tail 1
  have behindWord : old.AgreeOn new (walk.cursor.address + 2) (walk.cursor.rest.drop 2).length := tail 2
  simp only [bareRow]
  split
  · obtain ⟨hrow, hends, hpage, hafter⟩ := Instruction.decode_bare old new walk.jumpPage walk.cursor
    have hlen := congrArg Row.length hrow
    simp only [Row.bare_length] at hlen
    exact ⟨hrow, by simp only [instructionRow, hends, hpage, hafter, hlen]⟩
  · split
    · simp only [wordsRow, Row.bare, wordRun_congr behindWord, wordOperands_unlabelled old new, and_self]
    · simp only [bytesRow, byteRun_congr behindByte, and_self]

/-- Tables that agree on the bytes ahead make the same next row, up to the labels of operands. -/
theorem step_bare (walk : Walk) (hrest : walk.cursor.rest ≠ [])
    (h : old.AgreeOn new walk.cursor.address walk.cursor.remaining) :
    (walk.step old config).1.bare = (walk.step new config).1.bare ∧
      (walk.step old config).2 = (walk.step new config).2 := by
  obtain ⟨hrow, hafter⟩ := bareRow_bare config walk h
  have hlabel : old.lookup walk.cursor.address = new.lookup walk.cursor.address := by
    simpa using h.lookup (List.length_pos_iff.2 hrest)
  refine ⟨?_, hafter⟩
  have hlabelled := congrArg (fun row : Row => { row with label := new.lookup walk.cursor.address }) hrow
  simpa only [step, Row.withLabel, bareRow_address, hlabel, Row.bare] using hlabelled

theorem listing_map_bare (walk : Walk) (h : old.AgreeOn new walk.cursor.address walk.cursor.remaining) :
    (walk.listing old config).map Row.bare = (walk.listing new config).map Row.bare := by
  refine listing_induct old config (P := fun walk rows => old.AgreeOn new walk.cursor.address walk.cursor.remaining →
    rows.map Row.bare = (walk.listing new config).map Row.bare) ?_ ?_ walk h
  · intro walk hrest _
    rw [listing_nil new config walk hrest, List.map_nil]
  · intro walk hrest ih h
    obtain ⟨hrow, hafter⟩ := step_bare config walk hrest h
    obtain ⟨count, -, hle, -, -, hcursor, -⟩ := step_reads old config walk hrest
    have tail := h.drop count
    rw [← Cursor.address_skip, ← Cursor.remaining_skip, ← hcursor] at tail
    rw [listing_cons new config walk hrest, List.map_cons, List.map_cons, hrow, ih tail, hafter]

/-- The next row shows the labels of the table, for what is known about the bytes ahead. -/
theorem step_labelled (symbols : Symbols) (walk : Walk) :
    (walk.step symbols config).1.Labelled symbols fun i => (walk.trace.drop i).headD .none := by
  suffices (walk.bareRow symbols config).1.Labelled symbols fun i => (walk.trace.drop i).headD .none from
    ⟨this.target, this.word⟩
  simp only [bareRow]
  split
  · refine ⟨fun address label hmem => ?_, fun i value label hget => ?_⟩
    · rcases Instruction.mem_decode_operands hmem with ⟨target, heq⟩ | ⟨hne, -⟩
      · obtain ⟨rfl, rfl⟩ := Operand.target.inj heq
        rfl
      · exact absurd rfl (hne address label)
    · rcases Instruction.mem_decode_operands (List.mem_of_getElem? hget) with ⟨target, heq⟩ | ⟨-, hne⟩
      · simp [Instruction.branchTo] at heq
      · exact absurd rfl (hne value label)
  · split
    · refine ⟨fun address label hmem => ?_, fun i value label hget => ?_⟩
      · obtain ⟨i, hget⟩ := List.getElem?_of_mem hmem
        obtain ⟨-, value, heq⟩ := getElem?_wordOperands hget
        simp at heq
      · obtain ⟨hlt, value', heq⟩ := getElem?_wordOperands hget
        obtain ⟨rfl, rfl⟩ := Operand.word.inj heq
        exact ⟨hlt, rfl⟩
    · -- the operands of a row of bytes are bytes
      have bytes : ∀ operand ∈ (walk.bytesRow symbols config).1.operands, ∃ b, Operand.byte b = operand := by
        intro operand hmem
        obtain ⟨b, -, rfl⟩ := List.mem_map.1 hmem
        exact ⟨b, rfl⟩
      refine ⟨fun address label hmem => ?_, fun i value label hget => ?_⟩
      · simpa using bytes _ hmem
      · simpa using bytes _ (List.mem_of_getElem? hget)

end Walk

/-! ## Listings -/

/-- **Labels outside a view change texts only.** Two tables that agree on the addresses of a view give the same rows, up
to the labels of operands. -/
theorem View.rows_map_bare_eq {old new : Symbols} {view : View} (config : Config)
    (h : old.AgreeOn new view.start view.bytes.length) :
    (view.rows old config).map Row.bare = (view.rows new config).map Row.bare := by
  rw [rows_eq_listing, rows_eq_listing]
  refine Walk.listing_map_bare config (Walk.ofView view) ?_
  have hat := Walk.IsAt.ofView view
  rw [hat.address, hat.remaining]
  simpa using h

/-- What operands carry is what the table says about the places they lead to, and a word carries it just if its first byte
is known as a vector. -/
theorem View.mem_rows_labelled {symbols : Symbols} {config : Config} {view : View} {row : Row}
    (h : row ∈ view.rows symbols config) :
    ∃ index, row.address = view.start + UInt32.ofNat index ∧ index + row.length ≤ view.bytes.length ∧
      row.Labelled symbols fun i => (view.trace.drop (index + i)).headD .none := by
  obtain ⟨index, walk, hat, hrest, rfl⟩ := View.exists_walk_of_mem h
  obtain ⟨count, -, hle, haddress, hraw, -, -⟩ := Walk.step_reads symbols config walk hrest
  refine ⟨index, by rw [haddress, hat.address], ?_, ?_⟩
  · have hlt := hat.index_lt hrest
    rw [hat.remaining] at hle
    rw [Row.length, hraw, List.length_take]
    omega
  · simpa only [hat.trace, List.drop_drop] using Walk.step_labelled config symbols walk

end TraceDisasm
