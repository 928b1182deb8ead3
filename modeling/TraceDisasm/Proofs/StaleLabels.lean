import TraceDisasm.Proofs.KeptListings

/-!
# What a kept listing is worth

The rows of a bank that is not dirty are those that a new listing would have, up to the labels of operands, and no operand
carries a label that its place does not have (`Tracer.clean_rows_agree`). What operands carry are the labels of the time
when their rows were made (`Tracer.render_labels`).

These may be missing now. Labels belong to all banks, but an access makes dirty only the bank of its own address: a branch
that has been listed before its target was known in another bank shows the number of the target until something happens in
its own bank (`Tracer.render_without_label`).
-/

namespace TraceDisasm

namespace Tracer

/-! ## The labels of a new listing -/

section

variable {s : Tracer} {bank : Bank} {row : Row}

theorem labelAt_of_mem_list (placed : bank.Placed) (hrow : row ∈ s.list bank) {address : UInt32}
    {label : Option String} (hoperand : .target address label ∈ row.operands) : label = s.labelAt address := by
  rw [list_eq _ placed] at hrow
  obtain ⟨index, -, -, labelled⟩ := View.mem_rows_labelled hrow
  exact labelled.target address label hoperand

/-- The `i`-th word of a row starts `2 * i` bytes behind the address of the row. -/
theorem label_of_mem_list (placed : bank.Placed) (hrow : row ∈ s.list bank) {i : Nat} {value : UInt16}
    {label : Option String} (hget : row.operands[i]? = some (.word value label)) :
    bank.contains (row.address + UInt32.ofNat (2 * i)) = true ∧
      label = if (s.traceAt (row.address + UInt32.ofNat (2 * i))).has .vector then s.labelAt value.toUInt32
        else none := by
  rw [list_eq _ placed] at hrow
  obtain ⟨index, haddress, hbound, labelled⟩ := View.mem_rows_labelled hrow
  obtain ⟨hlt, hlabel⟩ := labelled.word i value label hget
  rw [viewOf, List.length_map, bank.length_addresses] at hbound
  have hinside : index + 2 * i < bank.size := by omega
  have hplace : row.address + UInt32.ofNat (2 * i) = bank.start + UInt32.ofNat (index + 2 * i) := by
    rw [haddress, UInt32.ofNat_add, ← UInt32.add_assoc]
    rfl
  have hknown := Bank.headD_drop_map_addresses s.traceAt .none hinside
  rw [hplace, ← hknown]
  exact ⟨placed.contains_iff_exists.2 ⟨_, hinside, rfl⟩, hlabel⟩

end

end Tracer

/-! ## A label that comes late -/

/-- A jump from the first address of the BIOS to the first address of the RAM, with the label that it shows. -/
def Row.jumpToRam (label : Option String) : Row :=
  ⟨0, .instruction, "JRL", [.target 0x1000 label], [0xF3, 0xFD, 0x0F], none⟩

/-- The listing of a view that begins with this jump. -/
theorem View.jumpToRam_mem {symbols : Symbols} (hlabel : symbols.lookup 0 = none) (config : Config) (bytes : List UInt8)
    (trace : List Access) :
    Row.jumpToRam (symbols.lookup 0x1000) ∈
      View.rows ⟨0, 0xF3 :: 0xFD :: 0x0F :: bytes, .ofFlags [.instruction] :: trace⟩ symbols config := by
  have hcode : (Access.ofFlags [.instruction]).has .instruction = true := by decide
  have hslot : Slot.ofByte 0xF3 = .operation ⟨.jrl, none, [.relative16]⟩ := by decide
  have htarget : Address.relativeTarget 3 (Cursor.wordOf 0xFD 0x0F).toInt16.toInt32 0 = 0x1000 := by decide
  have hjump : (Instruction.decode symbols 0 ⟨0, 0, 0xF3 :: 0xFD :: 0x0F :: bytes⟩).row =
      Row.jumpToRam (symbols.lookup 0x1000) := by
    simp only [Instruction.decode, Cursor.operation, Cursor.byte, hslot, Argument.readAll, Argument.read, Cursor.word,
      Cursor.skip, List.drop, Option.map_some, Instruction.branchTo]
    simp [Cursor.address, Operation.operandSize, Argument.size, htarget, Row.jumpToRam, Mnemonic.text, Cursor.bytesTo]
  have hshown : (Row.jumpToRam (symbols.lookup 0x1000)).withLabel symbols = Row.jumpToRam (symbols.lookup 0x1000) := by
    simp [Row.withLabel, Row.jumpToRam, hlabel]
  rw [View.rows_eq_listing, Walk.listing_cons _ _ _ (by simp [Walk.ofView, Cursor.ofBytes])]
  refine List.mem_cons.2 (.inl ?_)
  simp [Walk.step, Walk.bareRow, Walk.ofView, hcode, Walk.instructionRow, Cursor.ofBytes, Address.pageStart, hjump, hshown]

namespace Tracer

/-- The BIOS begins with a jump to the first address of the RAM, and the jump is known as code. -/
def jumpToRam : List Command :=
  [.replaceBios [0xF3, 0xFD, 0x0F], .observe 0 (.ofFlags [.instruction]) 0]

/-- The BIOS is listed, and then the target of its jump gets a label. -/
def lateLabel : List Command :=
  jumpToRam ++ [.render .bios] ++ [.observe 0x1000 (.ofFlags [.branchTarget]) 0]

theorem quiet_lateLabel : ∀ command ∈ lateLabel, command.mutatesMemory = false := by decide

theorem classification_jumpToRam : (new.run jumpToRam).1.classification =
    Classification.empty.apply 0 (.changed .none (.ofFlags [.instruction])) := rfl

theorem traceAt_jumpToRam (address : UInt32) :
    (new.run jumpToRam).1.traceAt address = if address = 0 then .ofFlags [.instruction] else .none := by
  rw [traceAt, classification_jumpToRam, Classification.get_apply _ (by decide), Classification.get_empty]

/-- The jump is listed with the label that its target has, as long as the BIOS is the same. -/
theorem jumpToRam_mem_list {s : Tracer} (hmemory : s.memory = (new.run jumpToRam).1.memory)
    (hcode : s.traceAt 0 = .ofFlags [.instruction]) (hlabel : s.labelAt 0 = none) :
    Row.jumpToRam (s.labelAt 0x1000) ∈ s.list (.fresh .bios 0x1000) := by
  have placed : (Bank.fresh .bios 0x1000).Placed := Registry.placed_ofCartridgeEnd 0 _ List.mem_cons_self
  have hbios : new.memory.replaceBios [0xF3, 0xFD, 0x0F] = .ok s.memory := by rw [hmemory]; rfl
  obtain ⟨rest, haddresses⟩ : ∃ rest, (Bank.fresh .bios 0x1000).addresses = 0 :: 1 :: 2 :: rest := by
    have hsize : (Bank.fresh .bios 0x1000).size = 0xFFD + 3 := by decide
    have hrange (n : Nat) : List.range (n + 3) = 0 :: 1 :: 2 :: (List.range n).map (· + 3) := by
      simp [List.range_succ_eq_map]
    unfold Bank.addresses
    rw [hsize, hrange]
    exact ⟨_, rfl⟩
  rw [list_eq _ placed, viewOf, haddresses]
  simp only [List.map_cons, hcode, Memory.read_replaceBios_image hbios 0 rfl,
    Memory.read_replaceBios_image hbios 1 rfl, Memory.read_replaceBios_image hbios 2 rfl]
  exact View.jumpToRam_mem hlabel _ _ _

/-- The BIOS as it stands behind the run: clean, with rows that are older than the label. -/
def lateBios : Bank := ⟨.bios, 0x1000, false, true, some ((new.run jumpToRam).1.list (.fresh .bios 0x1000))⟩

theorem run_lateLabel : (new.run lateLabel).1 =
    { (new.run jumpToRam).1 with
      classification := (new.run jumpToRam).1.classification.apply 0x1000 (.changed .none (.ofFlags [.branchTarget]))
      symbols := (Symbols.empty defaultStem).insert 0x1000
      registry := ⟨[lateBios, .fresh .ram 0x2000]⟩ } := by
  let listed := (new.run (jumpToRam ++ [.render .bios])).1
  have hclassification : listed.classification = (new.run jumpToRam).1.classification := rfl
  have hregistry : listed.registry = ⟨[lateBios, .fresh .ram 0x2000]⟩ := rfl
  have hsymbols : listed.symbols = .empty defaultStem := rfl
  have heffect : listed.classification.accessEffect 0x1000 (.ofFlags [.branchTarget]) =
      .changed .none (.ofFlags [.branchTarget]) := by
    have hnone : listed.classification.get 0x1000 = .none := traceAt_jumpToRam 0x1000
    rw [Classification.accessEffect, hnone]
    decide
  rw [lateLabel, run_append, run_cons, run_nil]
  simp only [perform]
  rw [observe_eq (by decide) heffect, hregistry, hsymbols]
  rfl

theorem lateBios_mem : lateBios ∈ (new.run lateLabel).1.registry.banks := by
  rw [run_lateLabel]
  exact List.mem_cons_self

theorem labelAt_lateLabel : (new.run lateLabel).1.labelAt 0x1000 = some "loc_1000" := by
  rw [run_lateLabel, labelAt]
  decide

/-- The rows that are kept show the jump without a label. -/
theorem jumpToRam_mem_kept : Row.jumpToRam none ∈ (new.run jumpToRam).1.list (.fresh .bios 0x1000) :=
  jumpToRam_mem_list rfl (traceAt_jumpToRam 0) rfl

/-- A new listing shows it with one. -/
theorem jumpToRam_mem_new : Row.jumpToRam (some "loc_1000") ∈ (new.run lateLabel).1.list lateBios := by
  have hcode : (new.run lateLabel).1.traceAt 0 = .ofFlags [.instruction] := by
    rw [run_lateLabel, traceAt, Classification.get_apply _ (by decide), if_neg (by decide)]
    exact traceAt_jumpToRam 0
  have hlabel : (new.run lateLabel).1.labelAt 0 = none := by
    rw [run_lateLabel, labelAt]
    decide
  have hmem := jumpToRam_mem_list (by rw [run_lateLabel]) hcode hlabel
  rwa [labelAt_lateLabel] at hmem

theorem render_lateLabel : (new.run lateLabel).1.render .bios =
    .ok ((new.run lateLabel).1, (new.run jumpToRam).1.list (.fresh .bios 0x1000)) :=
  render_eq_ok_iff.2 ⟨lateBios, by rw [run_lateLabel]; rfl, .inl ⟨rfl, rfl⟩⟩

/-! ## What the rows of a clean bank are worth -/

/-- The bank has rows, and they agree with those of a new listing, up to the labels of operands. No operand carries a
label that its place does not have. -/
def RowsAgree (tracer : Tracer) (bank : Bank) : Prop :=
  ∃ bytes trace rows,
    tracer.memory.slice? bank.start bank.stop = some bytes ∧
    tracer.classification.slice? bank.start bank.stop = some trace ∧
    bank.rows = some rows ∧
    rows.map Row.bare = (View.rows ⟨bank.start, bytes, trace⟩ tracer.symbols tracer.config).map Row.bare ∧
    ∀ row ∈ rows, ∀ operand ∈ row.operands, ∀ label, operand.label? = some label →
      ∃ address, operand.address? = some address ∧ tracer.labelAt address = some label

/-- **A listing that is kept is right up to the labels of operands.** This holds of every bank that is not dirty, in every
state that commands lead to which leave memory alone. -/
theorem clean_rows_agree {start : Tracer} (made : Made start) {commands : List Command}
    (quiet : ∀ command ∈ commands, command.mutatesMemory = false) {bank : Bank}
    (hmem : bank ∈ (start.run commands).1.registry.banks) (hclean : bank.dirty = false) :
    (start.run commands).1.RowsAgree bank := by
  have placed := (made.sound_run commands).arranged.placed hmem
  obtain ⟨before, since, rows, rfl, hrows, origin⟩ := made.exists_origin quiet hmem hclean
  obtain ⟨-, -, hrowsMade, -, keeps⟩ := origin
  have hmade := hrowsMade
  rw [list_eq _ placed, ← keeps.viewOf placed, ← keeps.config] at hmade
  refine ⟨_, _, rows, Memory.slice?_eq _ placed, Classification.slice?_eq _ placed, hrows, ?_, ?_⟩
  · rw [hmade]
    refine View.rows_map_bare_eq _ ?_
    have hagree := keeps.agreeOn placed
    rwa [← bank.length_addresses, ← List.length_map (start.run (before ++ since)).1.memory.read] at hagree
  · intro row hrow operand hoperand label hlabel
    rw [hrowsMade] at hrow
    cases operand with
    | target address shown =>
      have hshown := labelAt_of_mem_list placed hrow hoperand
      exact ⟨address, rfl, keeps.labelAt_eq_some (hshown.symm.trans hlabel)⟩
    | word value shown =>
      obtain ⟨i, hget⟩ := List.getElem?_of_mem hoperand
      have hshown := (label_of_mem_list placed hrow hget).2
      rw [show shown = some label from hlabel] at hshown
      split at hshown
      · exact ⟨value.toUInt32, rfl, keeps.labelAt_eq_some hshown.symm⟩
      · cases hshown
    | _ => cases hlabel

/-- The kept row of the jump and the new one agree up to the label of the target. -/
theorem clean_rows_agree_late : lateBios ∈ (new.run lateLabel).1.registry.banks ∧ lateBios.dirty = false ∧
    (∃ rows, lateBios.rows = some rows ∧ Row.jumpToRam none ∈ rows) ∧
    Row.jumpToRam (some "loc_1000") ∈ (new.run lateLabel).1.list lateBios ∧
    (new.run lateLabel).1.RowsAgree lateBios :=
  ⟨lateBios_mem, rfl, ⟨_, rfl, jumpToRam_mem_kept⟩, jumpToRam_mem_new,
    clean_rows_agree .new quiet_lateLabel lateBios_mem rfl⟩

/-! ## The labels of operands -/

/-- The rows of a bank show, behind `before ++ since`, the labels that there were behind `before`. -/
structure ShowsLabels (start : Tracer) (before since : List Command) (id : BankId) (rows : List Row) : Prop where
  /-- There was no current listing behind `before`, -/
  unlisted : (start.run before).1.isListed id = false
  /-- the rows are the listing that was made there, -/
  made : ∃ after, (start.run before).1.render id = .ok (after, rows)
  /-- and have been kept since. -/
  listed : ∀ more, more ≠ [] → more <+: since → (start.run (before ++ more)).1.isListed id = true
  target : ∀ row ∈ rows, ∀ address label, .target address label ∈ row.operands →
    label = (start.run before).1.labelAt address
  /-- A word that is known as a vector. -/
  vector : ∀ row ∈ rows, ∀ i value label, row.operands[i]? = some (.word value label) →
    ((start.run (before ++ since)).1.traceAt (row.address + UInt32.ofNat (2 * i))).has .vector = true →
      label = (start.run before).1.labelAt value.toUInt32
  /-- Only addresses outside the bank may have got a label since. -/
  current : ∀ address, (start.run before).1.labelAt address = (start.run (before ++ since)).1.labelAt address ∨
    (start.run before).1.labelAt address = none ∧ (start.run (before ++ since)).1.bankFor? address ≠ some id

/-- **Operands show the labels of the time when their rows were made.** -/
theorem render_labels {start : Tracer} (made : Made start) {commands : List Command}
    (quiet : ∀ command ∈ commands, command.mutatesMemory = false) {id : BankId} {after : Tracer} {rows : List Row}
    (h : (start.run commands).1.render id = .ok (after, rows)) :
    ∃ before since, commands = before ++ since ∧ ShowsLabels start before since id rows := by
  have sound := made.sound_run commands
  obtain ⟨before, since, rfl, bank, hmem, rfl, unlisted, listed, hmade, rendered, keeps⟩ := made.render_origin quiet h
  have placed := sound.arranged.placed hmem
  refine ⟨before, since, rfl, unlisted, rendered, listed, ?_, ?_, ?_⟩
  · intro row hrow address label hoperand
    rw [hmade] at hrow
    exact labelAt_of_mem_list placed hrow hoperand
  · intro row hrow i value label hget hvector
    rw [hmade] at hrow
    obtain ⟨hin, hlabel⟩ := label_of_mem_list placed hrow hget
    -- what is known about the first byte of the word is what was known when the row was made
    rw [keeps.word _ hin] at hvector
    rw [hlabel, if_pos hvector]
  · intro address
    rcases keeps.labelAt_cases address with hsame | ⟨hnone, hout⟩
    · exact .inl hsame
    · refine .inr ⟨hnone, fun hfor => hout ?_⟩
      obtain ⟨other, hother, hid, hcontains⟩ := sound.arranged.bankFor?_eq_some_iff.1 hfor
      rwa [sound.arranged.eq_of_id_eq hother hmem hid] at hcontains

/-- The rows show the jump as it was listed, when its target had no label yet. -/
theorem render_labels_late : ∃ after rows before since, (new.run lateLabel).1.render .bios = .ok (after, rows) ∧
    Row.jumpToRam none ∈ rows ∧ lateLabel = before ++ since ∧ ShowsLabels new before since .bios rows ∧
    (new.run before).1.labelAt 0x1000 = none ∧ (new.run lateLabel).1.labelAt 0x1000 = some "loc_1000" := by
  obtain ⟨before, since, hsplit, shows⟩ := render_labels .new quiet_lateLabel render_lateLabel
  have hnone := shows.target _ jumpToRam_mem_kept 0x1000 none List.mem_cons_self
  exact ⟨_, _, before, since, render_lateLabel, jumpToRam_mem_kept, hsplit, shows, hnone.symm, labelAt_lateLabel⟩

/-- A listing may show the number of a target that has a label: the one that was made late. -/
theorem render_without_label : (∀ command ∈ lateLabel, command.mutatesMemory = false) ∧
    ∃ after rows, (new.run lateLabel).1.render .bios = .ok (after, rows) ∧
      after.labelAt 0x1000 = some "loc_1000" ∧ ∃ row ∈ rows, .target 0x1000 none ∈ row.operands := by
  exact ⟨quiet_lateLabel, _, _, render_lateLabel, labelAt_lateLabel, _, jumpToRam_mem_kept, List.mem_cons_self⟩

end Tracer

end TraceDisasm
