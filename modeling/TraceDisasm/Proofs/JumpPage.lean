import TraceDisasm.Proofs.Encoding
import TraceDisasm.Proofs.OperandLabels

/-!
# Where relative branches lead

A relative branch into the banked window leads to the page that was selected last. A listing keeps track of that page while
it walks, but it need not: the rows tell. Only an instruction of the bytes `CE C4 nn` selects a page
(`Row.loadedPage?`), and a branch shows its displacement in its last bytes (`Row.displacement?`). So each target follows from
its own row and the rows before it (`View.targets_eq`). Rows of data, illegal rows and the ends of runs in between leave the
page as it is, and the same bytes select no page if they are shown as data or are cut off.

Two facts about the tables carry this: a relative argument is the only argument of its operation, and `LD NB,#nn` has no
other opcode (`Opcode.relative_alone`, `Opcode.loadsPage_iff`).
-/

namespace TraceDisasm

/-! ## What the tables hold -/

/-- Whether an argument is the displacement of a branch. -/
def Argument.isRelative : Argument → Bool
  | relative8 | relative16 => true
  | _ => false

/-- Whether an operation is `LD NB,#nn`, which selects a page. -/
def Operation.loadsPage (operation : Operation) : Bool :=
  operation.mnemonic = .ld && operation.arguments = [.register .nb, .immediate8]

namespace Opcode

/-- All opcodes, with the operations that they stand for. -/
def all : List (List UInt8 × Operation) :=
  (List.range 256).flatMap fun first =>
    match Slot.ofByte (UInt8.ofNat first) with
    | .undefined => []
    | .operation operation => [([UInt8.ofNat first], operation)]
    | .extension extension => (List.range 256).filterMap fun second =>
        (extension.operation? (UInt8.ofNat second)).map fun operation =>
          ([UInt8.ofNat first, UInt8.ofNat second], operation)

variable {bytes : List UInt8} {size : Nat} {operation : Operation}

theorem mem_all_of_lookup (h : lookup bytes = some (size, operation)) : (bytes.take size, operation) ∈ all := by
  have hbyte (byte : UInt8) : byte.toNat ∈ List.range 256 ∧ UInt8.ofNat byte.toNat = byte :=
    ⟨List.mem_range.2 byte.toNat_lt, UInt8.ofNat_toNat⟩
  cases bytes with
  | nil => cases h
  | cons first rest =>
    refine List.mem_flatMap.2 ⟨first.toNat, (hbyte first).1, ?_⟩
    rw [(hbyte first).2]
    cases hslot : Slot.ofByte first with
    | undefined =>
      simp only [lookup, hslot] at h
      cases h
    | operation found =>
      simp only [lookup, hslot] at h
      obtain ⟨rfl, rfl⟩ := Prod.mk.inj (Option.some.inj h)
      exact List.mem_singleton_self _
    | extension extension =>
      cases rest with
      | nil =>
        simp only [lookup, hslot] at h
        cases h
      | cons second rest =>
        simp only [lookup, hslot] at h
        obtain ⟨found, hfound, heq⟩ := Option.map_eq_some_iff.1 h
        obtain ⟨rfl, rfl⟩ := Prod.mk.inj heq
        refine List.mem_filterMap.2 ⟨second.toNat, (hbyte second).1, ?_⟩
        rw [(hbyte second).2, hfound]
        rfl

/-- What is checked for the tables as a whole. -/
theorem all_regular : ∀ entry ∈ all,
    (∀ argument ∈ entry.2.arguments, argument.isRelative = true → entry.2.arguments = [argument]) ∧
      (entry.2.loadsPage = true ↔ entry.1 = [0xCE, 0xC4]) := by
  decide +kernel

/-- A relative argument is the only one of its operation. -/
theorem relative_alone (h : lookup bytes = some (size, operation)) {argument : Argument}
    (hmem : argument ∈ operation.arguments) (hrelative : argument.isRelative = true) :
    operation.arguments = [argument] :=
  (all_regular _ (mem_all_of_lookup h)).1 argument hmem hrelative

/-- Only one opcode selects a page. -/
theorem loadsPage_iff (h : lookup bytes = some (size, operation)) :
    operation.loadsPage = true ↔ bytes.take size = [0xCE, 0xC4] :=
  (all_regular _ (mem_all_of_lookup h)).2

end Opcode

/-! ## What a row tells -/

/-- The address that a branch leads to. -/
def Operand.target? : Operand → Option UInt32
  | target address _ => some address
  | _ => none

namespace Row

/-- The addresses that the branches of a row lead to. -/
def targets (row : Row) : List UInt32 := row.operands.filterMap Operand.target?

/-- The relative argument of the operation that a row shows, if it has one. -/
def relative? (row : Row) : Option Argument :=
  (Opcode.lookup row.raw).bind fun (_, operation) => operation.arguments.find? Argument.isRelative

/-- The signed displacement of a relative argument: the last byte of a row, or its last two. -/
def displacement? (row : Row) : Option Int32 :=
  match row.relative?, row.raw.reverse with
  | some .relative8, distance :: _ => some distance.toInt8.toInt32
  | some .relative16, high :: low :: _ => some (Cursor.wordOf low high).toInt16.toInt32
  | _, _ => none

/-- The page that a row selects for the branches behind it. -/
def loadedPage? (row : Row) : Option UInt32 :=
  match row.kind, row.raw with
  | .instruction, [0xCE, 0xC4, number] => some (Address.pageOfNumber number)
  | _, _ => none

/-- The page that is selected behind some rows: that of the latest row that selects one, or the one before all of them. -/
def jumpPage (initial : UInt32) (before : List Row) : UInt32 :=
  (before.reverse.findSome? loadedPage?).getD initial

/-- The branch of a row, if there is one, leads to where its displacement does. -/
structure Follows (row : Row) (jumpPage : UInt32) : Prop where
  displacement : row.displacement?.isSome = row.relative?.isSome
  targets : row.targets =
    (row.displacement?.map fun displacement => Address.relativeTarget row.stop displacement jumpPage).toList

variable {row : Row} {initial : UInt32} {before : List Row}

theorem jumpPage_cons : jumpPage initial (row :: before) = jumpPage (row.loadedPage?.getD initial) before := by
  simp only [jumpPage, List.reverse_cons, List.findSome?_append, List.findSome?_cons, List.findSome?_nil]
  cases before.reverse.findSome? loadedPage? with
  | none => cases row.loadedPage? <;> rfl
  | some page => rfl

end Row

/-! ## One instruction -/

namespace Argument

variable {branch : Int32 → Operand} {argument : Argument} {arguments : List Argument} {bytes : List UInt8}
  {operand : Operand} {operands : List Operand}

theorem Encodes.target?_eq_none (h : Encodes branch argument bytes operand) (hplain : argument.isRelative = false) :
    operand.target? = none := by
  cases h <;> first | rfl | cases hplain

theorem EncodesAll.targets_eq_nil (h : EncodesAll branch arguments bytes operands)
    (hplain : ∀ argument ∈ arguments, argument.isRelative = false) : operands.filterMap Operand.target? = [] := by
  induction h with
  | nil => rfl
  | cons hfirst _ ih =>
    rw [List.forall_mem_cons] at hplain
    rw [List.filterMap_cons_none (hfirst.target?_eq_none hplain.1)]
    exact ih hplain.2

theorem EncodesAll.singleton (h : EncodesAll branch [argument] bytes operands) :
    ∃ operand, operands = [operand] ∧ Encodes branch argument bytes operand := by
  cases h with
  | @cons _ first operand _ rest _ hfirst hrest =>
    cases hrest with
    | nil => exact ⟨operand, rfl, by rwa [List.append_nil]⟩

/-- The operands of `LD NB,#nn`. -/
theorem EncodesAll.page (h : EncodesAll branch [.register .nb, .immediate8] bytes operands) :
    ∃ number, bytes = [number] ∧ operands = [.register Register.nb.name, .immediate8 number] := by
  cases h with
  | cons hfirst hrest =>
    obtain ⟨operand, rfl, hsecond⟩ := hrest.singleton
    cases hfirst
    cases hsecond with
    | immediate8 number => exact ⟨number, rfl, rfl⟩

end Argument

namespace Row

variable {branch : Int32 → Operand} {row : Row} {size : Nat} {operation : Operation} {operands : List Operand}

theorem Shows.relative? (h : row.Shows branch size operation operands) :
    row.relative? = operation.arguments.find? Argument.isRelative := by
  simp only [Row.relative?, h.lookup, Option.bind_some]

/-- Conditions lead nowhere. -/
theorem Shows.targets (h : row.Shows branch size operation operands) :
    row.targets = operands.filterMap Operand.target? := by
  have hcondition : (operation.condition.toList.map Operand.condition).filterMap Operand.target? = [] := by
    rw [List.filterMap_map]
    exact List.filterMap_eq_nil_iff.2 fun _ _ => rfl
  rw [Row.targets, h.operands, List.filterMap_append, hcondition, List.nil_append]

/-- A branch leads to where its displacement does. -/
theorem Shows.follows {symbols : Symbols} {page : UInt32}
    (h : row.Shows (Instruction.branchBefore symbols row.stop page) size operation operands) : row.Follows page := by
  have hrelative := h.relative?
  cases hfind : operation.arguments.find? Argument.isRelative with
  | none =>
    rw [hfind] at hrelative
    have hnone : row.displacement? = none := by
      simp only [displacement?, hrelative]
    have hplain : ∀ argument ∈ operation.arguments, argument.isRelative = false := by
      simpa using List.find?_eq_none.1 hfind
    refine ⟨?_, ?_⟩
    · rw [hnone, hrelative]
      rfl
    · rw [h.targets, h.encodes.targets_eq_nil hplain, hnone]
      rfl
  | some argument =>
    rw [hfind] at hrelative
    have hargument := List.find?_some hfind
    have hall := h.encodes
    rw [Opcode.relative_alone h.lookup (List.mem_of_find?_eq_some hfind) hargument] at hall
    obtain ⟨operand, hoperands, hencodes⟩ := hall.singleton
    have htargets := h.targets
    have hraw := List.take_append_drop size row.raw
    rw [hoperands] at htargets
    generalize row.raw.drop size = own at hencodes hraw
    have follows (displacement : Int32) (hdisplacement : row.displacement? = some displacement)
        (hoperand : operand = Instruction.branchBefore symbols row.stop page displacement) : row.Follows page := by
      refine ⟨?_, ?_⟩
      · rw [hdisplacement, hrelative]
        rfl
      · rw [htargets, hdisplacement, hoperand]
        rfl
    -- the displacement is in the bytes of the only argument, which are the last of the row
    cases hencodes with
    | relative8 distance =>
      refine follows distance.toInt8.toInt32 ?_ rfl
      simp only [displacement?, hrelative]
      rw [← hraw, List.reverse_append]
      rfl
    | relative16 low high =>
      refine follows (Cursor.wordOf low high).toInt16.toInt32 ?_ rfl
      simp only [displacement?, hrelative]
      rw [← hraw, List.reverse_append]
      rfl
    | _ => cases hargument

/-- A row tells the page that its operation selects. -/
theorem Shows.loadedPage? (h : row.Shows branch size operation operands) :
    row.loadedPage? = operation.loadedPage? operands := by
  by_cases hloads : operation.loadsPage = true
  · have hencodes := h.encodes
    have hraw := List.take_append_drop size row.raw
    rw [(Opcode.loadsPage_iff h.lookup).1 hloads] at hraw
    simp only [Operation.loadsPage, Bool.and_eq_true, decide_eq_true_eq] at hloads
    rw [hloads.2] at hencodes
    obtain ⟨number, hnumber, hoperands⟩ := hencodes.page
    rw [hnumber] at hraw
    have hrow : row.loadedPage? = some (Address.pageOfNumber number) := by
      rw [Row.loadedPage?, h.kind, ← hraw]
      rfl
    rw [hrow, eq_comm, Operation.loadedPage?_eq_some_iff]
    exact ⟨hloads.1, hloads.2, _, number, hoperands, rfl⟩
  · have hnone : operation.loadedPage? operands = none := by
      rw [Option.eq_none_iff_forall_ne_some]
      intro page hpage
      obtain ⟨hmnemonic, harguments, -⟩ := Operation.loadedPage?_eq_some_iff.1 hpage
      exact hloads (by simp [Operation.loadsPage, hmnemonic, harguments])
    rw [hnone, Row.loadedPage?]
    split
    · next number hkind hbytes =>
      have hlookup := h.lookup
      rw [hbytes] at hlookup
      obtain ⟨rfl, rfl⟩ := Prod.mk.inj (Option.some.inj hlookup)
      exact absurd rfl hloads
    · rfl

end Row

namespace Instruction

/-- What a decoded row is, and the page that is selected behind it. -/
theorem decode_cases (symbols : Symbols) (jumpPage : UInt32) (cursor : Cursor) :
    (∃ size operation operands,
        (decode symbols jumpPage cursor).row.Shows
          (branchBefore symbols (decode symbols jumpPage cursor).row.stop jumpPage) size operation operands ∧
        (decode symbols jumpPage cursor).jumpPage = (operation.loadedPage? operands).getD jumpPage) ∨
      (decode symbols jumpPage cursor).row.kind = .illegal ∧ (decode symbols jumpPage cursor).jumpPage = jumpPage := by
  obtain ⟨size, operation, hlookup, hbytes⟩ | hcut := cursor.complete_or_cut
  · obtain ⟨operands, hshows, hdecode⟩ := decode_of_complete symbols jumpPage hlookup hbytes
    refine .inl ⟨size, operation, operands, hshows, ?_⟩
    rw [hdecode]
    rfl
  · obtain ⟨length, hdecode, -⟩ := decode_of_incomplete symbols jumpPage hcut
    rw [hdecode]
    exact .inr ⟨rfl, rfl⟩

end Instruction

/-! ## The walk -/

namespace Walk

variable (symbols : Symbols) (config : Config) (walk : Walk)

/-- The next row shows an operation, or it is no instruction and leaves the page as it is. -/
theorem step_cases :
    (∃ size operation operands,
        (walk.step symbols config).1.Shows
          (Instruction.branchBefore symbols (walk.step symbols config).1.stop walk.jumpPage) size operation operands ∧
        (walk.step symbols config).2.jumpPage = (operation.loadedPage? operands).getD walk.jumpPage) ∨
      (walk.step symbols config).1.kind ≠ .instruction ∧ (walk.step symbols config).2.jumpPage = walk.jumpPage := by
  simp only [step, bareRow]
  split
  · rcases Instruction.decode_cases symbols walk.jumpPage walk.cursor with
      ⟨size, operation, operands, hshows, hpage⟩ | ⟨hkind, hpage⟩
    · exact .inl ⟨size, operation, operands,
        ⟨hshows.kind, hshows.mnemonic, hshows.lookup, hshows.encodes, hshows.operands⟩, hpage⟩
    · refine .inr ⟨?_, hpage⟩
      show (Instruction.decode symbols walk.jumpPage walk.cursor).row.kind ≠ .instruction
      simp [hkind]
  · split
    · exact .inr ⟨by simp [wordsRow], rfl⟩
    · exact .inr ⟨by simp [bytesRow], rfl⟩

/-- The next row tells which page is selected behind it. -/
theorem step_jumpPage :
    (walk.step symbols config).2.jumpPage = (walk.step symbols config).1.loadedPage?.getD walk.jumpPage := by
  rcases step_cases symbols config walk with ⟨size, operation, operands, hshows, hpage⟩ | ⟨hkind, hpage⟩
  · rw [hpage, hshows.loadedPage?]
  · have hnone : (walk.step symbols config).1.loadedPage? = none := by
      unfold Row.loadedPage?
      split
      · contradiction
      · rfl
    rw [hpage, hnone]
    rfl

theorem step_follows (hcode : (walk.step symbols config).1.kind = .instruction) :
    (walk.step symbols config).1.Follows walk.jumpPage := by
  rcases step_cases symbols config walk with ⟨size, operation, operands, hshows, -⟩ | ⟨hkind, -⟩
  · exact hshows.follows
  · exact absurd hcode hkind

/-- Every branch of a walk follows the page that the rows before it tell. -/
theorem listing_follows {before after : List Row} {row : Row}
    (hrows : walk.listing symbols config = before ++ row :: after) (hcode : row.kind = .instruction) :
    row.Follows (Row.jumpPage walk.jumpPage before) := by
  suffices ∀ before, walk.listing symbols config = before ++ row :: after →
      row.Follows (Row.jumpPage walk.jumpPage before) from this before hrows
  refine listing_induct symbols config (P := fun walk rows => ∀ before, rows = before ++ row :: after →
    row.Follows (Row.jumpPage walk.jumpPage before)) ?_ ?_ walk
  · intro walk _ before hrows
    simp at hrows
  · intro walk _ ih before hrows
    cases before with
    | nil =>
      obtain ⟨rfl, -⟩ := List.cons.inj hrows
      exact step_follows symbols config walk hcode
    | cons first before =>
      obtain ⟨rfl, htail⟩ := List.cons.inj hrows
      rw [Row.jumpPage_cons, ← step_jumpPage]
      exact ih before htail

end Walk

namespace View

theorem rows_follow {view : View} {symbols : Symbols} {config : Config} {before after : List Row} {row : Row}
    (hrows : view.rows symbols config = before ++ row :: after) (hcode : row.kind = .instruction) :
    row.Follows (Row.jumpPage (Address.pageStart view.start) before) := by
  rw [rows_eq_listing] at hrows
  exact (Walk.ofView view).listing_follows symbols config hrows hcode

end View

end TraceDisasm
