import Mathlib.Data.Multiset.Fold
import TraceDisasm.Proofs.CartridgeSwap
import TraceDisasm.Proofs.Evidence

/-!
# The order of accesses

What the CPU reports about one address has nothing to do with what it reports about another. So a series of reports leads
to the same state in every order that keeps the order at each address; and where all reports about an address are reads,
their order and their number do not matter either (`Tracer.Made.run_reports_congr`).

For words and labels this is so because they are settled address by address (`Tracer.traceAt_observeAll`,
`Tracer.contains_observeAll`). A bank is marked as soon as one of its words changes, which is said of the states in between
and not of the last one. But the first report that changes a word finds the word that was there before the series. So a bank
is marked just if some report about it would have changed something on its own (`Tracer.Sound.banks_observeAll`), and the
order is gone from the condition.
-/

namespace TraceDisasm

/-! ## Reads -/

namespace Access

instance : Std.Commutative union := ⟨fun a b => congrArg mk (UInt32.or_comm a.bits b.bits)⟩

instance : Std.Associative union := ⟨fun a b c => congrArg mk (UInt32.or_assoc a.bits b.bits c.bits)⟩

instance : Std.IdempotentOp union := ⟨fun _ => congrArg mk UInt32.or_self⟩

/-- What several words tell together does not depend on their order, nor on how often each of them is told. -/
theorem foldl_union_congr {words words' : List Access} (h : ∀ word, word ∈ words ↔ word ∈ words') (known : Access) :
    words.foldl union known = words'.foldl union known := by
  have hdedup : (words : Multiset Access).dedup = (words' : Multiset Access).dedup := Multiset.dedup_ext.2 h
  rw [← Multiset.coe_fold_l, ← Multiset.coe_fold_l, ← Multiset.fold_dedup_idem, hdedup, Multiset.fold_dedup_idem]

end Access

/-! ## Reports -/

/-- An access that the CPU reports. -/
structure Report where
  address : UInt32
  kind : Access
  value : UInt8

namespace Report

/-- The command that makes the report. -/
def command (report : Report) : Command := .observe report.address report.kind report.value

/-- The accesses to an address, in the order in which they are reported. -/
def kindsAt (address : UInt32) (reports : List Report) : List Access :=
  (reports.filter fun report => report.address == address).map kind

/-- The same is reported about an address: the same accesses in the same order, or nothing but reads, and the same of them
in whatever order and number. -/
def SameAt (address : UInt32) (reports reports' : List Report) : Prop :=
  kindsAt address reports = kindsAt address reports' ∨
    (∀ kind ∈ kindsAt address reports, kind.isWrite = false) ∧
      ∀ kind, kind ∈ kindsAt address reports ↔ kind ∈ kindsAt address reports'

variable {address : UInt32} {report : Report} {reports reports' : List Report} {kind : Access}

theorem mem_kindsAt :
    kind ∈ kindsAt address reports ↔ ∃ report ∈ reports, report.address = address ∧ report.kind = kind := by
  simp [kindsAt, and_assoc]

theorem kindsAt_cons_self : kindsAt report.address (report :: reports) = report.kind :: kindsAt report.address reports := by
  simp [kindsAt]

theorem kindsAt_cons_of_ne (h : report.address ≠ address) : kindsAt address (report :: reports) = kindsAt address reports := by
  simp [kindsAt, h]

theorem SameAt.mem_iff (same : SameAt address reports reports') :
    kind ∈ kindsAt address reports ↔ kind ∈ kindsAt address reports' := by
  rcases same with hsame | ⟨-, hmem⟩
  · rw [hsame]
  · exact hmem kind

theorem SameAt.symm (same : SameAt address reports reports') : SameAt address reports' reports := by
  rcases same with hsame | ⟨hreads, hmem⟩
  · exact .inl hsame.symm
  · exact .inr ⟨fun kind h => hreads kind ((hmem kind).2 h), fun kind => (hmem kind).symm⟩

end Report

/-- What is known about an address behind an access to it. -/
def Access.learn (address : UInt32) (known kind : Access) : Access :=
  (Evidence.ofAccess? address kind).toList.foldl Evidence.weigh known

/-- At some addresses every read adds what it tells, and at all others no read tells anything. -/
theorem Access.learn_reads (address : UInt32) :
    (∀ known kind, kind.isWrite = false → learn address known kind = known) ∨
      ∀ known kind, kind.isWrite = false → learn address known kind = known.union kind.persistent := by
  have hwrite {kind : Access} (hread : kind.isWrite = false) : ¬ kind.isWrite = true := Bool.eq_false_iff.1 hread
  by_cases h : address < Address.spaceEnd ∧ ¬ Address.isRegister address = true
  · refine .inr fun known kind hread => ?_
    rw [learn, Evidence.ofAccess?, if_neg (hwrite hread), if_pos h]
    rfl
  · refine .inl fun known kind hread => ?_
    rw [learn, Evidence.ofAccess?, if_neg (hwrite hread), if_neg h]
    rfl

theorem Report.SameAt.foldl_learn {address : UInt32} {reports reports' : List Report}
    (same : SameAt address reports reports') (known : Access) :
    (kindsAt address reports).foldl (Access.learn address) known =
      (kindsAt address reports').foldl (Access.learn address) known := by
  rcases same with hsame | ⟨hreads, hmem⟩
  · rw [hsame]
  · have hreads' : ∀ kind ∈ kindsAt address reports', kind.isWrite = false := fun kind h => hreads kind ((hmem kind).2 h)
    rcases Access.learn_reads address with hsilent | hunion
    · rw [List.foldl_ext _ (fun known _ => known) known fun known kind h => hsilent known kind (hreads kind h),
        List.foldl_ext _ (fun known _ => known) known fun known kind h => hsilent known kind (hreads' kind h),
        List.foldl_fixed, List.foldl_fixed]
    · rw [List.foldl_ext _ _ known fun known kind h => hunion known kind (hreads kind h),
        List.foldl_ext _ _ known fun known kind h => hunion known kind (hreads' kind h)]
      have hwords : ∀ word, word ∈ (kindsAt address reports).map Access.persistent ↔
          word ∈ (kindsAt address reports').map Access.persistent := fun word => by simp only [List.mem_map, hmem]
      have hfold := Access.foldl_union_congr hwords known
      rwa [List.foldl_map, List.foldl_map] at hfold

namespace Tracer

/-! ## A series of reports -/

/-- The state behind a series of reports. -/
def observeAll (s : Tracer) (reports : List Report) : Tracer := (s.run (reports.map Report.command)).1

/-- Whether a report would change the word of its address. -/
def changedBy (s : Tracer) (report : Report) : Bool :=
  Access.learn report.address (s.traceAt report.address) report.kind != s.traceAt report.address

variable {s : Tracer}

theorem observeAll_cons (s : Tracer) (report : Report) (reports : List Report) :
    s.observeAll (report :: reports) = (s.observe report.address report.kind report.value).observeAll reports := rfl

theorem Sound.touches_report (sound : s.Sound) (report : Report) :
    s.Touches (s.observe report.address report.kind report.value) report.address report.kind :=
  sound.touches report.address report.kind report.value

theorem Sound.report (sound : s.Sound) (report : Report) : (s.observe report.address report.kind report.value).Sound :=
  sound.perform report.command

/-- The word of an address follows from the reports about this address, in their order. -/
theorem traceAt_observeAll (s : Tracer) (reports : List Report) (address : UInt32) :
    (s.observeAll reports).traceAt address =
      (Report.kindsAt address reports).foldl (Access.learn address) (s.traceAt address) := by
  induction reports generalizing s with
  | nil => rfl
  | cons report reports ih =>
    rw [observeAll_cons, ih]
    by_cases haddress : report.address = address
    · subst haddress
      rw [Report.kindsAt_cons_self, List.foldl_cons, traceAt_observe]
      rfl
    · rw [Report.kindsAt_cons_of_ne haddress, traceAt_observe_of_ne (Ne.symm haddress)]

/-- An address is labelled if it was, or if one of the reports about it gives it a label. -/
theorem contains_observeAll (s : Tracer) (reports : List Report) (address : UInt32) :
    (s.observeAll reports).symbols.contains address = true ↔
      s.symbols.contains address = true ∨ ∃ kind ∈ Report.kindsAt address reports, kind.givesLabel address = true := by
  induction reports generalizing s with
  | nil => simp [observeAll, Report.kindsAt]
  | cons report reports ih =>
    rw [observeAll_cons, ih, contains_observe]
    by_cases haddress : report.address = address
    · subst haddress
      simp [Report.kindsAt_cons_self, or_assoc, or_left_comm]
    · simp [Report.kindsAt_cons_of_ne haddress, haddress]

theorem observeAll_frame (s : Tracer) (sound : s.Sound) (reports : List Report) :
    (s.observeAll reports).config = s.config ∧ (s.observeAll reports).memory = s.memory ∧
      (s.observeAll reports).subscriptions = s.subscriptions ∧
      (s.observeAll reports).symbols.stem = s.symbols.stem := by
  induction reports generalizing s with
  | nil => exact ⟨rfl, rfl, rfl, rfl⟩
  | cons report reports ih =>
    have touches := sound.touches_report report
    obtain ⟨hconfig, hmemory, hsubscriptions, hstem⟩ := ih _ (sound.report report)
    exact ⟨hconfig.trans touches.config, hmemory.trans touches.memory, hsubscriptions.trans touches.subscriptions,
      hstem.trans touches.stem⟩

/-- Whether one of several reports about a bank would change something on its own. -/
def marks (s : Tracer) (reports : List Report) (bank : Bank) : Bool :=
  reports.any fun report => bank.contains report.address && s.changedBy report

/-- A report leaves it open, for a bank that it is not about, which reports would change something there. -/
theorem marks_observe (reports : List Report) {report : Report} {bank : Bank}
    (hout : bank.contains report.address = false) :
    (s.observe report.address report.kind report.value).marks reports bank = s.marks reports bank := by
  refine congrArg reports.any (funext fun other => ?_)
  by_cases hin : bank.contains other.address = true
  · have hother : other.address ≠ report.address := by
      rintro heq
      rw [heq, hout] at hin
      cases hin
    rw [changedBy, changedBy, traceAt_observe_of_ne hother]
  · rw [Bool.eq_false_iff.2 hin, Bool.false_and, Bool.false_and]

theorem Sound.banks_observeAll (sound : s.Sound) (reports : List Report) :
    (s.observeAll reports).registry.banks =
      s.registry.banks.map fun bank => if s.marks reports bank = true then bank.invalidate else bank := by
  induction reports generalizing s with
  | nil => simp [observeAll, marks]
  | cons report reports ih =>
    rw [observeAll_cons, ih (sound.report report)]
    have hword := s.traceAt_observe report.address report.kind report.value
    rcases s.observe_cases report.address report.kind report.value with ⟨hsame, -⟩ | ⟨hother, hregistry⟩
    · -- the report changes nothing at all
      have hidle : s.changedBy report = false := by
        rw [changedBy, bne_eq_false_iff_eq]
        exact hword.symm.trans hsame
      have hmarks (bank : Bank) : s.marks (report :: reports) bank = s.marks reports bank := by simp [marks, hidle]
      simp only [sound.observe_eq_self hsame, hmarks]
    · -- the report marks the banks that it is about; the others are marked by the same reports as before
      have hchanges : s.changedBy report = true := by
        rw [changedBy, bne_iff_ne]
        exact fun heq => hother (hword.trans heq)
      rw [hregistry, sound.arranged.invalidateAt_eq, List.map_map]
      refine List.map_congr_left fun bank _ => ?_
      rw [Function.comp_apply]
      by_cases hin : bank.contains report.address = true
      · have hmarks : s.marks (report :: reports) bank = true := by simp [marks, hin, hchanges]
        rw [if_pos hin, if_pos hmarks]
        split <;> rfl
      · have hout : bank.contains report.address = false := Bool.eq_false_iff.2 hin
        have hmarks : s.marks (report :: reports) bank = s.marks reports bank := by simp [marks, hout]
        rw [if_neg hin, marks_observe reports hout, hmarks]

/-- A bank is marked by the same series in whatever order it is told. -/
theorem marks_congr {reports reports' : List Report} (same : ∀ address, Report.SameAt address reports reports')
    (bank : Bank) : s.marks reports bank = s.marks reports' bank := by
  have told {reports reports' : List Report} (same : ∀ address, Report.SameAt address reports reports')
      (h : s.marks reports bank = true) : s.marks reports' bank = true := by
    obtain ⟨report, hmem, hreport⟩ := List.any_eq_true.1 h
    obtain ⟨report', hmem', haddress, hkind⟩ :=
      Report.mem_kindsAt.1 ((same report.address).mem_iff.1 (Report.mem_kindsAt.2 ⟨report, hmem, rfl, rfl⟩))
    refine List.any_eq_true.2 ⟨report', hmem', ?_⟩
    rw [changedBy, haddress, hkind]
    exact hreport
  exact Bool.eq_iff_iff.2 ⟨told same, told fun address => (same address).symm⟩

/-! ## The order does not matter -/

/-- A tracer is known by its parts, and these by what is found at addresses. -/
theorem eq_of_parts {s t : Tracer} (hconfig : s.config = t.config) (hmemory : s.memory = t.memory)
    (hsubscriptions : s.subscriptions = t.subscriptions) (hbanks : s.registry.banks = t.registry.banks)
    (hword : ∀ address, s.traceAt address = t.traceAt address) (hstem : s.symbols.stem = t.symbols.stem)
    (hlabelled : ∀ address, s.symbols.contains address = t.symbols.contains address) : s = t := by
  obtain ⟨config, memory, classification, ⟨banks⟩, symbols, subscriptions⟩ := s
  obtain ⟨config', memory', classification', ⟨banks'⟩, symbols', subscriptions'⟩ := t
  obtain rfl : config = config' := hconfig
  obtain rfl : memory = memory' := hmemory
  obtain rfl : subscriptions = subscriptions' := hsubscriptions
  obtain rfl : banks = banks' := hbanks
  obtain rfl : classification = classification' := Classification.eq_of_get hword
  obtain rfl : symbols = symbols' := Symbols.eq_of_contains hstem hlabelled
  rfl

theorem Sound.observeAll_congr (sound : s.Sound) {reports reports' : List Report}
    (same : ∀ address, Report.SameAt address reports reports') : s.observeAll reports = s.observeAll reports' := by
  obtain ⟨hconfig, hmemory, hsubscriptions, hstem⟩ := s.observeAll_frame sound reports
  obtain ⟨hconfig', hmemory', hsubscriptions', hstem'⟩ := s.observeAll_frame sound reports'
  refine eq_of_parts (hconfig.trans hconfig'.symm) (hmemory.trans hmemory'.symm)
    (hsubscriptions.trans hsubscriptions'.symm) ?_ (fun address => ?_) (hstem.trans hstem'.symm) fun address => ?_
  · rw [sound.banks_observeAll, sound.banks_observeAll]
    simp only [marks_congr same]
  · rw [traceAt_observeAll, traceAt_observeAll, (same address).foldl_learn]
  · rw [Bool.eq_iff_iff, contains_observeAll, contains_observeAll]
    simp only [(same address).mem_iff]

/-- **The order of accesses.** In every state that commands lead to, two series of reports lead to the same state if they
say the same about each address. The bytes that are read and written do not count. -/
theorem Made.run_reports_congr {start : Tracer} (made : Made start) (commands : List Command)
    {reports reports' : List Report} (same : ∀ address, Report.SameAt address reports reports') :
    (start.run (commands ++ reports.map Report.command)).1 = (start.run (commands ++ reports'.map Report.command)).1 := by
  rw [run_append, run_append]
  exact (made.sound_run commands).observeAll_congr same

/-- Data is written to the RAM and read back, and meanwhile code is read from the BIOS. -/
def reportedMixed : List Report :=
  [⟨0x1040, .ofFlags [.data, .write], 1⟩, ⟨0x10, targetRead, 0⟩, ⟨0x10, dataRead, 0⟩, ⟨0x1040, dataRead, 1⟩]

/-- First the BIOS is read, another time and the other way round, and then the RAM is written and read. -/
def reportedSorted : List Report :=
  [⟨0x10, dataRead, 0⟩, ⟨0x10, targetRead, 0⟩, ⟨0x10, targetRead, 0⟩, ⟨0x1040, .ofFlags [.data, .write], 1⟩,
    ⟨0x1040, dataRead, 1⟩]

theorem run_reports_congr_mixed :
    (new.run ([.update, .render .ram] ++ reportedMixed.map Report.command)).1 =
      (new.run ([.update, .render .ram] ++ reportedSorted.map Report.command)).1 := by
  refine Made.new.run_reports_congr [.update, .render .ram] fun address => ?_
  by_cases hram : address = 0x1040
  · exact .inl (by subst hram; decide)
  · by_cases hbios : address = 0x10
    · subst hbios
      have hkinds : Report.kindsAt 0x10 reportedMixed = [targetRead, dataRead] := by decide
      have hkinds' : Report.kindsAt 0x10 reportedSorted = [dataRead, targetRead, targetRead] := by decide
      refine .inr ⟨by rw [hkinds]; decide, fun kind => ?_⟩
      rw [hkinds, hkinds']
      simp [or_comm]
    · exact .inl (by simp [Report.kindsAt, reportedMixed, reportedSorted, Ne.symm hram, Ne.symm hbios])

end Tracer

end TraceDisasm
