import TraceDisasm.Proofs.JumpPage
import TraceDisasm.Proofs.Moves
import TraceDisasm.Proofs.Translation

/-!
# Branches within a page

A relative branch is resolved in the logical space, and its page is put back afterwards. While no page is selected, a branch
that stays in its page should lead to the end of its row plus its displacement. In numbers (`toNat_logical`,
`toNat_relativeTarget_of_stays`) it does so in page 0, and in every other page as long as the next instruction is still in
the page.

Behind the last byte of a page, the next instruction has a physical address in the page that follows. The CPU would count on
to logical address 0 there, but `Address.logical` gives the start of the window. Hence a branch back into the page is
resolved one window too low, in page 0 (`View.stays_iff`). A bank lies in one page (`Tracer.Sound.viewOf_inPage`), so this
concerns only the last instruction of a bank.
-/

namespace TraceDisasm

/-! ## Targets in numbers -/

namespace Address

/-- A branch that stays in a page is exact, but one window too low behind the last byte of a page other than the first. -/
theorem toNat_relativeTarget_of_stays {next : UInt32} {displacement : Int32} {jumpPage : UInt32} {page : Nat}
    (hpage : jumpPage.toNat = page * 0x8000) (hlo : page * 0x8000 < next.toNat) (hhi : next.toNat ≤ (page + 1) * 0x8000)
    (hstays : (next.toNat + displacement.toInt) / 0x8000 = page) :
    ((relativeTarget next displacement jumpPage).toNat : Int) =
      next.toNat + displacement.toInt - if next.toNat = (page + 1) * 0x8000 then page * 0x8000 else 0 := by
  have hfloor : (page * 0x8000 : Int) ≤ next.toNat + displacement.toInt := by omega
  have hceil : next.toNat + displacement.toInt < (page + 1) * 0x8000 := by omega
  have hlogical := toNat_logical next
  rw [toNat_relativeTarget next displacement hpage rfl]
  generalize (logical next).toNat = pc at hlogical
  by_cases hlast : next.toNat = (page + 1) * 0x8000
  · -- the next instruction is counted as the first one of the window
    rw [if_neg (by omega)] at hlogical
    rw [if_pos hlast]
    split <;> omega
  · rw [if_neg hlast]
    by_cases hfirst : page = 0
    · rw [if_pos (by omega)] at hlogical
      split <;> omega
    · rw [if_neg (by omega)] at hlogical
      split <;> omega

end Address

/-! ## Rows and banks in a page -/

/-- All addresses of a view are in one page of the physical space. -/
structure View.InPage (view : View) (page : Nat) : Prop where
  lt : page < BankId.pageCount
  start : page * 0x8000 ≤ view.start.toNat
  stop : view.start.toNat + view.bytes.length ≤ (page + 1) * 0x8000

/-- Rows that select no page leave the one before them. -/
theorem Row.jumpPage_of_plain {initial : UInt32} {before : List Row} (h : ∀ row ∈ before, row.loadedPage? = none) :
    jumpPage initial before = initial := by
  have hnone : before.reverse.findSome? loadedPage? = none := by
    rw [List.findSome?_eq_none_iff]
    intro row hrow
    exact h row (List.mem_reverse.1 hrow)
  rw [jumpPage, hnone]
  rfl

/-- A bank lies in one page. -/
theorem Registry.Arranged.exists_page {registry : Registry} {bank : Bank} (h : registry.Arranged)
    (hmem : bank ∈ registry.banks) :
    ∃ page < BankId.pageCount, page * 0x8000 ≤ bank.start.toNat ∧ bank.stop.toNat ≤ (page + 1) * 0x8000 := by
  obtain ⟨cartridgeEnd, h⟩ := h
  have hextent : bank.extent ∈ registry.banks.map Bank.extent := List.mem_map_of_mem hmem
  rw [h] at hextent
  obtain ⟨made, hmade, heq⟩ := List.mem_map.1 hextent
  rw [← (Bank.extent_eq_iff.1 heq).2, ← Bank.start_congr heq]
  rcases mem_ofCartridgeEnd_iff.1 hmade with rfl | rfl | ⟨page, hpage, rfl⟩
  · exact ⟨0, by decide, by decide, by decide⟩
  · exact ⟨0, by decide, by decide, by decide⟩
  · have hspace := Nat.min_le_right cartridgeEnd.toNat Address.spaceSize
    refine ⟨page, (lt_pagesUpTo hspace hpage).1, ?_, ?_⟩
    · rw [toNat_start_romBank hspace hpage]
      exact Nat.le_max_left _ _
    · rw [toNat_stop_romBank hspace]
      exact Nat.min_le_left _ _

/-- The banks of a reachable tracer are listed from views in a page. -/
theorem Tracer.Sound.viewOf_inPage {s : Tracer} (sound : s.Sound) {bank : Bank} (hmem : bank ∈ s.registry.banks) :
    ∃ page, (s.viewOf bank).InPage page := by
  obtain ⟨page, hlt, hstart, hstop⟩ := sound.arranged.exists_page hmem
  have hle := (sound.arranged.placed hmem).start_le
  refine ⟨page, hlt, hstart, ?_⟩
  show bank.start.toNat + (bank.addresses.map s.memory.read).length ≤ _
  rw [List.length_map, Bank.length_addresses, Bank.size]
  omega

/-! ## The branches of a listing -/

namespace View

/-- **Branches that stay in their page.** Where no page has been selected, the branch of a row leads to the end of the row
plus its displacement, as long as this is in the page of the row; except in the last row of a page other than the first.
There the target is in page 0, at the same offset. -/
theorem stays_iff {view : View} {symbols : Symbols} {config : Config} {page : Nat} {before after : List Row} {row : Row}
    {displacement : Int32} (inPage : view.InPage page) (hrows : view.rows symbols config = before ++ row :: after)
    (hcode : row.kind = .instruction) (hplain : ∀ earlier ∈ before, earlier.loadedPage? = none)
    (hdisplacement : row.displacement? = some displacement)
    (hstays : (row.stop.toNat + displacement.toInt) / 0x8000 = ((row.address.toNat / 0x8000 : Nat) : Int)) :
    ∃ target, row.targets = [target] ∧
      ((target.toNat : Int) = row.stop.toNat + displacement.toInt ↔ page = 0 ∨ row.stop.toNat < (page + 1) * 0x8000) ∧
      (row.stop.toNat = (page + 1) * 0x8000 →
        (target.toNat : Int) = row.stop.toNat + displacement.toInt - page * 0x8000) := by
  obtain ⟨hlt, hstart, hstop⟩ := inPage
  rw [BankId.pageCount] at hlt
  have hmem : row ∈ view.rows symbols config := by
    rw [hrows]
    simp
  obtain ⟨hlo, hpos, hhi⟩ := (view.rows_covers symbols config).bounds (by omega) row hmem
  have hjumpPage : (Address.pageStart view.start).toNat = page * 0x8000 := by
    rw [Address.toNat_pageStart]
    omega
  have hpage : row.address.toNat / 0x8000 = page := by omega
  rw [hpage] at hstays
  have htargets : row.targets = [Address.relativeTarget row.stop displacement (Address.pageStart view.start)] := by
    rw [(View.rows_follow hrows hcode).targets, hdisplacement, Row.jumpPage_of_plain hplain]
    rfl
  have hexact := Address.toNat_relativeTarget_of_stays hjumpPage (by omega) (by omega) hstays
  generalize Address.relativeTarget row.stop displacement (Address.pageStart view.start) = target at htargets hexact
  refine ⟨target, htargets, ?_, ?_⟩
  · split at hexact <;> omega
  · intro hlast
    rw [if_pos hlast] at hexact
    exact hexact

/-- An instruction, and behind it a branch to itself. -/
def selfBranch (start : UInt32) : View := ⟨start, [0xFF, 0xF1, 0xFE], [.ofFlags [.instruction]]⟩

/-- The first row of `selfBranch`. -/
def nop (address : UInt32) : Row := ⟨address, .instruction, "NOP", [], [0xFF], none⟩

/-- The second row of `selfBranch`. -/
def branchBack (address target : UInt32) : Row := ⟨address, .instruction, "JRS", [.target target none], [0xF1, 0xFE], none⟩

theorem stays_iff_selfBranch :
    (selfBranch 0x10000).InPage 2 ∧
      (selfBranch 0x10000).rows (.empty defaultStem) .standard = [nop 0x10000] ++ [branchBack 0x10001 0x10001] ∧
      ∃ target, (branchBack 0x10001 0x10001).targets = [target] ∧ (target.toNat : Int) = 0x10001 := by
  have inPage : (selfBranch 0x10000).InPage 2 := ⟨by decide, by decide, by decide⟩
  have hrows : (selfBranch 0x10000).rows (.empty defaultStem) .standard =
      [nop 0x10000] ++ [branchBack 0x10001 0x10001] := by
    decide +kernel
  have hdisplacement : (branchBack 0x10001 0x10001).displacement? = some (-2) := by decide
  obtain ⟨target, htargets, hiff, -⟩ := stays_iff inPage hrows rfl (by decide) hdisplacement (by decide)
  exact ⟨inPage, hrows, target, htargets, hiff.2 (.inr (by decide))⟩

/-- At the end of page 1, the branch to itself is shown as a branch to page 0. -/
theorem selfBranch_leaves_page :
    (selfBranch 0xFFFD).InPage 1 ∧
      (selfBranch 0xFFFD).rows (.empty defaultStem) .standard = [nop 0xFFFD] ++ [branchBack 0xFFFE 0x7FFE] ∧
      (nop 0xFFFD).loadedPage? = none ∧ (branchBack 0xFFFE 0x7FFE).displacement? = some (-2) ∧
      ((branchBack 0xFFFE 0x7FFE).stop.toNat + (-2 : Int32).toInt) / 0x8000 =
        (((branchBack 0xFFFE 0x7FFE).address.toNat / 0x8000 : Nat) : Int) ∧
      ¬ ∃ target, (branchBack 0xFFFE 0x7FFE).targets = [target] ∧
        (target.toNat : Int) = (branchBack 0xFFFE 0x7FFE).stop.toNat + (-2 : Int32).toInt := by
  refine ⟨⟨by decide, by decide, by decide⟩, by decide +kernel, by decide, by decide, by decide, ?_⟩
  rintro ⟨target, htargets, hexact⟩
  obtain rfl : 0x7FFE = target := List.singleton_inj.1 htargets
  exact absurd hexact (by decide)

end View

end TraceDisasm
