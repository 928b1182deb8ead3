import TraceDisasm.Proofs.BankLayout

/-!
# The banks divide the address space

Whatever the cartridge fills, the banks are ranges of addresses one behind the other, and none of them is empty. Together
they hold the addresses below the registers, and above them those that the cartridge fills; BIOS and RAM come first, and
the bank of a page lies in its page (`Registry.partition_ofCartridgeEnd`).

A bank is looked up by its identifier and by an address. Both find the bank that there is, and find none only where there is
none; the place of a bank in the display order follows from its identifier.
-/

namespace TraceDisasm

namespace Registry

/-! ## The bank of a page -/

section

variable {stop page : Nat}

theorem contains_romBank_iff (hstop : stop ≤ Address.spaceSize) (h : page < pagesUpTo stop) {address : UInt32} :
    (romBank stop page).contains address = true ↔
      address.toNat / 0x8000 = page ∧ 0x2100 ≤ address.toNat ∧ address.toNat < stop := by
  rw [Bank.contains_iff, toNat_start_romBank hstop h, toNat_stop_romBank hstop]
  omega

/-- The pages hold what the cartridge fills behind the registers. -/
theorem exists_romBank_iff (hstop : stop ≤ Address.spaceSize) {address : UInt32} :
    (∃ page < pagesUpTo stop, (romBank stop page).contains address = true) ↔
      0x2100 ≤ address.toNat ∧ address.toNat < stop := by
  constructor
  · rintro ⟨page, hpage, hin⟩
    exact ((contains_romBank_iff hstop hpage).1 hin).2
  · rintro ⟨hlo, hhi⟩
    have hpage : address.toNat / 0x8000 < pagesUpTo stop := by
      rw [lt_pagesUpTo_iff]
      omega
    exact ⟨_, hpage, (contains_romBank_iff hstop hpage).2 ⟨rfl, hlo, hhi⟩⟩

end

/-! ## All banks -/

theorem contains_bios_iff {address : UInt32} :
    (Bank.fresh .bios Address.ramStart).contains address = true ↔ address.toNat < 0x1000 := by
  rw [Bank.contains_iff]
  simp [Bank.start, Bank.fresh, BankId.start]

theorem contains_ram_iff {address : UInt32} :
    (Bank.fresh .ram Address.registersStart).contains address = true ↔
      0x1000 ≤ address.toNat ∧ address.toNat < 0x2000 := by
  rw [Bank.contains_iff]
  simp [Bank.start, Bank.fresh, BankId.start]

theorem start_lt_stop_ofCartridgeEnd {cartridgeEnd : UInt32} {bank : Bank}
    (hmem : bank ∈ (ofCartridgeEnd cartridgeEnd).banks) : bank.start < bank.stop := by
  have hspace : min cartridgeEnd.toNat Address.spaceSize ≤ Address.spaceSize := Nat.min_le_right ..
  rcases mem_ofCartridgeEnd_iff.1 hmem with rfl | rfl | ⟨page, hpage, rfl⟩
  · decide
  · decide
  · have hlt := lt_pagesUpTo_iff.1 hpage
    rw [UInt32.lt_iff_toNat_lt, toNat_start_romBank hspace hpage, toNat_stop_romBank hspace]
    omega

theorem pairwise_ofCartridgeEnd (cartridgeEnd : UInt32) :
    (ofCartridgeEnd cartridgeEnd).banks.Pairwise fun bank next => bank.stop ≤ next.start := by
  have hspace : min cartridgeEnd.toNat Address.spaceSize ≤ Address.spaceSize := Nat.min_le_right ..
  simp only [banks_ofCartridgeEnd, List.pairwise_cons, List.forall_mem_cons, List.forall_mem_map, List.mem_range,
    UInt32.le_iff_toNat_le]
  refine ⟨⟨by decide, ?_⟩, ?_, ?_⟩
  · intro page hpage
    rw [toNat_start_romBank hspace hpage, Bank.fresh, Address.toNat_ramStart]
    omega
  · intro page hpage
    rw [toNat_start_romBank hspace hpage, Bank.fresh, Address.toNat_registersStart]
    omega
  · rw [List.pairwise_map]
    refine List.Pairwise.imp_of_mem ?_ List.pairwise_lt_range
    intro page next hpage hnext hlt
    rw [toNat_stop_romBank hspace, toNat_start_romBank hspace (List.mem_range.1 hnext)]
    omega

theorem exists_contains_ofCartridgeEnd (cartridgeEnd address : UInt32) :
    (∃ bank ∈ (ofCartridgeEnd cartridgeEnd).banks, bank.contains address = true) ↔
      address.toNat < 0x2000 ∨
        0x2100 ≤ address.toNat ∧ address.toNat < min cartridgeEnd.toNat Address.spaceSize := by
  rw [← exists_romBank_iff (Nat.min_le_right ..)]
  constructor
  · rintro ⟨bank, hmem, hin⟩
    rcases mem_ofCartridgeEnd_iff.1 hmem with rfl | rfl | ⟨page, hpage, rfl⟩
    · have := contains_bios_iff.1 hin
      exact .inl (by omega)
    · exact .inl (contains_ram_iff.1 hin).2
    · exact .inr ⟨page, hpage, hin⟩
  · rintro (hlow | ⟨page, hpage, hin⟩)
    · by_cases hbios : address.toNat < 0x1000
      · exact ⟨_, mem_ofCartridgeEnd_iff.2 (.inl rfl), contains_bios_iff.2 hbios⟩
      · exact ⟨_, mem_ofCartridgeEnd_iff.2 (.inr (.inl rfl)), contains_ram_iff.2 ⟨by omega, hlow⟩⟩
    · exact ⟨_, mem_ofCartridgeEnd_iff.2 (.inr (.inr ⟨page, hpage, rfl⟩)), hin⟩

theorem getElem?_ofCartridgeEnd {cartridgeEnd : UInt32} {n : Nat} {bank : Bank}
    (h : (ofCartridgeEnd cartridgeEnd).banks[2 + n]? = some bank) :
    ∃ page : UInt8, page.toNat = n ∧ bank.id = .rom page ∧
      n * 0x8000 ≤ bank.start.toNat ∧ bank.stop.toNat ≤ (n + 1) * 0x8000 := by
  have hspace : min cartridgeEnd.toNat Address.spaceSize ≤ Address.spaceSize := Nat.min_le_right ..
  rw [banks_ofCartridgeEnd, Nat.add_comm, List.getElem?_cons_succ, List.getElem?_cons_succ, List.getElem?_map,
    Option.map_eq_some_iff] at h
  obtain ⟨page, hpage, rfl⟩ := h
  obtain ⟨hlt, rfl⟩ := List.getElem?_eq_some_iff.1 hpage
  rw [List.length_range] at hlt
  rw [List.getElem_range, toNat_start_romBank hspace hlt, toNat_stop_romBank hspace]
  have hcount := (lt_pagesUpTo hspace hlt).1
  refine ⟨UInt8.ofNat n, ?_, rfl, by omega, by omega⟩
  rw [BankId.pageCount] at hcount
  rw [UInt8.toNat_ofNat']
  omega

theorem getElem?_rank_iff {cartridgeEnd : UInt32} {id : BankId} {bank : Bank} :
    (ofCartridgeEnd cartridgeEnd).banks[id.rank]? = some bank ↔
      bank ∈ (ofCartridgeEnd cartridgeEnd).banks ∧ bank.id = id := by
  have hspace : min cartridgeEnd.toNat Address.spaceSize ≤ Address.spaceSize := Nat.min_le_right ..
  constructor
  · intro hbank
    refine ⟨List.mem_of_getElem? hbank, ?_⟩
    cases id with
    | bios => cases hbank; rfl
    | ram => cases hbank; rfl
    | rom page =>
      obtain ⟨found, hfound, hid, -⟩ := getElem?_ofCartridgeEnd hbank
      rw [hid, UInt8.toNat_inj.1 hfound]
  · rintro ⟨hmem, rfl⟩
    rcases mem_ofCartridgeEnd_iff.1 hmem with rfl | rfl | ⟨page, hpage, rfl⟩
    · rfl
    · rfl
    · have hcount := (lt_pagesUpTo hspace hpage).1
      have hrank : (romBank (min cartridgeEnd.toNat Address.spaceSize) page).id.rank = page + 1 + 1 := by
        rw [BankId.pageCount] at hcount
        show 2 + (UInt8.ofNat page).toNat = _
        rw [UInt8.toNat_ofNat']
        omega
      rw [hrank, banks_ofCartridgeEnd, List.getElem?_cons_succ, List.getElem?_cons_succ, List.getElem?_map,
        List.getElem?_range hpage]
      rfl

/-- The banks divide the addresses below `0x2000`, and those from `0x2100` up to `stop`, among themselves. -/
structure Partition (registry : Registry) (stop : Nat) : Prop where
  nonempty : ∀ bank ∈ registry.banks, bank.start < bank.stop
  increasing : registry.banks.Pairwise fun bank next => bank.stop ≤ next.start
  disjoint : registry.banks.Pairwise fun bank next =>
    ∀ address, ¬ (bank.contains address = true ∧ next.contains address = true)
  union : ∀ address, (∃ bank ∈ registry.banks, bank.contains address = true) ↔
    address.toNat < 0x2000 ∨ 0x2100 ≤ address.toNat ∧ address.toNat < stop
  bios : registry.banks[0]?.map Bank.id = some .bios
  ram : registry.banks[1]?.map Bank.id = some .ram
  /-- The bank of a page lies in it. -/
  rom : ∀ n bank, registry.banks[2 + n]? = some bank → ∃ page : UInt8, page.toNat = n ∧ bank.id = .rom page ∧
    n * 0x8000 ≤ bank.start.toNat ∧ bank.stop.toNat ≤ (n + 1) * 0x8000
  get : ∀ id bank, registry.get? id = some bank ↔ bank ∈ registry.banks ∧ bank.id = id
  /-- The bank with an identifier is at the place of that in the display order. -/
  get_rank : ∀ id, registry.get? id = registry.banks[id.rank]?
  get_none : ∀ id, registry.get? id = none ↔ ∀ bank ∈ registry.banks, bank.id ≠ id
  bankFor : ∀ address id, registry.bankFor? address = some id ↔
    ∃ bank, registry.get? id = some bank ∧ bank.contains address = true
  bankFor_none : ∀ address, registry.bankFor? address = none ↔
    ∀ bank ∈ registry.banks, bank.contains address = false

/-- **The banks divide what is populated of the address space.** This holds for every end of the cartridge; what reaches
past the space is cut off. -/
theorem partition_ofCartridgeEnd (cartridgeEnd : UInt32) :
    (ofCartridgeEnd cartridgeEnd).Partition (min cartridgeEnd.toNat Address.spaceSize) := by
  have arranged := Arranged.ofCartridgeEnd cartridgeEnd
  refine
    { nonempty := fun bank => start_lt_stop_ofCartridgeEnd
      increasing := pairwise_ofCartridgeEnd cartridgeEnd
      disjoint := ?_
      union := exists_contains_ofCartridgeEnd cartridgeEnd
      bios := rfl
      ram := rfl
      rom := fun n bank => getElem?_ofCartridgeEnd
      get := fun id bank => arranged.get?_eq_some_iff
      get_rank := ?_
      get_none := ?_
      bankFor := ?_
      bankFor_none := ?_ }
  · refine (pairwise_ofCartridgeEnd cartridgeEnd).imp ?_
    intro bank next hle address hboth
    rw [UInt32.le_iff_toNat_le] at hle
    rw [Bank.contains_iff, Bank.contains_iff] at hboth
    omega
  · intro id
    ext bank
    rw [arranged.get?_eq_some_iff, getElem?_rank_iff]
  · intro id
    simp [get?]
  · intro address id
    rw [arranged.bankFor?_eq_some_iff]
    simp only [arranged.get?_eq_some_iff, and_assoc]
  · intro address
    rw [Option.eq_none_iff_forall_ne_some]
    constructor
    · intro hnone bank hmem
      by_contra hin
      exact hnone bank.id (arranged.bankFor?_eq_some_iff.2 ⟨bank, hmem, rfl, by simpa using hin⟩)
    · intro hout id hid
      obtain ⟨bank, hmem, -, hin⟩ := arranged.bankFor?_eq_some_iff.1 hid
      rw [hout bank hmem] at hin
      cases hin

/-! ## Places in the list -/

namespace Arranged

variable {registry : Registry} {id : BankId} {bank : Bank}

/-- The place of a bank in the list is the place of its identifier in the display order. -/
theorem getElem?_rank_iff (h : registry.Arranged) :
    registry.banks[id.rank]? = some bank ↔ bank ∈ registry.banks ∧ bank.id = id := by
  have ⟨cartridgeEnd, hextents⟩ := h
  have hmade (i : Nat) : (registry.banks[i]?).map Bank.extent =
      ((Registry.ofCartridgeEnd cartridgeEnd).banks[i]?).map Bank.extent := by
    rw [← List.getElem?_map, hextents, List.getElem?_map]
  constructor
  · intro hbank
    have hrank := hmade id.rank
    rw [hbank, Option.map_some, eq_comm, Option.map_eq_some_iff] at hrank
    obtain ⟨made, hmade, hextent⟩ := hrank
    have hid := (Registry.getElem?_rank_iff.1 hmade).2
    exact ⟨List.mem_of_getElem? hbank, (Bank.extent_eq_iff.1 hextent).1.symm.trans hid⟩
  · rintro ⟨hmem, rfl⟩
    have hextent : bank.extent ∈ (Registry.ofCartridgeEnd cartridgeEnd).banks.map Bank.extent :=
      hextents ▸ List.mem_map_of_mem hmem
    obtain ⟨made, hmem_made, hextent⟩ := List.mem_map.1 hextent
    have hid : made.id = bank.id := (Bank.extent_eq_iff.1 hextent).1
    have hrank := hmade bank.id.rank
    rw [Registry.getElem?_rank_iff.2 ⟨hmem_made, hid⟩, Option.map_some, Option.map_eq_some_iff] at hrank
    obtain ⟨found, hfound, hsame⟩ := hrank
    have hfound_id : found.id = bank.id := (Bank.extent_eq_iff.1 hsame).1.trans hid
    rw [hfound, h.eq_of_id_eq (List.mem_of_getElem? hfound) hmem hfound_id]

theorem get?_eq_getElem? (h : registry.Arranged) (id : BankId) : registry.get? id = registry.banks[id.rank]? := by
  ext bank
  rw [h.get?_eq_some_iff, h.getElem?_rank_iff]

/-- To change the bank with an identifier is to change the one at its place. -/
theorem modify_eq_set (h : registry.Arranged) (hbank : registry.banks[id.rank]? = some bank) (change : Bank → Bank) :
    registry.modify id change = ⟨registry.banks.set id.rank (change bank)⟩ := by
  refine congrArg Registry.mk (List.ext_getElem? fun i => ?_)
  rw [List.getElem?_map, List.getElem?_set]
  by_cases hi : id.rank = i
  · subst hi
    obtain ⟨hlt, -⟩ := List.getElem?_eq_some_iff.1 hbank
    rw [if_pos rfl, if_pos hlt, hbank, Option.map_some, if_pos (h.getElem?_rank_iff.1 hbank).2]
  · rw [if_neg hi]
    cases hother : registry.banks[i]? with
    | none => rfl
    | some other =>
      -- no other place holds a bank with the identifier
      have hid : other.id ≠ id := fun hid => by
        have hids : (registry.banks.map Bank.id)[id.rank]? = (registry.banks.map Bank.id)[i]? := by
          rw [List.getElem?_map, List.getElem?_map, hbank, hother, Option.map_some, Option.map_some, hid,
            (h.getElem?_rank_iff.1 hbank).2]
        obtain ⟨hlt, -⟩ := List.getElem?_eq_some_iff.1 hbank
        exact hi ((List.getElem?_inj (by rwa [List.length_map]) h.nodup).1 hids)
      rw [Option.map_some, if_neg hid]

/-- Without such a bank there is nothing to change. -/
theorem modify_eq_self (h : registry.Arranged) (hnone : registry.banks[id.rank]? = none) (change : Bank → Bank) :
    registry.modify id change = registry := by
  refine congrArg Registry.mk ((List.map_congr_left fun bank hmem => if_neg fun hid => ?_).trans (List.map_id _))
  rw [h.getElem?_rank_iff.2 ⟨hmem, hid⟩] at hnone
  cases hnone

end Arranged

end Registry

end TraceDisasm
