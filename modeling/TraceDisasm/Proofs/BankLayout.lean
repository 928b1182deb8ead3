import Mathlib.Data.List.Nodup
import TraceDisasm.Proofs.Translation
import TraceDisasm.Registry

/-!
# The layout of banks

Which banks there are, and where each of them ends, is settled by the end of the cartridge: the banks that are made from page
to page can be told from the numbers of the pages (`Registry.banks_ofCartridgeEnd`), and so can where they start and what they
are called (`Registry.made_of_mem_romBanks`). Listing banks and marking them leaves both alone, so the banks are always those
of some cartridge (`Registry.Arranged`). Then no two of them have one identifier or share an address: the bank that an address
lies in is the one that contains it (`Registry.Arranged.covering?_eq_some_iff`), and to change the bank of an address is to
change every bank that contains it.
-/

namespace TraceDisasm

namespace Address

@[simp] theorem toNat_ramStart : ramStart.toNat = 0x1000 := rfl

@[simp] theorem toNat_registersStart : registersStart.toNat = 0x2000 := rfl

@[simp] theorem toNat_cartridgeStart : cartridgeStart.toNat = 0x2100 := rfl

@[simp] theorem toNat_spaceEnd : spaceEnd.toNat = spaceSize := rfl

theorem toNat_min (a b : UInt32) : (min a b).toNat = min a.toNat b.toNat := by
  change (if a ≤ b then a else b).toNat = _
  split <;> next h =>
    rw [UInt32.le_iff_toNat_le] at h
    omega

end Address

namespace BankId

/-! ## Pages -/

theorem toNat_pageOfNumber {page : Nat} (h : page < pageCount) :
    (Address.pageOfNumber (UInt8.ofNat page)).toNat = page * 0x8000 := by
  simp only [pageCount] at h
  rw [Address.toNat_pageOfNumber, UInt8.toNat_ofNat']
  omega

theorem toNat_start_rom_eq (page : UInt8) :
    (rom page).start.toNat = max (Address.pageOfNumber page).toNat 0x2100 := by
  change (if Address.pageOfNumber page ≤ Address.cartridgeStart then Address.cartridgeStart
    else Address.pageOfNumber page).toNat = _
  have hiff : Address.pageOfNumber page ≤ Address.cartridgeStart ↔ (Address.pageOfNumber page).toNat ≤ 0x2100 :=
    UInt32.le_iff_toNat_le
  by_cases hle : (Address.pageOfNumber page).toNat ≤ 0x2100
  · rw [if_pos (hiff.2 hle), Address.toNat_cartridgeStart, Nat.max_eq_right hle]
  · rw [if_neg (fun h => hle (hiff.1 h)), Nat.max_eq_left (Nat.le_of_not_le hle)]

theorem toNat_start_rom {page : Nat} (h : page < pageCount) :
    (rom (UInt8.ofNat page)).start.toNat = max (page * 0x8000) 0x2100 := by
  rw [toNat_start_rom_eq, toNat_pageOfNumber h]

/-- A cartridge address belongs to the bank of its page. -/
theorem ofAddress?_rom {page : Nat} {address : UInt32} (h : page < pageCount) (hlo : page * 0x8000 ≤ address.toNat)
    (hcartridge : 0x2100 ≤ address.toNat) (hhi : address.toNat < (page + 1) * 0x8000) :
    ofAddress? address = some (rom (UInt8.ofNat page)) := by
  simp only [pageCount] at h
  have hpage : (address >>> 15).toUInt8 = UInt8.ofNat page := by
    rw [← UInt8.toNat_inj]
    simp [Nat.shiftRight_eq_div_pow]
    omega
  have hram : ¬ address < Address.ramStart := by
    rw [UInt32.lt_iff_toNat_lt, Address.toNat_ramStart]; omega
  have hregisters : ¬ address < Address.registersStart := by
    rw [UInt32.lt_iff_toNat_lt, Address.toNat_registersStart]; omega
  have hcart : ¬ address < Address.cartridgeStart := by
    rw [UInt32.lt_iff_toNat_lt, Address.toNat_cartridgeStart]; omega
  have hspace : ¬ Address.spaceEnd ≤ address := by
    rw [UInt32.le_iff_toNat_le, Address.toNat_spaceEnd, Address.spaceSize]; omega
  simp [ofAddress?, Address.isRegister, hram, hregisters, hcart, hspace, hpage]

end BankId

namespace Bank

/-! ## Where a bank lies -/

/-- What the layout settles about a bank. -/
def extent (bank : Bank) : BankId × UInt32 := (bank.id, bank.stop)

/-- Number of addresses of a bank. -/
def size (bank : Bank) : Nat := bank.stop.toNat - bank.start.toNat

theorem contains_iff {bank : Bank} {address : UInt32} :
    bank.contains address = true ↔ bank.start.toNat ≤ address.toNat ∧ address.toNat < bank.stop.toNat := by
  simp [contains, UInt32.le_iff_toNat_le, UInt32.lt_iff_toNat_lt]

/-- A bank is a range of the space and lies where its identifier says. -/
structure Placed (bank : Bank) : Prop where
  start_le : bank.start.toNat ≤ bank.stop.toNat
  stop_le : bank.stop.toNat ≤ Address.spaceSize
  owns : ∀ address, bank.contains address = true → BankId.ofAddress? address = some bank.id
  bios : bank.id = .bios → bank.stop = Address.ramStart
  ram : bank.id = .ram → bank.stop = Address.registersStart

variable {bank other : Bank} {address : UInt32}

theorem extent_eq_iff : bank.extent = other.extent ↔ bank.id = other.id ∧ bank.stop = other.stop := by
  simp [extent]

theorem start_congr (h : bank.extent = other.extent) : bank.start = other.start := by
  simp only [start, (extent_eq_iff.1 h).1]

theorem contains_congr (h : bank.extent = other.extent) : bank.contains = other.contains := by
  funext address
  simp only [contains, start_congr h, (extent_eq_iff.1 h).2]

theorem Placed.congr (h : bank.extent = other.extent) (placed : other.Placed) : bank.Placed := by
  obtain ⟨hid, hstop⟩ := extent_eq_iff.1 h
  refine ⟨?_, ?_, ?_, ?_, ?_⟩
  · rw [start_congr h, hstop]; exact placed.start_le
  · rw [hstop]; exact placed.stop_le
  · rw [contains_congr h, hid]; exact placed.owns
  · rw [hid, hstop]; exact placed.bios
  · rw [hid, hstop]; exact placed.ram

/-- Only the BIOS has addresses below the RAM. -/
theorem Placed.ramStart_le (placed : bank.Placed) (hid : bank.id ≠ .bios) (hin : bank.contains address = true) :
    0x1000 ≤ address.toNat := by
  refine Nat.le_of_not_lt fun hlow => hid ?_
  have howns := placed.owns address hin
  rw [BankId.ofAddress?, if_pos (UInt32.lt_iff_toNat_lt.2 hlow)] at howns
  exact (Option.some.inj howns).symm

/-- The addresses of a bank, counted from its first. -/
theorem Placed.contains_ram (placed : bank.Placed) (hid : bank.id = .ram) (hlo : Address.ramStart ≤ address)
    (hhi : address < Address.registersStart) : bank.contains address = true := by
  unfold contains start
  rw [placed.ram hid, hid]
  simp [BankId.start, hlo, hhi]

theorem Placed.contains_iff_exists (placed : bank.Placed) :
    bank.contains address = true ↔ ∃ i < bank.size, address = bank.start + UInt32.ofNat i := by
  have hle := placed.start_le
  have hspace := placed.stop_le
  simp only [Address.spaceSize] at hspace
  rw [contains_iff, size]
  constructor
  · rintro ⟨hlo, hhi⟩
    refine ⟨address.toNat - bank.start.toNat, by omega, ?_⟩
    rw [← UInt32.toNat_inj, UInt32.toNat_add, UInt32.toNat_ofNat']
    omega
  · rintro ⟨i, hi, rfl⟩
    rw [UInt32.toNat_add, UInt32.toNat_ofNat']
    omega

end Bank

namespace Registry

/-! ## The banks of a cartridge -/

/-- Number of pages that hold bytes of a cartridge. -/
def pagesUpTo (stop : Nat) : Nat :=
  if stop ≤ 0x2100 then 0 else (stop + 0x7FFF) / 0x8000

/-- The bank of a page of a cartridge that ends before `stop`. -/
def romBank (stop page : Nat) : Bank :=
  .fresh (.rom (UInt8.ofNat page)) (UInt32.ofNat (min ((page + 1) * 0x8000) stop))

/-- A page has a bank if its first address is one of the cartridge. -/
theorem lt_pagesUpTo_iff {stop page : Nat} : page < pagesUpTo stop ↔ page * 0x8000 < stop ∧ 0x2100 < stop := by
  unfold pagesUpTo
  split <;> omega

theorem lt_pagesUpTo {stop page : Nat} (hstop : stop ≤ Address.spaceSize) (h : page < pagesUpTo stop) :
    page < BankId.pageCount ∧ page * 0x8000 < stop ∧ 0x2100 < stop := by
  simp only [pagesUpTo, Address.spaceSize, BankId.pageCount] at *
  split at h <;> omega

theorem toNat_start_romBank {stop page : Nat} (hstop : stop ≤ Address.spaceSize) (h : page < pagesUpTo stop) :
    (romBank stop page).start.toNat = max (page * 0x8000) 0x2100 :=
  BankId.toNat_start_rom (lt_pagesUpTo hstop h).1

theorem toNat_stop_romBank {stop page : Nat} (hstop : stop ≤ Address.spaceSize) :
    (romBank stop page).stop.toNat = min ((page + 1) * 0x8000) stop := by
  unfold Address.spaceSize at hstop
  simp only [romBank, Bank.fresh, UInt32.toNat_ofNat']
  omega

theorem placed_romBank {stop page : Nat} (hstop : stop ≤ Address.spaceSize) (h : page < pagesUpTo stop) :
    (romBank stop page).Placed := by
  obtain ⟨hpage, hlo, hcartridge⟩ := lt_pagesUpTo hstop h
  have hstart := toNat_start_romBank hstop h
  have hend : (romBank stop page).stop.toNat = min ((page + 1) * 0x8000) stop := toNat_stop_romBank hstop
  refine ⟨by omega, by omega, ?_, by simp [romBank, Bank.fresh], by simp [romBank, Bank.fresh]⟩
  intro address hcontains
  rw [Bank.contains_iff] at hcontains
  exact BankId.ofAddress?_rom hpage (by omega) (by omega) (by omega)

/-- The address is the first of a page that a cartridge can fill. -/
def Enters (address : UInt32) (page : Nat) : Prop := address.toNat = max (page * 0x8000) 0x2100

namespace Enters

variable {address stop : UInt32} {page : Nat}

theorem lt_iff (h : Enters address page) : address < stop ↔ page < pagesUpTo stop.toNat := by
  rw [Enters] at h
  rw [UInt32.lt_iff_toNat_lt, lt_pagesUpTo_iff]
  omega

theorem number (h : Enters address page) : (address >>> 15).toUInt8 = UInt8.ofNat page := by
  rw [Enters] at h
  rw [← UInt8.toNat_inj]
  simp [Nat.shiftRight_eq_div_pow]
  omega

theorem toNat_next (h : Enters address page) (hpage : page < BankId.pageCount) :
    (Address.pageEnd address + 1).toNat = (page + 1) * 0x8000 := by
  have hend := Address.toNat_pageEnd address
  have hone : UInt32.toNat 1 = 1 := rfl
  rw [BankId.pageCount] at hpage
  rw [Enters] at h
  rw [UInt32.toNat_add]
  omega

/-- Behind the last address of a page, the next one is entered. -/
theorem next (h : Enters address page) (hpage : page < BankId.pageCount) :
    Enters (Address.pageEnd address + 1) (page + 1) := by
  rw [Enters, h.toNat_next hpage]
  omega

/-- The bank that is made where a page is entered is the one of this page. -/
theorem bank_eq (h : Enters address page) (hpage : page < BankId.pageCount) (stop : UInt32) :
    Bank.fresh (.rom (address >>> 15).toUInt8) (min (Address.pageEnd address + 1) stop) = romBank stop.toNat page := by
  have hclipped : min (Address.pageEnd address + 1) stop = UInt32.ofNat (min ((page + 1) * 0x8000) stop.toNat) := by
    rw [BankId.pageCount] at hpage
    rw [← UInt32.toNat_inj, Address.toNat_min, h.toNat_next hpage, UInt32.toNat_ofNat']
    omega
  rw [h.number, hclipped, romBank]

/-- It starts where the page is entered. -/
theorem start_eq (h : Enters address page) (hpage : page < BankId.pageCount) :
    (BankId.rom (address >>> 15).toUInt8).start = address := by
  rw [← UInt32.toNat_inj, h.number, BankId.toNat_start_rom hpage, h]

/-- Its name tells the number of the page, the address where it is entered, and the last one of the page. -/
theorem title_eq (h : Enters address page) (hpage : page < BankId.pageCount) :
    (BankId.rom (address >>> 15).toUInt8).title =
      "ROM Bank " ++ (address >>> 15).toNat.repr ++ " (" ++ BankId.addressText address ++ "~" ++
        BankId.addressText (Address.pageEnd address) ++ ")" := by
  have hnumber : (address >>> 15).toUInt8.toNat = (address >>> 15).toNat := by
    rw [BankId.pageCount] at hpage
    rw [Enters] at h
    simp [Nat.shiftRight_eq_div_pow]
    omega
  have hend : Address.pageEnd (Address.pageOfNumber (address >>> 15).toUInt8) = Address.pageEnd address := by
    rw [← UInt32.toNat_inj, Address.toNat_pageEnd, Address.toNat_pageEnd, h.number, BankId.toNat_pageOfNumber hpage, h]
    omega
  unfold BankId.title
  dsimp only
  rw [hnumber, hend, h.start_eq hpage]

end Enters

/-- The loop makes the bank of each page that holds bytes of the cartridge, in order. -/
theorem romBanks_eq_map {stop : UInt32} (hstop : stop ≤ Address.spaceEnd) (count page : Nat) (address : UInt32)
    (hcount : pagesUpTo stop.toNat - page = count) (h : Enters address page) :
    romBanks stop hstop address = (List.range' page count).map (romBank stop.toNat) := by
  induction count generalizing page address with
  | zero =>
    rw [romBanks, if_neg (mt h.lt_iff.1 (by omega))]
    rfl
  | succ count ih =>
    have hlt : page < pagesUpTo stop.toNat := by omega
    have hpage := (lt_pagesUpTo (UInt32.le_iff_toNat_le.1 hstop) hlt).1
    have hrest := ih (page + 1) (Address.pageEnd address + 1) (by omega) (h.next hpage)
    rw [romBanks, if_pos (h.lt_iff.2 hlt), List.range'_succ, List.map_cons, ← h.bank_eq hpage stop, ← hrest]

theorem romBanks_cartridgeStart {stop : UInt32} (hstop : stop ≤ Address.spaceEnd) :
    romBanks stop hstop Address.cartridgeStart = (List.range (pagesUpTo stop.toNat)).map (romBank stop.toNat) := by
  have hbanks := romBanks_eq_map hstop _ 0 _ rfl Address.toNat_cartridgeStart
  rwa [Nat.sub_zero, ← List.range_eq_range'] at hbanks

/-- Every bank of a cartridge starts at the address where the loop makes it, and is named for the page of this address. -/
theorem made_of_mem_romBanks {stop : UInt32} (hstop : stop ≤ Address.spaceEnd) {bank : Bank}
    (hmem : bank ∈ romBanks stop hstop Address.cartridgeStart) :
    ∃ address < stop, bank = .fresh (.rom (address >>> 15).toUInt8) (min (Address.pageEnd address + 1) stop) ∧
      (BankId.rom (address >>> 15).toUInt8).start = address ∧
      (BankId.rom (address >>> 15).toUInt8).title =
        "ROM Bank " ++ (address >>> 15).toNat.repr ++ " (" ++ BankId.addressText address ++ "~" ++
          BankId.addressText (Address.pageEnd address) ++ ")" := by
  have hspace : stop.toNat ≤ Address.spaceSize := UInt32.le_iff_toNat_le.1 hstop
  rw [romBanks_cartridgeStart] at hmem
  obtain ⟨page, hrange, rfl⟩ := List.mem_map.1 hmem
  have hlt := List.mem_range.1 hrange
  have hpage := (lt_pagesUpTo hspace hlt).1
  have henters : Enters (romBank stop.toNat page).start page := toNat_start_romBank hspace hlt
  exact ⟨_, henters.lt_iff.2 hlt, (henters.bank_eq hpage stop).symm, henters.start_eq hpage, henters.title_eq hpage⟩

theorem banks_ofCartridgeEnd (cartridgeEnd : UInt32) :
    (ofCartridgeEnd cartridgeEnd).banks = .fresh .bios Address.ramStart :: .fresh .ram Address.registersStart ::
      (List.range (pagesUpTo (min cartridgeEnd.toNat Address.spaceSize))).map
        (romBank (min cartridgeEnd.toNat Address.spaceSize)) := by
  have hstop : (min cartridgeEnd Address.spaceEnd).toNat = min cartridgeEnd.toNat Address.spaceSize :=
    Address.toNat_min _ _
  rw [ofCartridgeEnd, romBanks_cartridgeStart, hstop]

theorem mem_ofCartridgeEnd_iff {cartridgeEnd : UInt32} {bank : Bank} :
    bank ∈ (ofCartridgeEnd cartridgeEnd).banks ↔
      bank = .fresh .bios Address.ramStart ∨ bank = .fresh .ram Address.registersStart ∨
        ∃ page < pagesUpTo (min cartridgeEnd.toNat Address.spaceSize),
          romBank (min cartridgeEnd.toNat Address.spaceSize) page = bank := by
  simp [banks_ofCartridgeEnd]

theorem placed_ofCartridgeEnd (cartridgeEnd : UInt32) : ∀ bank ∈ (ofCartridgeEnd cartridgeEnd).banks, bank.Placed := by
  intro bank hmem
  rcases mem_ofCartridgeEnd_iff.1 hmem with rfl | rfl | ⟨page, hpage, rfl⟩
  · refine ⟨by decide, by decide, fun address hcontains => ?_, fun _ => rfl, fun h => by simp [Bank.fresh] at h⟩
    have hstop : address < Address.ramStart := UInt32.lt_iff_toNat_lt.2 (Bank.contains_iff.1 hcontains).2
    simp only [BankId.ofAddress?, if_pos hstop, Bank.fresh]
  · refine ⟨by decide, by decide, fun address hcontains => ?_, fun h => by simp [Bank.fresh] at h, fun _ => rfl⟩
    have hstart : ¬ address < Address.ramStart :=
      UInt32.not_lt.2 (UInt32.le_iff_toNat_le.2 (Bank.contains_iff.1 hcontains).1)
    have hstop : address < Address.registersStart := UInt32.lt_iff_toNat_lt.2 (Bank.contains_iff.1 hcontains).2
    simp only [BankId.ofAddress?, if_neg hstart, if_pos hstop, Bank.fresh]
  · exact placed_romBank (Nat.min_le_right _ _) hpage

theorem nodup_ofCartridgeEnd (cartridgeEnd : UInt32) : ((ofCartridgeEnd cartridgeEnd).banks.map Bank.id).Nodup := by
  simp only [banks_ofCartridgeEnd, List.map_cons, List.map_map, List.nodup_cons]
  refine ⟨by simp [Bank.fresh, romBank], by simp [Bank.fresh, romBank], ?_⟩
  refine List.Nodup.map_on ?_ List.nodup_range
  intro page hpage page' hpage' heq
  have hlt := lt_pagesUpTo (Nat.min_le_right _ _) (List.mem_range.1 hpage)
  have hlt' := lt_pagesUpTo (Nat.min_le_right _ _) (List.mem_range.1 hpage')
  -- page numbers are below 64, so they do not wrap around in a byte
  have hbyte : UInt8.ofNat page = UInt8.ofNat page' := BankId.rom.inj heq
  have hnat := congrArg UInt8.toNat hbyte
  simp only [UInt8.toNat_ofNat', BankId.pageCount] at hnat hlt hlt'
  omega

/-- The banks are those of some cartridge. -/
def Arranged (registry : Registry) : Prop :=
  ∃ cartridgeEnd, registry.banks.map Bank.extent = (ofCartridgeEnd cartridgeEnd).banks.map Bank.extent

namespace Arranged

variable {registry : Registry} {bank other : Bank} {id : BankId} {address : UInt32}

theorem ofCartridgeEnd (cartridgeEnd : UInt32) : (ofCartridgeEnd cartridgeEnd).Arranged :=
  ⟨cartridgeEnd, rfl⟩

theorem map (h : registry.Arranged) {change : Bank → Bank} (hchange : ∀ bank, (change bank).extent = bank.extent) :
    Arranged ⟨registry.banks.map change⟩ := by
  obtain ⟨cartridgeEnd, h⟩ := h
  refine ⟨cartridgeEnd, ?_⟩
  rw [List.map_map, ← h]
  exact List.map_congr_left fun bank _ => hchange bank

theorem placed (h : registry.Arranged) (hmem : bank ∈ registry.banks) : bank.Placed := by
  obtain ⟨cartridgeEnd, h⟩ := h
  have hextent : bank.extent ∈ registry.banks.map Bank.extent := List.mem_map_of_mem hmem
  rw [h] at hextent
  obtain ⟨made, hmade, heq⟩ := List.mem_map.1 hextent
  exact (placed_ofCartridgeEnd cartridgeEnd made hmade).congr heq.symm

theorem nodup (h : registry.Arranged) : (registry.banks.map Bank.id).Nodup := by
  obtain ⟨cartridgeEnd, h⟩ := h
  have ids := congrArg (List.map Prod.fst) h
  rw [List.map_map, List.map_map] at ids
  have := nodup_ofCartridgeEnd cartridgeEnd
  exact ids ▸ this

theorem eq_of_id_eq (h : registry.Arranged) (hbank : bank ∈ registry.banks) (hother : other ∈ registry.banks)
    (hid : bank.id = other.id) : bank = other :=
  List.inj_on_of_nodup_map h.nodup hbank hother hid

theorem get?_eq_some_iff (h : registry.Arranged) :
    registry.get? id = some bank ↔ bank ∈ registry.banks ∧ bank.id = id := by
  constructor
  · intro hget
    exact ⟨List.mem_of_find?_eq_some hget, by simpa using List.find?_some hget⟩
  · rintro ⟨hmem, rfl⟩
    have found : (registry.get? bank.id).isSome := List.find?_isSome.2 ⟨bank, hmem, by simp⟩
    obtain ⟨other, hother⟩ := Option.isSome_iff_exists.1 found
    have hid : other.id = bank.id := by simpa using List.find?_some hother
    rw [hother, h.eq_of_id_eq (List.mem_of_find?_eq_some hother) hmem hid]

/-- The bank that an address lies in is the one that contains it. -/
theorem covering?_eq_some_iff (h : registry.Arranged) :
    registry.covering? address = some bank ↔ bank ∈ registry.banks ∧ bank.contains address = true := by
  simp only [covering?, Option.filter_eq_some_iff, Option.bind_eq_some_iff, h.get?_eq_some_iff]
  constructor
  · rintro ⟨⟨id, -, hmem, -⟩, hcontains⟩
    exact ⟨hmem, hcontains⟩
  · rintro ⟨hmem, hcontains⟩
    exact ⟨⟨bank.id, (h.placed hmem).owns address hcontains, hmem, rfl⟩, hcontains⟩

theorem lt_spaceSize (h : registry.Arranged) (hcovering : registry.covering? address = some bank) :
    address.toNat < Address.spaceSize := by
  obtain ⟨hmem, hcontains⟩ := h.covering?_eq_some_iff.1 hcovering
  exact Nat.lt_of_lt_of_le (Bank.contains_iff.1 hcontains).2 (h.placed hmem).stop_le

theorem bankFor?_eq_some_iff (h : registry.Arranged) :
    registry.bankFor? address = some id ↔ ∃ bank ∈ registry.banks, bank.id = id ∧ bank.contains address = true := by
  simp only [bankFor?, Option.map_eq_some_iff, h.covering?_eq_some_iff]
  constructor
  · rintro ⟨bank, ⟨hmem, hcontains⟩, hid⟩
    exact ⟨bank, hmem, hid, hcontains⟩
  · rintro ⟨bank, hmem, hid, hcontains⟩
    exact ⟨bank, ⟨hmem, hcontains⟩, hid⟩

/-! ## Changes to the bank of an address -/

theorem modify_covering (h : registry.Arranged) (hcovering : registry.covering? address = some bank)
    (change : Bank → Bank) :
    registry.modify bank.id change =
      ⟨registry.banks.map fun other => if other.contains address then change other else other⟩ := by
  obtain ⟨hmem, hcontains⟩ := h.covering?_eq_some_iff.1 hcovering
  refine congrArg Registry.mk (List.map_congr_left fun other hother => ?_)
  by_cases hid : other.id = bank.id
  · rw [h.eq_of_id_eq hother hmem hid, if_pos rfl, if_pos hcontains]
  · -- another bank does not contain the address, which is in this one
    have howns := (h.placed hmem).owns address hcontains
    have hnot : ¬ other.contains address = true := fun hin => by
      have := (h.placed hother).owns address hin
      exact hid (Option.some.inj (this.symm.trans howns))
    rw [if_neg hid, if_neg hnot]

theorem invalidateAt_eq (h : registry.Arranged) (address : UInt32) :
    registry.invalidateAt address =
      ⟨registry.banks.map fun bank => if bank.contains address then bank.invalidate else bank⟩ := by
  rcases hcovering : registry.covering? address with _ | bank
  · have hnot : ∀ bank ∈ registry.banks, ¬ bank.contains address = true := fun bank hmem hin => by
      simp [h.covering?_eq_some_iff.2 ⟨hmem, hin⟩] at hcovering
    simp only [invalidateAt, bankFor?, hcovering, Option.map_none]
    refine congrArg Registry.mk ?_
    conv_lhs => rw [← List.map_id registry.banks]
    exact List.map_congr_left fun bank hmem => (if_neg (hnot bank hmem)).symm
  · simp only [invalidateAt, bankFor?, hcovering, Option.map_some]
    exact h.modify_covering hcovering Bank.invalidate

/-! ## The fixed banks -/

theorem exists_fixed (h : registry.Arranged) (hid : id = .bios ∨ id = .ram) :
    ∃ bank ∈ registry.banks, bank.id = id := by
  obtain ⟨cartridgeEnd, h⟩ := h
  have ids := congrArg (List.map Prod.fst) h
  rw [List.map_map, List.map_map] at ids
  have hmem : id ∈ registry.banks.map Bank.id := by
    change registry.banks.map Bank.id = _ at ids
    rw [ids, banks_ofCartridgeEnd]
    rcases hid with rfl | rfl
    · exact List.mem_cons_self
    · exact List.mem_cons_of_mem _ List.mem_cons_self
  exact List.mem_map.1 hmem

theorem bankFor?_ram (h : registry.Arranged) (hlo : Address.ramStart ≤ address) (hhi : address < Address.registersStart) :
    registry.bankFor? address = some .ram := by
  obtain ⟨bank, hmem, hid⟩ := h.exists_fixed (.inr rfl : BankId.ram = .bios ∨ BankId.ram = .ram)
  exact h.bankFor?_eq_some_iff.2 ⟨bank, hmem, hid, (h.placed hmem).contains_ram hid hlo hhi⟩

end Arranged

end Registry

end TraceDisasm
