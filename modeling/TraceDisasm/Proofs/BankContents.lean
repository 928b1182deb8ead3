import TraceDisasm.Proofs.BankLayout
import TraceDisasm.Tracer

/-!
# What a bank holds

The view that a bank is listed from is cut out of memory and of the classification. For a bank of the layout neither cut
fails, and both give what is read address by address (`Tracer.view?_eq`). So a view changes only where a byte is written
or a word is stored, and it is enough to know these two at single addresses (`Memory.read_write`,
`Classification.get_apply`).
-/

namespace TraceDisasm

/-! ## The addresses of a bank -/

/-- The addresses of a bank in order. -/
def Bank.addresses (bank : Bank) : List UInt32 :=
  (List.range bank.size).map fun i => bank.start + UInt32.ofNat i

@[simp] theorem Bank.length_addresses (bank : Bank) : bank.addresses.length = bank.size := by
  simp [addresses]

theorem Bank.Placed.toNat_address {bank : Bank} (placed : bank.Placed) {i : Nat}
    (hi : bank.start.toNat + i < bank.stop.toNat) : (bank.start + UInt32.ofNat i).toNat = bank.start.toNat + i := by
  have hspace := placed.stop_le
  simp only [Address.spaceSize] at hspace
  rw [UInt32.toNat_add, UInt32.toNat_ofNat']
  omega

theorem Bank.Placed.mem_addresses {bank : Bank} (placed : bank.Placed) {address : UInt32} :
    address ∈ bank.addresses ↔ bank.contains address = true := by
  rw [placed.contains_iff_exists]
  simp [addresses, eq_comm]

/-- What stands at an address of a bank, in a list of what stands at all of them. -/
theorem Bank.headD_drop_map_addresses {α : Type} {bank : Bank} (f : UInt32 → α) (default : α) {i : Nat}
    (hi : i < bank.size) : ((bank.addresses.map f).drop i).headD default = f (bank.start + UInt32.ofNat i) := by
  simp [List.headD_eq_head?_getD, addresses, hi]

/-- A piece of a vector, read cell by cell; the cells are counted from `base` on. -/
theorem toList_extract_eq_map {α : Type} {n : Nat} (cells : Vector α n) (base first stop : Nat) (f : Nat → α)
    (hbase : base ≤ first) (hstop : stop ≤ base + n)
    (hf : ∀ i, first + i < stop → cells[first + i - base]? = some (f i)) :
    (cells.extract (first - base) (stop - base)).toList = (List.range (stop - first)).map f := by
  refine List.ext_getElem ?_ ?_
  · simp only [Vector.length_toList, List.length_map, List.length_range]
    omega
  · intro i h h'
    simp only [List.length_map, List.length_range] at h'
    have hcell := hf i (by omega)
    rw [Vector.getElem?_eq_some_iff, Nat.sub_add_comm hbase] at hcell
    obtain ⟨hi, hcell⟩ := hcell
    simpa using hcell

/-! ## Bytes -/

namespace Memory

variable (memory : Memory) {address : UInt32}

theorem getElem?_bios (h : address.toNat < 0x1000) : memory.bios[address.toNat]? = some (memory.read address) := by
  have hmod : address.toNat % Address.spaceSize = address.toNat := Nat.mod_eq_of_lt (Nat.lt_trans h (by decide))
  simp only [read, hmod, dif_pos h, Vector.getElem?_eq_getElem h]

theorem getElem?_ram (hlo : 0x1000 ≤ address.toNat) (hhi : address.toNat < 0x2000) :
    memory.ram[address.toNat - 0x1000]? = some (memory.read address) := by
  have hmod : address.toNat % Address.spaceSize = address.toNat := Nat.mod_eq_of_lt (Nat.lt_trans hhi (by decide))
  have hcell : address.toNat - 0x1000 < 0x1000 := by omega
  simp only [read, hmod, dif_neg (Nat.not_lt.2 hlo), dif_pos hhi, Vector.getElem?_eq_getElem hcell]
  rfl

theorem getElem?_cartridge (hlo : 0x2100 ≤ address.toNat) (hhi : address.toNat < Address.spaceSize) :
    memory.cartridge[address.toNat]? = some (memory.read address) := by
  have hmod : address.toNat % Address.spaceSize = address.toNat := Nat.mod_eq_of_lt hhi
  have hbios : ¬ address.toNat < 0x1000 := by omega
  have hram : ¬ address.toNat < 0x2000 := by omega
  simp only [read, hmod, dif_neg hbios, dif_neg hram, if_neg (Nat.not_lt.2 hlo), Vector.getElem?_eq_getElem hhi]

/-- The bytes of a bank are cut out of one part of memory, and are those that are read at its addresses. -/
theorem slice?_eq {bank : Bank} (placed : bank.Placed) :
    memory.slice? bank.start bank.stop = some (bank.addresses.map memory.read) := by
  have hle := placed.start_le
  have hspace := placed.stop_le
  rw [Bank.addresses, List.map_map]
  simp only [slice?, UInt32.le_iff_toNat_le, Address.toNat_ramStart, Address.toNat_registersStart,
    Address.toNat_spaceEnd]
  rcases hid : bank.id with _ | _ | page
  · have hstop : bank.stop.toNat = 0x1000 := by rw [placed.bios hid]; rfl
    rw [if_pos (Nat.le_of_eq hstop), if_pos hle]
    refine congrArg some
      (toList_extract_eq_map memory.bios 0 bank.start.toNat bank.stop.toNat _ (Nat.zero_le _) (by omega) fun i hi => ?_)
    rw [← placed.toNat_address hi]
    exact memory.getElem?_bios (by rw [placed.toNat_address hi]; omega)
  · have hstop : bank.stop.toNat = 0x2000 := by rw [placed.ram hid]; rfl
    have hstart : bank.start.toNat = 0x1000 := by rw [Bank.start, hid]; rfl
    rw [if_neg (by omega), if_pos (Nat.le_of_eq hstop), if_pos ⟨Nat.le_of_eq hstart.symm, hle⟩]
    refine congrArg some
      (toList_extract_eq_map memory.ram 0x1000 bank.start.toNat bank.stop.toNat _ (by omega) (by omega) fun i hi => ?_)
    rw [← placed.toNat_address hi]
    exact memory.getElem?_ram (by rw [placed.toNat_address hi]; omega) (by rw [placed.toNat_address hi]; omega)
  · have hstart : bank.start.toNat = max (Address.pageOfNumber page).toNat 0x2100 := by
      rw [Bank.start, hid, BankId.toNat_start_rom_eq]
    rw [if_neg (by omega), if_neg (by omega), if_pos ⟨hle, hspace⟩]
    refine congrArg some (toList_extract_eq_map memory.cartridge 0 bank.start.toNat bank.stop.toNat _ (Nat.zero_le _)
      (by omega) fun i hi => ?_)
    rw [← placed.toNat_address hi]
    exact memory.getElem?_cartridge (by rw [placed.toNat_address hi]; omega) (by rw [placed.toNat_address hi]; omega)

/-! ## Changes to memory -/

/-- Whether the CPU writes to RAM at an address. -/
def isRam (address : UInt32) : Bool :=
  0x1000 ≤ address.toNat % Address.spaceSize && address.toNat % Address.spaceSize < 0x2000

theorem write_eq_self {value : UInt8} (h : isRam address = false) : memory.write address value = memory := by
  simp only [isRam, Bool.and_eq_false_iff, decide_eq_false_iff_not] at h
  rw [write, dif_neg (by omega)]

/-- Outside the RAM, only the BIOS and the cartridge are read. -/
theorem read_congr {next : Memory} (hbios : next.bios = memory.bios) (hcartridge : next.cartridge = memory.cartridge)
    (h : isRam address = false) : next.read address = memory.read address := by
  simp only [isRam, Bool.and_eq_false_iff, decide_eq_false_iff_not] at h
  simp only [read, hbios, hcartridge]
  split
  · rfl
  · rw [dif_neg (by omega), dif_neg (by omega)]

/-- A write to RAM is read back at its own address, and nowhere else. -/
theorem read_write (hlo : 0x1000 ≤ address.toNat) (hhi : address.toNat < 0x2000) (value : UInt8) (other : UInt32)
    (hother : other.toNat < Address.spaceSize) :
    (memory.write address value).read other = if other = address then value else memory.read other := by
  have hmod : address.toNat % Address.spaceSize = address.toNat := Nat.mod_eq_of_lt (Nat.lt_trans hhi (by decide))
  have hmod' : other.toNat % Address.spaceSize = other.toNat := Nat.mod_eq_of_lt hother
  have hcell : address.toNat - 0x1000 < 0x1000 := by omega
  have hwrite : memory.write address value =
      { memory with ram := memory.ram.set (address.toNat - 0x1000) value hcell } := by
    simp only [write, hmod, dif_pos (And.intro hlo hhi)]
  by_cases hram : 0x1000 ≤ other.toNat ∧ other.toNat < 0x2000
  · have hcells : (memory.write address value).ram[other.toNat - 0x1000]? =
        if address.toNat - 0x1000 = other.toNat - 0x1000 then some value else memory.ram[other.toNat - 0x1000]? := by
      rw [hwrite]
      exact Vector.getElem?_set hcell
    rw [getElem?_ram _ hram.1 hram.2, getElem?_ram _ hram.1 hram.2] at hcells
    by_cases hsame : other = address
    · rw [if_pos (by rw [hsame])] at hcells
      rw [if_pos hsame, Option.some.inj hcells]
    · have hne : address.toNat ≠ other.toNat := fun h => hsame (UInt32.toNat_inj.1 h.symm)
      rw [if_neg (by omega)] at hcells
      rw [if_neg hsame, Option.some.inj hcells]
  · have hsame : other ≠ address := by
      rintro rfl
      exact hram ⟨hlo, hhi⟩
    rw [if_neg hsame, hwrite]
    refine memory.read_congr rfl rfl ?_
    simp only [isRam, hmod', Bool.and_eq_false_iff, decide_eq_false_iff_not]
    omega

/-- A new BIOS is read from the first address on. -/
theorem read_replaceBios_image {memory : Memory} {image : List UInt8} {next : Memory}
    (h : memory.replaceBios image = .ok next) (address : UInt32) {byte : UInt8}
    (hbyte : image[address.toNat]? = some byte) : next.read address = byte := by
  rw [replaceBios] at h
  split at h
  · next hle =>
    obtain rfl := Except.ok.inj h
    obtain ⟨hlt, -⟩ := List.getElem?_eq_some_iff.1 hbyte
    refine Option.some.inj ((getElem?_bios _ (Nat.lt_of_lt_of_le hlt hle)).symm.trans ?_)
    simp [List.getElem?_append_left hlt, hbyte]
  · cases h

/-- A new BIOS is not read above the BIOS region. -/
theorem read_replaceBios {image : List UInt8} {next : Memory} (h : memory.replaceBios image = .ok next)
    (hlo : 0x1000 ≤ address.toNat) (hhi : address.toNat < Address.spaceSize) :
    next.read address = memory.read address := by
  have hmod : address.toNat % Address.spaceSize = address.toNat := Nat.mod_eq_of_lt hhi
  rw [replaceBios] at h
  split at h
  · obtain rfl := Except.ok.inj h
    simp only [read, hmod, dif_neg (Nat.not_lt.2 hlo)]
  · cases h

theorem insertCartridge_of_filled {image : List UInt8} (h : (!image.isEmpty) = true) :
    memory.insertCartridge image = .ok
      { memory with
        cartridge := place (.replicate Address.spaceSize 0) (imageStart image) image
        cartridgeEnd := UInt32.ofNat (min (imageStart image + image.length) Address.spaceSize) } := by
  rw [insertCartridge, if_neg (by simpa using h)]

end Memory

/-! ## Classification -/

/-- Only the direction of an access is not stored. -/
theorem Access.has_persistent (kind : Access) {flag : Flag} (hread : flag ≠ .read) (hwrite : flag ≠ .write) :
    kind.persistent.has flag = kind.has flag := by
  have hmask : (~~~direction).toNat = 2 ^ 30 - 1 := by decide
  have hindex : flag.index < 30 := by
    cases flag with
    | read => exact absurd rfl hread
    | write => exact absurd rfl hwrite
    | _ => decide
  simp only [has, persistent, UInt32.toNat_and, hmask, Nat.testBit_and, Nat.testBit_two_pow_sub_one, hindex, decide_true,
    Bool.and_true]

namespace Classification

variable (classification : Classification)

theorem slice?_eq {bank : Bank} (placed : bank.Placed) :
    classification.slice? bank.start bank.stop = some (bank.addresses.map classification.get) := by
  have hle := UInt32.le_iff_toNat_le.2 placed.start_le
  have hspace : bank.stop ≤ Address.spaceEnd := UInt32.le_iff_toNat_le.2 placed.stop_le
  rw [slice?, if_pos ⟨hle, hspace⟩, Bank.addresses, List.map_map]
  refine congrArg some (toList_extract_eq_map classification.words 0 bank.start.toNat bank.stop.toNat _ (Nat.zero_le _)
    (by have := placed.stop_le; omega) fun i hi => ?_)
  have hcell : bank.start.toNat + i < Address.spaceSize := Nat.lt_of_lt_of_le hi placed.stop_le
  rw [Nat.sub_zero, Function.comp, get, placed.toNat_address hi, Vector.getElem?_eq_getElem hcell, Option.getD_some]

/-- An effect changes the word of its own address, and no other. -/
theorem get_apply {address : UInt32} (h : address.toNat < Address.spaceSize) (previous current : Access)
    (other : UInt32) :
    (classification.apply address (.changed previous current)).get other =
      if other = address then current else classification.get other := by
  have heq : other = address ↔ address.toNat = other.toNat := by rw [eq_comm, UInt32.toNat_inj]
  simp only [get, apply, Vector.getElem?_setIfInBounds, heq]
  by_cases hsame : address.toNat = other.toNat
  · rw [if_pos hsame, if_pos hsame, if_pos h, Option.getD_some]
  · rw [if_neg hsame, if_neg hsame]

theorem get_apply_between {address : UInt32} (h : address.toNat < Address.spaceSize) (word : Access) (other : UInt32) :
    (classification.apply address (.between (classification.get address) word)).get other =
      if other = address then word else classification.get other := by
  rw [Effect.between]
  split
  · next hsame =>
    split
    · next hother => rw [← hsame, hother]; rfl
    · rfl
  · exact classification.get_apply h _ word other

/-- The word that an access would leave behind it. -/
theorem accessEffect_cases {address : UInt32} {kind : Access} :
    classification.accessEffect address kind = .ignored ∨
      ∃ word, classification.accessEffect address kind = .between (classification.get address) word ∧
        (word = kind.persistent ∨ word = (classification.get address).union kind.persistent) := by
  rw [accessEffect]
  split
  · exact .inl rfl
  · split
    · split
      · exact .inl rfl
      · exact .inr ⟨_, rfl, .inl rfl⟩
    · exact .inr ⟨_, rfl, .inr rfl⟩

theorem accessEffect_eq_unchanged {address : UInt32} {kind : Access}
    (h : classification.accessEffect address kind = .unchanged) :
    classification.get address = kind.persistent ∨
      classification.get address = (classification.get address).union kind.persistent := by
  rcases classification.accessEffect_cases with hignored | ⟨word, hbetween, hword⟩
  · rw [hignored] at h
    cases h
  · rw [hbetween, Effect.between] at h
    split at h
    · next hsame => rwa [← hsame] at hword
    · cases h

theorem accessEffect_eq_changed {address : UInt32} {kind previous current : Access}
    (h : classification.accessEffect address kind = .changed previous current) :
    previous = classification.get address ∧
      (current = kind.persistent ∨ current = (classification.get address).union kind.persistent) := by
  rcases classification.accessEffect_cases with hignored | ⟨word, hbetween, hword⟩
  · rw [hignored] at h
    cases h
  · rw [hbetween, Effect.between] at h
    split at h
    · cases h
    · obtain ⟨rfl, rfl⟩ := Effect.changed.inj h
      exact ⟨rfl, hword⟩

/-- A change is to another word. -/
theorem ne_of_accessEffect_eq_changed {address : UInt32} {kind previous current : Access}
    (h : classification.accessEffect address kind = .changed previous current) : current ≠ previous := by
  rcases classification.accessEffect_cases with hignored | ⟨word, hbetween, -⟩
  · rw [hignored] at h
    cases h
  · rw [hbetween, Effect.between] at h
    split at h
    · cases h
    · next hne =>
      obtain ⟨rfl, rfl⟩ := Effect.changed.inj h
      exact Ne.symm hne

end Classification

/-! ## Views -/

namespace Tracer

/-- What a bank of the layout is listed from. -/
def viewOf (tracer : Tracer) (bank : Bank) : View :=
  ⟨bank.start, bank.addresses.map tracer.memory.read, bank.addresses.map tracer.traceAt⟩

theorem view?_eq (tracer : Tracer) {bank : Bank} (placed : bank.Placed) :
    tracer.view? bank = some (tracer.viewOf bank) := by
  simp only [view?, tracer.memory.slice?_eq placed, tracer.classification.slice?_eq placed]
  rfl

theorem list_eq (tracer : Tracer) {bank : Bank} (placed : bank.Placed) :
    tracer.list bank = (tracer.viewOf bank).rows tracer.symbols tracer.config := by
  simp only [list, tracer.view?_eq placed]

end Tracer

end TraceDisasm
