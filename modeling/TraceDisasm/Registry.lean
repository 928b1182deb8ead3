import TraceDisasm.Bank

/-!
# The registry of banks

The banks in display order: BIOS, RAM, and the pages of the cartridge as far as it reaches, made one after the other
(`Registry.romBanks`). Which banks there are is decided when a cartridge is inserted or removed
(`Registry.ofCartridgeEnd`); everything else only changes what goes with them.
-/

namespace TraceDisasm

/-- The banks in display order. -/
structure Registry where
  banks : List Bank
  deriving DecidableEq

namespace Registry

/-- The banks of a cartridge that ends before `stop`, from an address on: the one of the page of this address, and those of
all later pages. -/
@[semireducible]
def romBanks (stop : UInt32) (hstop : stop ≤ Address.spaceEnd) (address : UInt32) : List Bank :=
  if address < stop then
    let next := Address.pageEnd address + 1
    .fresh (.rom (address >>> 15).toUInt8) (min next stop) :: romBanks stop hstop next
  else []
termination_by stop.toNat - address.toNat
decreasing_by
  have hlt : address < stop := ‹_›
  have hnext := Address.lt_pageEnd_add_one (UInt32.lt_of_lt_of_le hlt hstop)
  rw [UInt32.lt_iff_toNat_lt] at hlt hnext
  omega

theorem min_le_spaceEnd (address : UInt32) : min address Address.spaceEnd ≤ Address.spaceEnd := by
  rw [show min address Address.spaceEnd = if address ≤ Address.spaceEnd then address else Address.spaceEnd from rfl]
  split
  · assumption
  · exact UInt32.le_refl _

/-- The banks while a cartridge fills the addresses before `cartridgeEnd`. -/
def ofCartridgeEnd (cartridgeEnd : UInt32) : Registry :=
  ⟨.fresh .bios Address.ramStart :: .fresh .ram Address.registersStart ::
    romBanks (min cartridgeEnd Address.spaceEnd) (min_le_spaceEnd cartridgeEnd) Address.cartridgeStart⟩

/-- The bank with an identifier. -/
def get? (registry : Registry) (id : BankId) : Option Bank :=
  registry.banks.find? fun bank => bank.id == id

/-- Changes the bank with an identifier. -/
def modify (registry : Registry) (id : BankId) (change : Bank → Bank) : Registry :=
  ⟨registry.banks.map fun bank => if bank.id = id then change bank else bank⟩

/-- The bank that an address lies in. -/
def covering? (registry : Registry) (address : UInt32) : Option Bank :=
  ((BankId.ofAddress? address).bind registry.get?).filter fun bank => bank.contains address

/-- The identifier of the bank that an address lies in. -/
def bankFor? (registry : Registry) (address : UInt32) : Option BankId :=
  (registry.covering? address).map Bank.id

/-- Invalidates the bank that an address lies in. -/
def invalidateAt (registry : Registry) (address : UInt32) : Registry :=
  match registry.bankFor? address with
  | some id => registry.modify id Bank.invalidate
  | none => registry

/-- The banks that have changes to announce, in display order. -/
def pending (registry : Registry) : List Bank :=
  registry.banks.filter Bank.pending

/-- All changes have been announced. -/
def settle (registry : Registry) : Registry :=
  ⟨registry.banks.map Bank.settle⟩

end Registry

end TraceDisasm
