/-!
# Addresses

The machine has a physical address space of 21 bits:

* `0x000000`–`0x000FFF` BIOS,
* `0x001000`–`0x001FFF` RAM,
* `0x002000`–`0x0020FF` hardware registers,
* `0x002100`–`0x1FFFFF` cartridge, in pages of 32 KiB.

The CPU itself counts in 16-bit logical addresses. Those below `0x8000` are physical as they stand; the
upper half is a window onto the page that a bank register selects. `logical` and `physical` translate
between the two, and `relativeTarget` resolves a relative branch, which the CPU computes in the logical
space. All arithmetic on addresses is modulo `2 ^ 32`.
-/

namespace TraceDisasm.Address

/-- Number of addresses in the physical space. -/
def spaceSize : Nat := 0x200000

theorem spaceSize_pos : 0 < spaceSize := Nat.succ_pos _

/-- One past the last physical address. -/
def spaceEnd : UInt32 := 0x200000

/-- First RAM address, one past the BIOS. -/
def ramStart : UInt32 := 0x1000

/-- First register address, one past the RAM. -/
def registersStart : UInt32 := 0x2000

/-- First cartridge address, one past the registers. -/
def cartridgeStart : UInt32 := 0x2100

/-- The bit that separates pages: set in the logical addresses of the banked window. -/
def pageBit : UInt32 := 0x8000

/-- The bits of an address within its page. -/
def offsetMask : UInt32 := 0x7FFF

/-- Whether an address is in the hardware register window. -/
def isRegister (address : UInt32) : Bool :=
  registersStart ≤ address && address < cartridgeStart

/-- Whether an address is in or above cartridge space, where writes have no effect. -/
def isCartridge (address : UInt32) : Bool :=
  cartridgeStart ≤ address

/-- The first address of the page that an address lies in. -/
def pageStart (address : UInt32) : UInt32 :=
  address &&& ~~~offsetMask

/-- The last address of the page that an address lies in. -/
def pageEnd (address : UInt32) : UInt32 :=
  address ||| offsetMask

/-- In the physical space, there is always an address behind the last one of a page. -/
theorem lt_pageEnd_add_one {address : UInt32} (h : address < spaceEnd) : address < pageEnd address + 1 := by
  have hlt : address.toNat < 0x200000 := UInt32.lt_iff_toNat_lt.1 h
  have hle : address.toNat ≤ address.toNat ||| 0x7FFF := Nat.left_le_or
  have hor : address.toNat ||| 0x7FFF < 0x200000 := Nat.or_lt_two_pow (n := 21) hlt (by decide)
  have hmask : offsetMask.toNat = 0x7FFF := rfl
  have hone : UInt32.toNat 1 = 1 := rfl
  rw [UInt32.lt_iff_toNat_lt, pageEnd, UInt32.toNat_add, UInt32.toNat_or, hmask]
  omega

/-- The first address of the page with a given number. -/
def pageOfNumber (number : UInt8) : UInt32 :=
  number.toUInt32 <<< 15

/-- The logical address by which the CPU reaches a physical address while its page is selected. -/
def logical (address : UInt32) : UInt16 :=
  if pageBit ≤ address then (pageBit ||| (address &&& offsetMask)).toUInt16 else address.toUInt16

/-- The physical address of a logical program counter under a code bank register. -/
def physical (pc : UInt16) (codeBank : UInt8) : UInt32 :=
  if pc < 0x8000 then pc.toUInt32 else codeBank.toUInt32 * 0x8000 + (pc - 0x8000).toUInt32

/-- The physical address that a relative branch reaches. The displacement is added to the logical address
of the next instruction; a target in the banked window is served from the page `jumpPage`. -/
def relativeTarget (next : UInt32) (displacement : Int32) (jumpPage : UInt32) : UInt32 :=
  let target := ((logical next).toUInt32 + displacement.toUInt32) &&& 0xFFFF
  if target &&& pageBit = 0 then target else jumpPage ||| (target &&& offsetMask)

example : logical 0x18010 = 0x8010 ∧ physical 0x8010 3 = 0x18010 := by decide

example : relativeTarget 0x10002 (-4) 0x18000 = 0x7FFE := by decide

end TraceDisasm.Address
