import TraceDisasm.Address
import TraceDisasm.Error

/-!
# Memory

The bytes of the machine: BIOS and RAM of 4 KiB each, and a cartridge that is addressed over the whole physical space
although the CPU sees it only from `0x2100` on. Reading always gives a byte, zero where there is none; writing changes
RAM and nothing else.

A cartridge image that begins with `PM` is placed where the CPU sees cartridges, any other at address zero. An image
that reaches past the end of the space goes on at its beginning.
-/

namespace TraceDisasm

/-- The bytes of the machine. -/
structure Memory where
  bios : Vector UInt8 0x1000
  ram : Vector UInt8 0x1000
  cartridge : Vector UInt8 Address.spaceSize
  /-- One past the last address that the cartridge fills; zero without a cartridge. -/
  cartridgeEnd : UInt32

namespace Memory

/-- Number of bytes of the BIOS. -/
def biosSize : Nat := 0x1000

/-- Memory without a cartridge, all bytes zero. -/
def empty : Memory where
  bios := .replicate 0x1000 0
  ram := .replicate 0x1000 0
  cartridge := .replicate Address.spaceSize 0
  cartridgeEnd := 0

/-- The byte that the CPU reads at an address; only the low 21 bits of the address count. -/
def read (memory : Memory) (address : UInt32) : UInt8 :=
  let a := address.toNat % Address.spaceSize
  have inSpace : a < Address.spaceSize := Nat.mod_lt _ Address.spaceSize_pos
  if bios : a < 0x1000 then memory.bios[a]
  else if ram : a < 0x2000 then memory.ram.get ⟨a - 0x1000, by omega⟩
  else if a < 0x2100 then 0
  else memory.cartridge[a]

/-- What memory is after the CPU writes a byte. -/
def write (memory : Memory) (address : UInt32) (value : UInt8) : Memory :=
  let a := address.toNat % Address.spaceSize
  if ram : 0x1000 ≤ a ∧ a < 0x2000 then { memory with ram := memory.ram.set (a - 0x1000) value (by omega) }
  else memory

/-- The bytes of the addresses from `first` up to `stop`, if that is a range of one part of memory. Which part is
meant is told by where the range ends. -/
def slice? (memory : Memory) (first stop : UInt32) : Option (List UInt8) :=
  if stop ≤ Address.ramStart then
    if first ≤ stop then some (memory.bios.extract first.toNat stop.toNat).toList else none
  else if stop ≤ Address.registersStart then
    if Address.ramStart ≤ first ∧ first ≤ stop then
      some (memory.ram.extract (first.toNat - 0x1000) (stop.toNat - 0x1000)).toList
    else none
  else if first ≤ stop ∧ stop ≤ Address.spaceEnd then
    some (memory.cartridge.extract first.toNat stop.toNat).toList
  else none

/-- Replaces the BIOS; the bytes past the image are zero. -/
def replaceBios (memory : Memory) (image : List UInt8) : Except Error Memory :=
  if h : image.length ≤ biosSize then
    let bytes := image ++ List.replicate (biosSize - image.length) 0
    .ok { memory with bios := ⟨bytes.toArray, by simp only [biosSize] at h; simp [bytes, biosSize]; omega⟩ }
  else .error (.biosTooLarge image.length)

/-- The address of the first byte of an image. -/
def imageStart : List UInt8 → Nat
  | 0x50 :: 0x4D :: _ => 0x2100
  | _ => 0

/-- Writes bytes to consecutive addresses, from the end of the space back to its beginning. -/
def place (cells : Vector UInt8 Address.spaceSize) (address : Nat) : List UInt8 → Vector UInt8 Address.spaceSize
  | [] => cells
  | byte :: bytes =>
    place (cells.set (address % Address.spaceSize) byte (Nat.mod_lt _ Address.spaceSize_pos)) (address + 1) bytes

/-- Inserts a cartridge. -/
def insertCartridge (memory : Memory) (image : List UInt8) : Except Error Memory :=
  if image.isEmpty then .error .emptyCartridge
  else
    let start := imageStart image
    .ok
      { memory with
        cartridge := place (.replicate Address.spaceSize 0) start image
        cartridgeEnd := UInt32.ofNat (min (start + image.length) Address.spaceSize) }

/-- Removes the cartridge. -/
def eject (memory : Memory) : Memory :=
  { memory with cartridge := .replicate Address.spaceSize 0, cartridgeEnd := 0 }

/-- Whether a cartridge fills any address that the CPU sees. -/
def hasCartridge (memory : Memory) : Bool :=
  Address.cartridgeStart < memory.cartridgeEnd

end Memory

end TraceDisasm
