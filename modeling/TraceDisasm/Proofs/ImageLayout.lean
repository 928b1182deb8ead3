import TraceDisasm.Proofs.BankContents
import TraceDisasm.Session

/-!
# How an image lies in memory

A cartridge image is written byte by byte from its first address on, and goes on at address zero when it reaches the end of
the space. So an image may write an address more than once. What is read there afterwards is the last byte written, and zero
where none was (`Memory.getElem?_place_of_isLastAt`, `Memory.getElem?_place_of_none`). The end of the cartridge does not go
round with the image but stays at the end of the space.

There are two ways to look at memory: a byte at an address, and the bytes of a bank as a whole. They choose the part of memory
by different tests, the one by the address, the other by the end of the bank, and agree for every bank of every layout, also
one that was made for another cartridge than the one in memory (`Memory.run_views`).
-/

namespace TraceDisasm.Memory

/-! ## Images -/

/-- Of the bytes of an image that begins at `start`, the one at position `i` is the last to be written to an address. -/
structure IsLastAt (image : List UInt8) (start address i : Nat) : Prop where
  lt : i < image.length
  written : (i + start) % Address.spaceSize = address
  last : ∀ j < image.length, (j + start) % Address.spaceSize = address → j ≤ i

variable {cells : Vector UInt8 Address.spaceSize} {image : List UInt8} {start address i : Nat}

/-- An address that no byte is written to keeps its own. -/
theorem getElem?_place_of_none (h : ∀ j < image.length, (j + start) % Address.spaceSize ≠ address) :
    (place cells start image)[address]? = cells[address]? := by
  induction image generalizing cells start with
  | nil => rfl
  | cons byte image ih =>
    have hfirst : start % Address.spaceSize ≠ address := by
      have := h 0 (Nat.zero_lt_succ _)
      rwa [Nat.zero_add] at this
    have hrest : ∀ j < image.length, (j + (start + 1)) % Address.spaceSize ≠ address := fun j hj => by
      have := h (j + 1) (Nat.succ_lt_succ hj)
      rwa [Nat.add_right_comm] at this
    rw [place, ih hrest, Vector.getElem?_set_ne (Nat.mod_lt _ Address.spaceSize_pos) hfirst]

/-- Any other holds the byte that is written last. -/
theorem getElem?_place_of_isLastAt (h : IsLastAt image start address i) :
    (place cells start image)[address]? = image[i]? := by
  induction image generalizing cells start i with
  | nil => exact absurd h.lt (Nat.not_lt_zero i)
  | cons byte image ih =>
    have hshift (j : Nat) : j + 1 + start = j + (start + 1) := Nat.add_right_comm j 1 start
    cases i with
    | zero =>
      have hnone : ∀ j < image.length, (j + (start + 1)) % Address.spaceSize ≠ address := fun j hj hwritten => by
        have := h.last (j + 1) (Nat.succ_lt_succ hj) (by rwa [hshift])
        omega
      have hfirst := h.written
      rw [Nat.zero_add] at hfirst
      subst hfirst
      rw [place, getElem?_place_of_none hnone, Vector.getElem?_set_self]
      rfl
    | succ i =>
      rw [place, List.getElem?_cons_succ]
      refine ih ⟨Nat.lt_of_succ_lt_succ h.lt, ?_, fun j hj hwritten => ?_⟩
      · rw [← hshift, h.written]
      · exact Nat.le_of_succ_le_succ (h.last (j + 1) (Nat.succ_lt_succ hj) (by rwa [hshift]))

/-- Where an image begins is told by its first two bytes. -/
theorem imageStart_eq (image : List UInt8) : imageStart image = if [0x50, 0x4D] <+: image then 0x2100 else 0 := by
  unfold imageStart
  split
  · next rest => rw [if_pos ⟨rest, rfl⟩]
  · next hother => rw [if_neg fun ⟨rest, hrest⟩ => hother rest hrest.symm]

/-- Memory once an image has been inserted that begins at `start`. -/
structure LaidOut (memory : Memory) (image : List UInt8) (start : Nat) (next : Memory) : Prop where
  /-- The last byte that is written to an address is read there, -/
  written : ∀ address : UInt32, 0x2100 ≤ address.toNat → address.toNat < Address.spaceSize →
    ∀ i, IsLastAt image start address.toNat i → image[i]? = some (next.read address)
  /-- and zero where none is. -/
  blank : ∀ address : UInt32, 0x2100 ≤ address.toNat → address.toNat < Address.spaceSize →
    (∀ i < image.length, (i + start) % Address.spaceSize ≠ address.toNat) → next.read address = 0
  cartridgeEnd : next.cartridgeEnd.toNat = min (start + image.length) Address.spaceSize
  bios : next.bios = memory.bios
  ram : next.ram = memory.ram

/-- To insert an image is to wipe the cartridge and write the image over it. -/
theorem exists_laidOut (memory : Memory) (h : image ≠ []) :
    ∃ next, memory.insertCartridge image = .ok next ∧ LaidOut memory image (imageStart image) next := by
  refine ⟨_, memory.insertCartridge_of_filled (by simpa using h), ?_⟩
  constructor
  · intro address hlo hhi i hlast
    rw [← getElem?_cartridge _ hlo hhi]
    exact (getElem?_place_of_isLastAt hlast).symm
  · intro address hlo hhi hnone
    refine Option.some.inj ((getElem?_cartridge _ hlo hhi).symm.trans ?_)
    rw [getElem?_place_of_none hnone, Vector.getElem?_replicate, if_pos hhi]
  · have hmin := Nat.min_le_right (imageStart image + image.length) Address.spaceSize
    exact UInt32.toNat_ofNat_of_lt' (Nat.lt_of_le_of_lt hmin (by decide))
  · rfl
  · rfl

/-! ## Two views of memory -/

/-- Memory after some commands. -/
def run (memory : Memory) (commands : List MemoryCommand) : Memory :=
  commands.foldl (fun memory command => (memory.perform command).1) memory

/-- The bytes of a bank can be cut out of memory, and are those that are read one by one. -/
def ViewsAgree (memory : Memory) (bank : Bank) : Prop :=
  ∃ bytes, memory.slice? bank.start bank.stop = some bytes ∧ bytes.length = bank.stop.toNat - bank.start.toNat ∧
    ∀ k < bytes.length, bytes[k]? = some (memory.read (bank.start + UInt32.ofNat k))

theorem viewsAgree_of_placed (memory : Memory) {bank : Bank} (placed : bank.Placed) : memory.ViewsAgree bank := by
  refine ⟨_, memory.slice?_eq placed, by rw [List.length_map, Bank.length_addresses, Bank.size], fun k hk => ?_⟩
  rw [List.length_map, Bank.length_addresses] at hk
  simp [Bank.addresses, hk]

/-- **Images lie in memory as they are described, and both views of memory show the same.** After any commands, an image is
inserted from address `0x2100` on if it begins with `PM`, and from zero on otherwise; and whatever the banks are, each of them
is cut out of memory with the bytes that are read at its addresses. -/
theorem run_views (memory : Memory) (commands : List MemoryCommand) :
    (∀ image ≠ [], ∃ next, (memory.run commands).insertCartridge image = .ok next ∧
      LaidOut (memory.run commands) image (if [0x50, 0x4D] <+: image then 0x2100 else 0) next) ∧
      ∀ cartridgeEnd, ∀ bank ∈ (Registry.ofCartridgeEnd cartridgeEnd).banks, (memory.run commands).ViewsAgree bank := by
  refine ⟨fun image hfilled => ?_, fun cartridgeEnd bank hmem => ?_⟩
  · rw [← imageStart_eq]
    exact (memory.run commands).exists_laidOut hfilled
  · exact (memory.run commands).viewsAgree_of_placed (Registry.placed_ofCartridgeEnd cartridgeEnd bank hmem)

/-- A raw image that is one byte longer than the space. -/
def overlong : List UInt8 := 0x50 :: 0x4D :: List.replicate (Address.spaceSize - 2) 0 ++ [9]

/-- Its last byte is written over its first. -/
theorem run_views_overlong : overlong ≠ [] ∧ [0x50, 0x4D] <+: overlong ∧ IsLastAt overlong 0x2100 0x2100 Address.spaceSize ∧
    (∃ next, (empty.run [.write 0x1000 1, .eject]).insertCartridge overlong = .ok next ∧ next.read 0x2100 = 9 ∧
      next.cartridgeEnd.toNat = Address.spaceSize) ∧
    (empty.run [.write 0x1000 1, .eject]).ViewsAgree (.fresh .ram Address.registersStart) := by
  have hraw : [0x50, 0x4D] <+: overlong := ⟨_, rfl⟩
  have hfilled : overlong ≠ [] := List.cons_ne_nil _ _
  have hfront : (0x50 :: 0x4D :: List.replicate (Address.spaceSize - 2) (0 : UInt8)).length = Address.spaceSize := by
    rw [List.length_cons, List.length_cons, List.length_replicate]
    rfl
  have hlength : overlong.length = Address.spaceSize + 1 := by
    rw [overlong, List.length_append, hfront, List.length_singleton]
  have hlast : IsLastAt overlong 0x2100 0x2100 Address.spaceSize :=
    ⟨by omega, by decide, fun j hj _ => Nat.le_of_lt_succ (Nat.lt_of_lt_of_eq hj hlength)⟩
  have hbyte : overlong[Address.spaceSize]? = some 9 := by
    rw [overlong, List.getElem?_append_right (Nat.le_of_eq hfront), hfront, Nat.sub_self]
    rfl
  obtain ⟨himages, hviews⟩ := run_views empty [.write 0x1000 1, .eject]
  obtain ⟨next, hinsert, laidOut⟩ := himages overlong hfilled
  rw [if_pos hraw] at laidOut
  have hread := laidOut.written 0x2100 (by decide) (by decide) Address.spaceSize hlast
  rw [hbyte] at hread
  refine ⟨hfilled, hraw, hlast, ⟨next, hinsert, (Option.some.inj hread).symm, ?_⟩, ?_⟩
  · rw [laidOut.cartridgeEnd, hlength]
    rfl
  · exact hviews 0 _ (List.mem_cons_of_mem _ List.mem_cons_self)

end TraceDisasm.Memory
