import Mathlib.Data.Nat.Bitwise
import TraceDisasm.Address

/-!
# Logical and physical addresses

Addresses are translated in three places: to logical ones (`Address.logical`), to physical ones under a bank register
(`Address.physical`), and from the one to the other and back where a relative branch is resolved
(`Address.relativeTarget`). Each of them is written with masks of its own. In numbers, all three cut the space into pages of
`0x8000` addresses, and a branch is resolved as the CPU would reach it: by the logical address that it counts to, under the
page that is selected (`Address.relativeTarget_eq_physical`). The translations agree for every page that a bank register can
select, which are four times as many as the physical space has (`Address.translations_agree`).
-/

namespace TraceDisasm

namespace Address

/-! ## Addresses in numbers -/

variable (address : UInt32)

theorem toNat_and_offsetMask : (address &&& offsetMask).toNat = address.toNat % 0x8000 := by
  rw [UInt32.toNat_and]
  exact Nat.and_two_pow_sub_one_eq_mod address.toNat 15

theorem toNat_pageStart : (pageStart address).toNat = address.toNat / 0x8000 * 0x8000 := by
  have hdisjoint : (address.toBitVec &&& ~~~offsetMask.toBitVec) &&& (address.toBitVec &&& offsetMask.toBitVec) = 0#32 := by
    ext i
    simp only [BitVec.getElem_and, BitVec.getElem_not, BitVec.getElem_zero]
    cases offsetMask.toBitVec[i] <;> simp
  have hjoin : (address.toBitVec &&& ~~~offsetMask.toBitVec) ||| (address.toBitVec &&& offsetMask.toBitVec) =
      address.toBitVec := by
    ext i
    simp only [BitVec.getElem_or, BitVec.getElem_and, BitVec.getElem_not]
    cases offsetMask.toBitVec[i] <;> simp
  have hsum := congrArg BitVec.toNat (BitVec.add_eq_or_of_and_eq_zero _ _ hdisjoint)
  rw [hjoin, BitVec.toNat_add_of_and_eq_zero hdisjoint] at hsum
  have hparts : (pageStart address).toNat + (address &&& offsetMask).toNat = address.toNat := hsum
  rw [toNat_and_offsetMask] at hparts
  omega

theorem page_or_offset (page : Nat) {offset : Nat} (h : offset < 0x8000) :
    page * 0x8000 ||| offset = page * 0x8000 + offset := by
  rw [Nat.mul_comm]
  exact (Nat.two_pow_add_eq_or_of_lt (i := 15) h page).symm

theorem toNat_pageEnd : (pageEnd address).toNat = address.toNat / 0x8000 * 0x8000 + 0x7FFF := by
  have hoffset : address.toNat % 0x8000 ||| 0x7FFF = 0x7FFF := by
    have hle : 0x7FFF ≤ address.toNat % 0x8000 ||| 0x7FFF := Nat.right_le_or
    have hlt : address.toNat % 0x8000 ||| 0x7FFF < 0x8000 :=
      Nat.or_lt_two_pow (n := 15) (Nat.mod_lt _ (by decide)) (by decide)
    omega
  have hsplit : address.toNat = address.toNat / 0x8000 * 0x8000 ||| address.toNat % 0x8000 := by
    rw [page_or_offset _ (Nat.mod_lt _ (by decide))]
    omega
  rw [pageEnd, UInt32.toNat_or]
  show address.toNat ||| 0x7FFF = _
  rw [hsplit, Nat.or_assoc, hoffset, ← hsplit, page_or_offset _ (by decide)]

theorem toNat_logical :
    (logical address).toNat = if address.toNat < 0x8000 then address.toNat else 0x8000 + address.toNat % 0x8000 := by
  have hwindow : (pageBit ||| (address &&& offsetMask)).toNat = 0x8000 + address.toNat % 0x8000 := by
    rw [UInt32.toNat_or, toNat_and_offsetMask]
    exact page_or_offset 1 (Nat.mod_lt _ (by decide))
  have hiff : pageBit ≤ address ↔ ¬ address.toNat < 0x8000 := by
    rw [UInt32.le_iff_toNat_le]
    exact Nat.not_lt.symm
  unfold logical
  by_cases hlow : address.toNat < 0x8000
  · rw [if_neg (fun hle => hiff.1 hle hlow), if_pos hlow, UInt32.toNat_toUInt16]
    omega
  · rw [if_pos (hiff.2 hlow), if_neg hlow, UInt32.toNat_toUInt16, hwindow]
    omega

/-- A displacement is added modulo the size of the logical space. -/
theorem toNat_displaced (pc : UInt16) (displacement : Int32) :
    (((pc.toUInt32 + displacement.toUInt32) &&& 0xFFFF).toNat : Int) = (pc.toNat + displacement.toInt) % 0x10000 := by
  have hsigned : displacement.toInt = _ := BitVec.toInt_eq_toNat_cond displacement.toBitVec
  rw [Int32.toNat_toBitVec] at hsigned
  have hmod : ((pc.toUInt32 + displacement.toUInt32) &&& 0xFFFF).toNat =
      (pc.toUInt32 + displacement.toUInt32).toNat % 0x10000 := by
    rw [UInt32.toNat_and]
    exact Nat.and_two_pow_sub_one_eq_mod _ 16
  rw [hmod, UInt32.toNat_add, UInt16.toNat_toUInt32]
  split at hsigned <;> omega

theorem and_pageBit_eq_zero_iff {target : UInt32} (h : target.toNat < 0x10000) :
    target &&& pageBit = 0 ↔ target.toNat < 0x8000 := by
  rw [← UInt32.toNat_inj, UInt32.toNat_and]
  show target.toNat &&& 2 ^ 15 = 0 ↔ _
  rw [Nat.and_two_pow, Nat.testBit_eq_decide_div_mod_eq]
  by_cases hbit : target.toNat / 2 ^ 15 % 2 = 1
  · simp
    omega
  · simp
    omega

/-- Where a branch leads: the lower half of the logical space is physical, the upper half shows a page. -/
theorem toNat_relativeTarget (next : UInt32) (displacement : Int32) {jumpPage : UInt32} {page : Nat}
    (hpage : jumpPage.toNat = page * 0x8000) {target : Int}
    (htarget : ((logical next).toNat + displacement.toInt) % 0x10000 = target) :
    ((relativeTarget next displacement jumpPage).toNat : Int) =
      if target < 0x8000 then target else page * 0x8000 + (target - 0x8000) := by
  have hdisplaced := toNat_displaced (logical next) displacement
  rw [htarget] at hdisplaced
  unfold relativeTarget
  generalize ((logical next).toUInt32 + displacement.toUInt32) &&& 0xFFFF = reached at hdisplaced
  have hiff : reached &&& pageBit = 0 ↔ reached.toNat < 0x8000 := and_pageBit_eq_zero_iff (by omega)
  by_cases hlow : reached.toNat < 0x8000
  · rw [if_pos (hiff.2 hlow), if_pos (by omega), hdisplaced]
  · rw [if_neg (fun hzero => hlow (hiff.1 hzero)), if_neg (by omega), UInt32.toNat_or, toNat_and_offsetMask, hpage,
      page_or_offset page (Nat.mod_lt _ (by decide))]
    omega

/-- The CPU reads the lower half of the logical space as it stands, and the upper half in the page of a bank register. -/
theorem toNat_physical (pc : UInt16) (codeBank : UInt8) :
    (physical pc codeBank).toNat =
      if pc.toNat < 0x8000 then pc.toNat else codeBank.toNat * 0x8000 + (pc.toNat - 0x8000) := by
  have hpc := pc.toNat_lt
  have hbank := codeBank.toNat_lt
  have hiff : pc < 0x8000 ↔ pc.toNat < 0x8000 := UInt16.lt_iff_toNat_lt
  unfold physical
  by_cases hlow : pc.toNat < 0x8000
  · rw [if_pos (hiff.2 hlow), if_pos hlow, UInt16.toNat_toUInt32]
  · have hle : (0x8000 : UInt16) ≤ pc := UInt16.le_iff_toNat_le.2 (Nat.le_of_not_lt hlow)
    have hoffset : (pc - 0x8000).toNat = pc.toNat - 0x8000 := UInt16.toNat_sub_of_le pc 0x8000 hle
    have hpage : (codeBank.toUInt32 * 0x8000).toNat = codeBank.toNat * 0x8000 % 2 ^ 32 := UInt32.toNat_mul ..
    rw [if_neg (fun hlt => hlow (hiff.1 hlt)), if_neg hlow, UInt32.toNat_add, hpage, UInt16.toNat_toUInt32, hoffset]
    omega

theorem toNat_pageOfNumber (number : UInt8) : (pageOfNumber number).toNat = number.toNat * 0x8000 := by
  have hnumber := number.toNat_lt
  have hshift : (pageOfNumber number).toNat = number.toUInt32.toNat <<< 15 % 2 ^ 32 := UInt32.toNat_shiftLeft ..
  rw [hshift, Nat.shiftLeft_eq, UInt8.toNat_toUInt32]
  exact Nat.mod_eq_of_lt (by omega)

/-- The number of the page of an address. -/
theorem toNat_pageNumber : (address >>> 15).toNat = address.toNat / 0x8000 := by
  rw [UInt32.toNat_shiftRight]
  exact Nat.shiftRight_eq_div_pow address.toNat 15

/-! ## Agreement -/

/-- A relative branch leads to where the CPU gets by counting on in the logical space. -/
theorem relativeTarget_eq_physical (next : UInt32) (displacement : Int32) (codeBank : UInt8) :
    relativeTarget next displacement (pageOfNumber codeBank) =
      physical (UInt16.ofInt ((logical next).toNat + displacement.toInt)) codeBank := by
  rw [← UInt32.toNat_inj, ← Int.natCast_inj, toNat_relativeTarget next displacement (toNat_pageOfNumber codeBank) rfl,
    toNat_physical]
  have hpc : ((UInt16.ofInt ((logical next).toNat + displacement.toInt)).toNat : Int) =
      ((logical next).toNat + displacement.toInt) % 0x10000 := by
    rw [UInt16.ofInt, UInt16.toNat_ofNat']
    omega
  rw [← hpc]
  split <;> split <;> omega

/-- An address is reached again by its logical address, as long as a bank register can select its page. -/
theorem physical_logical (h : address.toNat < 2 ^ 23) : physical (logical address) (address >>> 15).toUInt8 = address := by
  have hlogical := toNat_logical address
  rw [← UInt32.toNat_inj, toNat_physical, UInt32.toNat_toUInt8, toNat_pageNumber]
  split at hlogical <;> split <;> omega

/-- **The translations agree.** A relative branch is resolved as the CPU would reach its logical target under the selected
page; an address whose page a bank register can select is reached again by its logical address; and so a branch within a page
that is selected leads to its target, for the displacement that separates the two in the logical space. -/
theorem translations_agree :
    (∀ (next : UInt32) (displacement : Int32) (codeBank : UInt8), relativeTarget next displacement (pageOfNumber codeBank) =
        physical (UInt16.ofInt ((logical next).toNat + displacement.toInt)) codeBank) ∧
      (∀ address : UInt32, address.toNat < 2 ^ 23 → physical (logical address) (address >>> 15).toUInt8 = address) ∧
      ∀ (page : UInt8) (next target : UInt32), next >>> 15 = page.toUInt32 → target >>> 15 = page.toUInt32 →
        relativeTarget next (Int32.ofInt ((logical target).toNat - (logical next).toNat)) (pageOfNumber page) = target := by
  refine ⟨relativeTarget_eq_physical, physical_logical, fun page next target _ htarget => ?_⟩
  have hpage := page.toNat_lt
  have hnumber := toNat_pageNumber target
  rw [htarget, UInt8.toNat_toUInt32] at hnumber
  have hreached := physical_logical target (by omega)
  rw [htarget, UInt8.toUInt8_toUInt32] at hreached
  -- the displacement is small enough to be one, and leads from one logical address to the other
  have hdisplacement : (Int32.ofInt ((logical target).toNat - (logical next).toNat)).toInt =
      (logical target).toNat - (logical next).toNat := by
    have hlast := (logical target).toNat_lt
    have hfirst := (logical next).toNat_lt
    exact Int32.toInt_ofInt_of_le (by omega) (by omega)
  have hpc : UInt16.ofInt ((logical next).toNat + (Int32.ofInt ((logical target).toNat - (logical next).toNat)).toInt) =
      logical target := by
    rw [hdisplacement, ← UInt16.toNat_inj, UInt16.ofInt, UInt16.toNat_ofNat']
    have hlast := (logical target).toNat_lt
    omega
  rw [relativeTarget_eq_physical, hpc, hreached]

/-- The last page that a bank register can select, far outside the physical space. -/
theorem translations_agree_lastPage :
    (0x7FFFFF : UInt32).toNat < 2 ^ 23 ∧ physical (logical 0x7FFFFF) ((0x7FFFFF : UInt32) >>> 15).toUInt8 = 0x7FFFFF ∧
      (0x7F8000 : UInt32) >>> 15 = (0xFF : UInt8).toUInt32 ∧ (0x7FFFFF : UInt32) >>> 15 = (0xFF : UInt8).toUInt32 ∧
      relativeTarget 0x7F8000 (Int32.ofInt ((logical 0x7FFFFF).toNat - (logical 0x7F8000).toNat)) (pageOfNumber 0xFF) =
        0x7FFFFF :=
  ⟨by decide, translations_agree.2.1 0x7FFFFF (by decide), by decide, by decide,
    translations_agree.2.2 0xFF 0x7F8000 0x7FFFFF (by decide) (by decide)⟩

end Address

end TraceDisasm
