import TraceDisasm.Access
import TraceDisasm.Address

/-!
# Classification

What is known about every physical address, as one access word each. Reads add to the word of an address. A write
replaces it, since the byte that it told about is gone; but nothing is known about the hardware registers, and writes
cannot change the cartridge, so those accesses are ignored. An operator may force a word onto any address.

What an access does is described first (`Classification.accessEffect`, `Classification.forceEffect`) and then carried
out (`Classification.apply`).
-/

namespace TraceDisasm

/-- One word for each address of the physical space. -/
structure Classification where
  words : Vector Access Address.spaceSize

namespace Classification

/-- What an access does to the word of its address. -/
inductive Effect
  /-- The access tells nothing. -/
  | ignored
  /-- The access tells nothing new. -/
  | unchanged
  /-- The word becomes another one. -/
  | changed (previous current : Access)
  deriving DecidableEq

/-- Nothing is known yet. -/
def empty : Classification := ⟨Vector.replicate Address.spaceSize .none⟩

/-- The word of an address. Past the physical space nothing is known. -/
def get (classification : Classification) (address : UInt32) : Access :=
  classification.words[address.toNat]?.getD .none

/-- The words of the addresses from `first` up to `stop`, if that is a range of the physical space. -/
def slice? (classification : Classification) (first stop : UInt32) : Option (List Access) :=
  if first ≤ stop ∧ stop ≤ Address.spaceEnd then
    some (classification.words.extract first.toNat stop.toNat).toList
  else none

/-- The effect of giving an address a word. -/
def Effect.between (previous current : Access) : Effect :=
  if previous = current then unchanged else changed previous current

/-- The effect of an access by the CPU. -/
def accessEffect (classification : Classification) (address : UInt32) (kind : Access) : Effect :=
  let previous := classification.get address
  if Address.isRegister address then .ignored
  else if kind.isWrite then
    if Address.isCartridge address then .ignored else .between previous kind.persistent
  else .between previous (previous.union kind.persistent)

/-- The effect of forcing a word onto an address. -/
def forceEffect (classification : Classification) (address : UInt32) (kind : Access) : Effect :=
  .between (classification.get address) kind.persistent

/-- Carries out an effect. -/
def apply (classification : Classification) (address : UInt32) : Effect → Classification
  | .changed _ current => ⟨classification.words.setIfInBounds address.toNat current⟩
  | _ => classification

/-- Forgets what is known at and above an address. -/
def clearFrom (classification : Classification) (address : UInt32) : Classification :=
  ⟨classification.words.mapIdx fun i word => if i < address.toNat then word else .none⟩

@[simp] theorem get_empty (address : UInt32) : empty.get address = .none := by
  by_cases h : address.toNat < Address.spaceSize <;> simp [get, empty, h]

/-- Forgetting leaves exactly the words below the address. -/
theorem get_clearFrom (classification : Classification) (bound address : UInt32) :
    (classification.clearFrom bound).get address = if address < bound then classification.get address else .none := by
  simp only [get, clearFrom, UInt32.lt_iff_toNat_lt]
  by_cases h : address.toNat < Address.spaceSize <;> simp [h]

end Classification

end TraceDisasm
