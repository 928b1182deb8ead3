/-!
# Errors

The causes for which a request can fail, and what is said about each. A result that was mapped or chained, and is no error,
comes from one that is none.
-/

namespace TraceDisasm

/-- Why a request failed. -/
inductive Error
  /-- No bank has this name. -/
  | unknownBank (name : String)
  /-- A cartridge without bytes. -/
  | emptyCartridge
  /-- A BIOS image of this many bytes, more than the BIOS has. -/
  | biosTooLarge (size : Nat)
  /-- No override belongs to this key. -/
  | unknownKey (key : String)
  deriving DecidableEq

/-- The text of an error. -/
def Error.message : Error → String
  | unknownBank name => "unknown bank: " ++ name
  | emptyCartridge => "cartridge image is empty"
  | biosTooLarge size => "BIOS image is " ++ size.repr ++ " bytes, expected at most 4096"
  | unknownKey key => "unknown override key: " ++ key

/-! ## Results that may be errors -/

section Results

variable {ε α β : Type} {result : Except ε α} {b : β}

/-- What a mapped result comes from. -/
theorem exists_of_map_eq_ok {f : α → β} (h : result.map f = .ok b) : ∃ a, result = .ok a ∧ f a = b := by
  cases result with
  | error error => cases h
  | ok a => exact ⟨a, rfl, Except.ok.inj h⟩

/-- What a chained result comes from. -/
theorem exists_of_bind_eq_ok {f : α → Except ε β} (h : result >>= f = .ok b) : ∃ a, result = .ok a ∧ f a = .ok b := by
  cases result with
  | error error => cases h
  | ok a => exact ⟨a, rfl, h⟩

end Results

end TraceDisasm
