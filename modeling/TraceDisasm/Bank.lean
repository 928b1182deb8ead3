import TraceDisasm.BankId
import TraceDisasm.Row

/-!
# Banks

A bank is a named range of addresses that is listed as a whole. Where it starts and how it is called follow from its
identifier; where it ends also depends on the cartridge. With it goes its last listing. A bank is `dirty` when that
listing may be out of date, and `pending` when subscribers have not been told of a change.
-/

namespace TraceDisasm

/-- A bank as it is shown to users and subscribers. -/
structure Summary where
  id : BankId
  name : String
  start : UInt32
  /-- One past the last address. -/
  stop : UInt32
  deriving DecidableEq

namespace BankId

/-- The first address of a bank. -/
def start : BankId → UInt32
  | bios => 0
  | ram => Address.ramStart
  | rom page => max (Address.pageOfNumber page) Address.cartridgeStart

/-- An address with six digits. -/
def addressText (address : UInt32) : String :=
  String.ofList (Hex.atLeast .upper 6 address)

/-- The name that a bank is shown under. A ROM bank is named for its whole page, even if the cartridge ends in it. -/
def title : BankId → String
  | bios => "System BIOS (0000000h~0000FFFh)"
  | ram => "System RAM (0001000h~0001FFFh)"
  | rom page =>
    "ROM Bank " ++ page.toNat.repr ++ " (" ++ addressText (rom page).start ++ "~" ++
      addressText (Address.pageEnd (Address.pageOfNumber page)) ++ ")"

example : (rom 0).title = "ROM Bank 0 (002100~007FFF)" := by decide

end BankId

/-- A bank and its listing. -/
structure Bank where
  id : BankId
  /-- One past the last address that holds data. -/
  stop : UInt32
  dirty : Bool
  pending : Bool
  /-- The last listing. -/
  rows : Option (List Row)
  deriving DecidableEq

namespace Bank

/-- A bank that has not been listed. -/
def fresh (id : BankId) (stop : UInt32) : Bank := ⟨id, stop, true, true, none⟩

/-- The first address of a bank. -/
def start (bank : Bank) : UInt32 := bank.id.start

/-- Whether an address lies in a bank. -/
def contains (bank : Bank) (address : UInt32) : Bool :=
  bank.start ≤ address && address < bank.stop

/-- A bank as it is shown. -/
def summary (bank : Bank) : Summary := ⟨bank.id, bank.id.title, bank.start, bank.stop⟩

/-- A bank that has changed and must be listed and announced again. -/
def invalidate (bank : Bank) : Bank := { bank with dirty := true, pending := true }

/-- A bank that has changed and has been announced already. -/
def invalidateAnnounced (bank : Bank) : Bank := { bank with dirty := true, pending := false }

/-- A bank that has been announced. -/
def settle (bank : Bank) : Bank := { bank with pending := false }

/-- A bank with a new listing. -/
def listed (bank : Bank) (rows : List Row) : Bank := { bank with rows := some rows, dirty := false }

/-- The listing of a bank, unless it may be out of date. -/
def current? (bank : Bank) : Option (List Row) := if bank.dirty then none else bank.rows

end Bank

end TraceDisasm
