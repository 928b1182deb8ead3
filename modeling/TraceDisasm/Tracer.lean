import TraceDisasm.Classification
import TraceDisasm.Listing
import TraceDisasm.Memory
import TraceDisasm.Registry
import TraceDisasm.Subscriptions

/-!
# The tracer

A tracer watches one machine. The CPU reports its accesses (`observe`), an operator may overrule what follows from
them (`force`), listings are made when they are asked for (`render`), and once per tick everyone concerned is told
which banks have changed (`update`).

An operation gives the new state of the tracer, and with it what subscribers are told in the course of it. An operation
that can fail gives the new state only if it succeeds.
-/

namespace TraceDisasm

/-- The state of a tracer. -/
structure Tracer where
  config : Config
  memory : Memory
  classification : Classification
  registry : Registry
  symbols : Symbols
  subscriptions : Subscriptions

/-- What happens when banks that have changed are announced. -/
inductive Delivery
  /-- The bank is handed to whoever asked for the update. -/
  | handed (summary : Summary)
  /-- A subscription is told. -/
  | notified (notice : Notice)
  deriving DecidableEq

/-- Whether a subscription is told. -/
def Delivery.isNotice : Delivery → Bool
  | notified _ => true
  | handed _ => false

namespace Tracer

/-! ## Making a tracer -/

/-- A tracer without a cartridge. -/
def ofConfig (config : Config) : Tracer where
  config := config
  memory := .empty
  classification := .empty
  registry := .ofCartridgeEnd 0
  symbols := .empty config.labelStem
  subscriptions := .empty

/-- A tracer with the standard configuration. -/
def new : Tracer := ofConfig .standard

/-- A tracer with a configuration of its own, if that is usable. -/
def withConfig (config : Config) : Except Limit Tracer :=
  config.validate.map ofConfig

/-! ## Looking at a tracer -/

/-- What is known about an address. -/
def traceAt (tracer : Tracer) (address : UInt32) : Access := tracer.classification.get address

/-- The label of an address. -/
def labelAt (tracer : Tracer) (address : UInt32) : Option String := tracer.symbols.lookup address

/-- The bank that an address lies in. -/
def bankFor? (tracer : Tracer) (address : UInt32) : Option BankId := tracer.registry.bankFor? address

/-- The banks with the names they are shown under. -/
def pages (tracer : Tracer) : List (BankId × String) :=
  tracer.registry.banks.map fun bank => (bank.id, bank.id.title)

/-! ## Learning about addresses -/

/-- Labels an address if a word says that it is a branch target. -/
def label (symbols : Symbols) (address : UInt32) (kind : Access) : Symbols :=
  if kind.has .branchTarget then symbols.insert address else symbols

/-- Takes note of an access by the CPU. What is learned depends on the address and the kind of the access, not on the
byte; an access outside the physical space tells nothing. -/
def observe (tracer : Tracer) (address : UInt32) (kind : Access) (_value : UInt8) : Tracer :=
  if Address.spaceEnd ≤ address then tracer
  else
    match tracer.classification.accessEffect address kind with
    | .ignored => tracer
    | .unchanged => { tracer with symbols := label tracer.symbols address kind }
    | .changed previous current =>
      { tracer with
        classification := tracer.classification.apply address (.changed previous current)
        symbols := label tracer.symbols address kind
        registry := tracer.registry.invalidateAt address }

/-- Forces a word onto an address and tells the subscribers of its bank at once. Nothing happens if the address is in
no bank. -/
def force (tracer : Tracer) (address : UInt32) (kind : Access) : Option (Tracer × List Notice) :=
  match tracer.registry.covering? address with
  | none => none
  | some bank =>
    let notices := tracer.subscriptions.publish bank.summary
    let effect := tracer.classification.forceEffect address kind
    some
      ({ tracer with
        classification := tracer.classification.apply address effect
        symbols := label tracer.symbols address kind
        registry := tracer.registry.modify bank.id Bank.invalidateAnnounced },
      notices)

/-! ## Telling subscribers -/

/-- Announces every bank that has changed since the last time, in display order: first to the caller, then to the
subscribers of the bank. The number of subscriptions that are told is given as well. -/
def update (tracer : Tracer) : Tracer × List Delivery × Nat :=
  let deliveries := tracer.registry.pending.flatMap fun bank =>
    .handed bank.summary :: (tracer.subscriptions.publish bank.summary).map .notified
  let told := tracer.registry.pending.foldl
    (fun told bank => told + (tracer.subscriptions.publish bank.summary).length) 0
  ({ tracer with registry := tracer.registry.settle }, deliveries, told)

/-- Makes a subscription, whose number is given as well. -/
def subscribe (tracer : Tracer) (bank : BankId) : Tracer × Nat :=
  ({ tracer with subscriptions := tracer.subscriptions.subscribe bank }, tracer.subscriptions.next)

/-- Ends a subscription, if there is one with the number. -/
def unsubscribe (tracer : Tracer) (number : Nat) : Tracer × Bool :=
  let live := tracer.subscriptions.isLive number
  ({ tracer with subscriptions := tracer.subscriptions.unsubscribe number }, live)

/-! ## Listings -/

/-- The bytes of a bank and what is known about them. -/
def view? (tracer : Tracer) (bank : Bank) : Option View :=
  match tracer.memory.slice? bank.start bank.stop, tracer.classification.slice? bank.start bank.stop with
  | some bytes, some trace => some ⟨bank.start, bytes, trace⟩
  | _, _ => none

/-- A new listing of a bank. -/
def list (tracer : Tracer) (bank : Bank) : List Row :=
  match tracer.view? bank with
  | some view => view.rows tracer.symbols tracer.config
  | none => []

/-- The listing of a bank. It is made anew only if the last one may be out of date. -/
def render (tracer : Tracer) (id : BankId) : Except Error (Tracer × List Row) :=
  match tracer.registry.get? id with
  | none => .error (.unknownBank id.text)
  | some bank =>
    match bank.current? with
    | some rows => .ok (tracer, rows)
    | none =>
      let rows := tracer.list bank
      .ok ({ tracer with registry := tracer.registry.modify id (·.listed rows) }, rows)

/-- The listing of a bank with a written identifier. -/
def renderNamed (tracer : Tracer) (name : String) : Except Error (Tracer × List Row) :=
  BankId.ofText name >>= tracer.render

/-- The position, in the listing of a bank, of the row that covers an address. -/
def rowIndex (tracer : Tracer) (id : BankId) (address : UInt32) : Except Error (Tracer × Option Nat) :=
  (tracer.render id).map fun (tracer, rows) => (tracer, Row.indexOf? rows address)

/-- The bank and the row that hold the instruction at a program counter. -/
def rowIndexAtPc (tracer : Tracer) (pc : UInt16) (codeBank : UInt8) :
    Except Error (Tracer × Option (BankId × Nat)) :=
  let address := Address.physical pc codeBank
  match tracer.bankFor? address with
  | none => .ok (tracer, none)
  | some id => (tracer.rowIndex id address).map fun (tracer, index) => (tracer, index.map ((id, ·)))

/-! ## Cartridges -/

/-- Makes the banks of the cartridge that is in memory. What was known about RAM and cartridge is forgotten; the BIOS
stays as it is. -/
def reset (tracer : Tracer) : Tracer :=
  { tracer with
    classification := tracer.classification.clearFrom Address.ramStart
    symbols := tracer.symbols.discardFrom Address.ramStart
    registry := .ofCartridgeEnd tracer.memory.cartridgeEnd }

/-- Inserts a cartridge. -/
def insertCartridge (tracer : Tracer) (image : List UInt8) : Except Error Tracer :=
  (tracer.memory.insertCartridge image).map fun memory => { tracer with memory := memory }.reset

/-- Replaces the BIOS. What is known about its addresses stays. -/
def replaceBios (tracer : Tracer) (image : List UInt8) : Except Error Tracer :=
  (tracer.memory.replaceBios image).map fun memory =>
    { tracer with memory := memory, registry := tracer.registry.modify .bios Bank.invalidate }

/-- Removes the cartridge. -/
def eject (tracer : Tracer) : Tracer :=
  { tracer with memory := tracer.memory.eject }.reset

end Tracer

end TraceDisasm
