import TraceDisasm.Tracer

/-!
# Sessions

Everything that can be done to a tracer as a value (`Command`), with the answer to it (`Reply`). `Tracer.run` carries
out a list of commands in order. A command that fails changes nothing, and the commands behind it are carried out all
the same.
-/

namespace TraceDisasm

/-! ## The machine's own use of memory -/

/-- What the machine does with its memory, without the tracer noticing. -/
inductive MemoryCommand
  | read (address : UInt32)
  | write (address : UInt32) (value : UInt8)
  | replaceBios (image : List UInt8)
  | insertCartridge (image : List UInt8)
  | eject
  deriving DecidableEq

/-- The answer of memory. -/
inductive MemoryReply
  | done
  | byte (value : UInt8)
  | failed (error : Error)
  deriving DecidableEq

/-- Carries out a command on memory. A write is answered with the byte that is read there afterwards. -/
def Memory.perform (memory : Memory) : MemoryCommand → Memory × MemoryReply
  | .read address => (memory, .byte (memory.read address))
  | .write address value =>
    let memory := memory.write address value
    (memory, .byte (memory.read address))
  | .replaceBios image =>
    match memory.replaceBios image with
    | .ok memory => (memory, .done)
    | .error error => (memory, .failed error)
  | .insertCartridge image =>
    match memory.insertCartridge image with
    | .ok memory => (memory, .done)
    | .error error => (memory, .failed error)
  | .eject => (memory.eject, .done)

/-! ## Commands to a tracer -/

/-- What can be done to a tracer. -/
inductive Command
  | observe (address : UInt32) (kind : Access) (value : UInt8)
  | force (address : UInt32) (kind : Access)
  | override (address : UInt32) (as : Override)
  | update
  | render (bank : BankId)
  | renderNamed (name : String)
  | rowIndex (bank : BankId) (address : UInt32)
  | rowIndexAtPc (pc : UInt16) (codeBank : UInt8)
  | subscribe (bank : BankId)
  | unsubscribe (number : Nat)
  | reset
  | insertCartridge (image : List UInt8)
  | replaceBios (image : List UInt8)
  | eject
  | memory (command : MemoryCommand)
  deriving DecidableEq

/-- The answer to a command. -/
inductive Reply
  | done
  /-- Whether there was something to do. -/
  | found (answer : Bool)
  /-- The number of subscriptions that have been told. -/
  | told (count : Nat)
  /-- The number of a subscription. -/
  | subscribed (number : Nat)
  | listing (rows : List Row)
  | row (index : Option Nat)
  | place (bankAndRow : Option (BankId × Nat))
  | memory (reply : MemoryReply)
  | failed (error : Error)
  deriving DecidableEq

/-- What is heard of a command. -/
structure Answer where
  reply : Reply
  /-- What is announced in the course of the command, in order. -/
  deliveries : List Delivery
  deriving DecidableEq

/-- The answer to a command in the course of which nothing is announced. -/
def Answer.quiet (reply : Reply) : Answer := ⟨reply, []⟩

namespace Tracer

/-- What follows from a command that may fail and announces nothing. -/
def settled {α : Type} (tracer : Tracer) (result : Except Error (Tracer × α)) (reply : α → Reply) :
    Tracer × Answer :=
  match result with
  | .ok (tracer, answer) => (tracer, .quiet (reply answer))
  | .error error => (tracer, .quiet (.failed error))

/-- What follows from forcing a word onto an address. -/
def forced (tracer : Tracer) (address : UInt32) (kind : Access) : Tracer × Answer :=
  match tracer.force address kind with
  | some (tracer, notices) => (tracer, ⟨.found true, notices.map .notified⟩)
  | none => (tracer, .quiet (.found false))

/-- Carries out a command. -/
def perform (tracer : Tracer) : Command → Tracer × Answer
  | .observe address kind value => (tracer.observe address kind value, .quiet .done)
  | .force address kind => tracer.forced address kind
  | .override address as => tracer.forced address as.access
  | .update =>
    let (tracer, deliveries, told) := tracer.update
    (tracer, ⟨.told told, deliveries⟩)
  | .render bank => tracer.settled (tracer.render bank) .listing
  | .renderNamed name => tracer.settled (tracer.renderNamed name) .listing
  | .rowIndex bank address => tracer.settled (tracer.rowIndex bank address) .row
  | .rowIndexAtPc pc codeBank => tracer.settled (tracer.rowIndexAtPc pc codeBank) .place
  | .subscribe bank =>
    let (tracer, number) := tracer.subscribe bank
    (tracer, .quiet (.subscribed number))
  | .unsubscribe number =>
    let (tracer, found) := tracer.unsubscribe number
    (tracer, .quiet (.found found))
  | .reset => (tracer.reset, .quiet .done)
  | .insertCartridge image => tracer.settled ((tracer.insertCartridge image).map ((·, ()))) fun _ => .done
  | .replaceBios image => tracer.settled ((tracer.replaceBios image).map ((·, ()))) fun _ => .done
  | .eject => (tracer.eject, .quiet .done)
  | .memory command =>
    let (memory, reply) := tracer.memory.perform command
    ({ tracer with memory := memory }, .quiet (.memory reply))

/-- Carries out commands in order. -/
def run (tracer : Tracer) : List Command → Tracer × List Answer
  | [] => (tracer, [])
  | command :: commands =>
    let (next, answer) := tracer.perform command
    let (final, answers) := next.run commands
    (final, answer :: answers)

end Tracer

end TraceDisasm
