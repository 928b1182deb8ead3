import TraceDisasm.Bank

/-!
# Subscriptions

Who wants to be told about which bank. Subscriptions are numbered in the order in which they are made, and no number
is used twice. What is published about a bank reaches its subscriptions in that order.
-/

namespace TraceDisasm

/-- A wish to be told about a bank. -/
structure Subscription where
  number : Nat
  bank : BankId
  deriving DecidableEq

/-- What a subscription is told. -/
structure Notice where
  subscription : Nat
  summary : Summary
  deriving DecidableEq

/-- The subscriptions that have been made and not ended, oldest first. -/
structure Subscriptions where
  /-- The number of the next subscription. -/
  next : Nat
  live : List Subscription
  deriving DecidableEq

namespace Subscriptions

/-- No subscriptions. -/
def empty : Subscriptions := ⟨0, []⟩

/-- Makes a subscription; its number is `next`. -/
def subscribe (subscriptions : Subscriptions) (bank : BankId) : Subscriptions :=
  ⟨subscriptions.next + 1, subscriptions.live ++ [⟨subscriptions.next, bank⟩]⟩

/-- Whether a subscription has been made and not ended. -/
def isLive (subscriptions : Subscriptions) (number : Nat) : Bool :=
  subscriptions.live.any fun subscription => subscription.number == number

/-- Ends a subscription. -/
def unsubscribe (subscriptions : Subscriptions) (number : Nat) : Subscriptions :=
  { subscriptions with live := subscriptions.live.eraseP fun subscription => subscription.number == number }

/-- Number of subscriptions to a bank. -/
def count (subscriptions : Subscriptions) (bank : BankId) : Nat :=
  subscriptions.live.countP fun subscription => subscription.bank == bank

/-- What the subscriptions to a bank are told about it. -/
def publish (subscriptions : Subscriptions) (summary : Summary) : List Notice :=
  (subscriptions.live.filter fun subscription => subscription.bank == summary.id).map
    fun subscription => ⟨subscription.number, summary⟩

end Subscriptions

end TraceDisasm
