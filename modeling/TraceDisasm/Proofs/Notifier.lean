import TraceDisasm.Proofs.Partition
import TraceDisasm.Proofs.RegistrationLog

/-!
# Subscriptions by bank

Subscriptions can also be kept apart by bank, in lists that are sorted by the bank (`Notifier`). A number is then looked for
in one list after the other and taken out of the first that has it, and what is published goes to one list.

This comes to the same as one log (`Notifier.Keeps`): the list of a bank is what the log holds for it, in the same order, as
long as the numbers do not run out. One request keeps the relation and is answered alike (`Notifier.Keeps.perform`), and so
are all requests in a row (`Notifier.Keeps.serve`). An update that goes through the banks once and settles them on the way
tells the same in the same order, and counts as many (`Notifier.Keeps.announce`, `Tracer.told_update`).
-/

namespace TraceDisasm

theorem BankId.rank_injective : Function.Injective BankId.rank := by
  intro id other h
  cases id <;> cases other <;> simp only [BankId.rank] at h
  case rom.rom page page' => rw [UInt8.toNat_inj.1 (Nat.add_left_cancel h)]
  case bios.bios | ram.ram => rfl
  all_goals omega

/-- The numbers of the subscriptions to each bank, oldest first, sorted by bank. -/
abbrev NumbersByBank := List (BankId × List UInt64)

namespace NumbersByBank

/-- The numbers of the subscriptions to a bank. -/
def numbers (lists : NumbersByBank) (bank : BankId) : List UInt64 := (lists.lookup bank).getD []

/-- Puts a number behind those of a bank. -/
def push (bank : BankId) (number : UInt64) : NumbersByBank → NumbersByBank
  | [] => [(bank, [number])]
  | (other, numbers) :: lists =>
    if bank = other then (other, numbers ++ [number]) :: lists
    else if bank.rank < other.rank then (bank, [number]) :: (other, numbers) :: lists
    else (other, numbers) :: push bank number lists

/-- Takes a number out of the first list that has it, if one has. -/
def remove (number : Nat) : NumbersByBank → Option NumbersByBank
  | [] => none
  | (bank, numbers) :: lists =>
    if numbers.any (·.toNat == number) then some ((bank, numbers.eraseP (·.toNat == number)) :: lists)
    else (remove number lists).map ((bank, numbers) :: ·)

/-- Each bank has one list, and they are sorted by bank. -/
def Sorted (lists : NumbersByBank) : Prop := lists.Pairwise fun entry other => entry.1.rank < other.1.rank

variable {lists : NumbersByBank} {bank other : BankId} {number : Nat}

@[simp] theorem numbers_cons (entry : BankId × List UInt64) (lists : NumbersByBank) (bank : BankId) :
    numbers (entry :: lists) bank = if bank = entry.1 then entry.2 else numbers lists bank := by
  rw [numbers, List.lookup_cons]
  split <;> simp_all [numbers]

/-- A bank whose list would stand in front of all others has none. -/
theorem numbers_eq_nil (h : ∀ entry ∈ lists, bank.rank < entry.1.rank) : numbers lists bank = [] := by
  induction lists with
  | nil => rfl
  | cons entry lists ih =>
    obtain ⟨hfirst, hrest⟩ := List.forall_mem_cons.1 h
    have hne : bank ≠ entry.1 := fun hsame => Nat.lt_irrefl _ (hsame ▸ hfirst)
    rw [numbers_cons, if_neg hne, ih hrest]

/-! ## A new number -/

/-- A list is added for the bank of the number, if there is none yet, and for no other bank. -/
theorem forall_mem_push {P : BankId → Prop} (hbank : P bank) (hlists : ∀ entry ∈ lists, P entry.1) (given : UInt64) :
    ∀ entry ∈ push bank given lists, P entry.1 := by
  induction lists with
  | nil => exact List.forall_mem_singleton.2 hbank
  | cons first lists ih =>
    obtain ⟨hfirst, hrest⟩ := List.forall_mem_cons.1 hlists
    rw [push]
    split_ifs
    · exact List.forall_mem_cons.2 ⟨hfirst, hrest⟩
    · exact List.forall_mem_cons.2 ⟨hbank, hlists⟩
    · exact List.forall_mem_cons.2 ⟨hfirst, ih hrest⟩

theorem Sorted.push (sorted : Sorted lists) (bank : BankId) (given : UInt64) :
    Sorted (NumbersByBank.push bank given lists) := by
  induction lists with
  | nil => exact List.pairwise_singleton _ _
  | cons first lists ih =>
    obtain ⟨hfirst, hrest⟩ := List.pairwise_cons.1 sorted
    rw [NumbersByBank.push]
    split_ifs with hsame hbefore
    · exact List.pairwise_cons.2 ⟨hfirst, hrest⟩
    · refine List.pairwise_cons.2 ⟨List.forall_mem_cons.2 ⟨hbefore, fun entry hentry => ?_⟩, sorted⟩
      exact Nat.lt_trans hbefore (hfirst entry hentry)
    · have hbehind : first.1.rank < bank.rank :=
        Nat.lt_of_le_of_ne (Nat.le_of_not_lt hbefore) fun hrank => hsame (BankId.rank_injective hrank).symm
      exact List.pairwise_cons.2 ⟨forall_mem_push (P := fun id => first.1.rank < id.rank) hbehind hfirst given, ih hrest⟩

theorem Sorted.numbers_push (sorted : Sorted lists) (bank other : BankId) (given : UInt64) :
    numbers (NumbersByBank.push bank given lists) other =
      if other = bank then numbers lists bank ++ [given] else numbers lists other := by
  induction lists with
  | nil => rw [NumbersByBank.push, numbers_cons]; rfl
  | cons first lists ih =>
    obtain ⟨hfirst, hrest⟩ := List.pairwise_cons.1 sorted
    rw [NumbersByBank.push]
    by_cases hsame : bank = first.1
    · rw [if_pos hsame, hsame]
      simp only [numbers_cons, if_pos]
      split <;> rfl
    rw [if_neg hsame]
    by_cases hbefore : bank.rank < first.1.rank
    · have hnone : numbers (first :: lists) bank = [] :=
        numbers_eq_nil (List.forall_mem_cons.2 ⟨hbefore, fun entry hentry => Nat.lt_trans hbefore (hfirst entry hentry)⟩)
      rw [if_pos hbefore, numbers_cons, hnone]
      rfl
    · rw [if_neg hbefore, numbers_cons, ih hrest, numbers_cons, numbers_cons, if_neg hsame]
      by_cases hother : other = first.1
      · rw [if_pos hother, if_pos hother, if_neg fun hbank => hsame (hbank.symm.trans hother)]
      · rw [if_neg hother, if_neg hother]

/-! ## A number less -/

theorem mem_of_mem_numbers {given : UInt64} (h : given ∈ numbers lists bank) : ∃ entry ∈ lists, given ∈ entry.2 := by
  induction lists with
  | nil => cases h
  | cons first lists ih =>
    rw [numbers_cons] at h
    split at h
    · exact ⟨first, List.mem_cons_self, h⟩
    · obtain ⟨entry, hentry, hgiven⟩ := ih h
      exact ⟨entry, List.mem_cons_of_mem _ hentry, hgiven⟩

theorem Sorted.numbers_of_mem (sorted : Sorted lists) {entry : BankId × List UInt64} (h : entry ∈ lists) :
    numbers lists entry.1 = entry.2 := by
  induction lists with
  | nil => cases h
  | cons first lists ih =>
    obtain ⟨hfirst, hrest⟩ := List.pairwise_cons.1 sorted
    rw [numbers_cons]
    rcases List.mem_cons.1 h with rfl | hentry
    · exact if_pos rfl
    · have hne : entry.1 ≠ first.1 := fun hsame => Nat.lt_irrefl _ (hsame ▸ hfirst entry hentry)
      rw [if_neg hne, ih hrest hentry]

theorem remove_isSome_iff : (remove number lists).isSome = true ↔ ∃ entry ∈ lists, number ∈ entry.2.map UInt64.toNat := by
  induction lists with
  | nil => simp [remove]
  | cons first lists ih =>
    rw [remove, List.exists_mem_cons_iff, ← ih]
    split <;> simp_all

/-- What is left if no other list has the number that is taken out. -/
theorem numbers_remove (hnodup : ∀ entry ∈ lists, (entry.2.map UInt64.toNat).Nodup)
    (hone : lists.Pairwise fun entry other => number ∈ entry.2.map UInt64.toNat → number ∉ other.2.map UInt64.toNat)
    (bank : BankId) :
    numbers ((remove number lists).getD lists) bank = (numbers lists bank).filter fun given => given.toNat ≠ number := by
  induction lists with
  | nil => rfl
  | cons first lists ih =>
    obtain ⟨hfirst, hrest⟩ := List.forall_mem_cons.1 hnodup
    obtain ⟨hothers, hone⟩ := List.pairwise_cons.1 hone
    have hfilter {numbers : List UInt64} (h : number ∉ numbers.map UInt64.toNat) :
        (numbers.filter fun given => given.toNat ≠ number) = numbers :=
      List.filter_eq_self.2 fun given hgiven => by simpa using fun hsame => h (List.mem_map.2 ⟨given, hgiven, hsame⟩)
    rw [remove]
    by_cases hin : number ∈ first.2.map UInt64.toNat
    · rw [if_pos (by simpa using hin), Option.getD_some, numbers_cons, numbers_cons]
      split
      · exact Subscriptions.eraseP_eq_filter UInt64.toNat number hfirst
      · refine (hfilter fun hmem => ?_).symm
        obtain ⟨given, hgiven, hsame⟩ := List.mem_map.1 hmem
        obtain ⟨entry, hentry, hgiven⟩ := mem_of_mem_numbers hgiven
        exact hothers entry hentry hin (List.mem_map.2 ⟨given, hgiven, hsame⟩)
    · have hmap : ((remove number lists).map (first :: ·)).getD (first :: lists) =
          first :: (remove number lists).getD lists := by
        cases remove number lists <;> rfl
      rw [if_neg (by simpa using hin), hmap, numbers_cons, numbers_cons]
      split
      · exact (hfilter hin).symm
      · exact ih hrest hone

theorem Sorted.remove (sorted : Sorted lists) (number : Nat) : Sorted ((NumbersByBank.remove number lists).getD lists) := by
  have hkeys (lists : NumbersByBank) :
      ((NumbersByBank.remove number lists).getD lists).map Prod.fst = lists.map Prod.fst := by
    induction lists with
    | nil => rfl
    | cons first lists ih =>
      rw [NumbersByBank.remove]
      split
      · rfl
      · cases hremove : NumbersByBank.remove number lists with
        | none => rfl
        | some left =>
          rw [hremove] at ih
          exact congrArg (first.1 :: ·) ih
  rw [Sorted, ← List.pairwise_map (R := fun id other : BankId => id.rank < other.rank)] at sorted ⊢
  rwa [hkeys]

end NumbersByBank

/-! ## The notifier -/

open Subscriptions (Request Response)

/-- Subscriptions that are kept apart by bank. -/
structure Notifier where
  /-- The number of the next subscription. -/
  next : UInt64
  lists : NumbersByBank

namespace Notifier

/-- A notifier without subscriptions. -/
def new : Notifier := ⟨0, []⟩

/-- Makes a subscription; its number is `next`. -/
def subscribe (notifier : Notifier) (bank : BankId) : Notifier :=
  ⟨notifier.next + 1, notifier.lists.push bank notifier.next⟩

/-- Ends a subscription, if there is one with the number. -/
def unsubscribe (notifier : Notifier) (number : Nat) : Notifier × Bool :=
  match notifier.lists.remove number with
  | some lists => ({ notifier with lists := lists }, true)
  | none => (notifier, false)

/-- Number of subscriptions to a bank. -/
def count (notifier : Notifier) (bank : BankId) : Nat := (notifier.lists.numbers bank).length

/-- What the subscriptions to a bank are told about it, and how many they are. -/
def publish (notifier : Notifier) (summary : Summary) : List Notice × Nat :=
  let numbers := notifier.lists.numbers summary.id
  (numbers.map fun number => ⟨number.toNat, summary⟩, numbers.length)

/-- Carries out a request. -/
def perform (notifier : Notifier) : Request → Notifier × Response
  | .subscribe bank => (notifier.subscribe bank, .subscribed notifier.next.toNat)
  | .unsubscribe number =>
    let (notifier, found) := notifier.unsubscribe number
    (notifier, .ended found)
  | .publish summary =>
    let (notices, count) := notifier.publish summary
    (notifier, .published notices count)
  | .count bank => (notifier, .counted (notifier.count bank))

/-- Announces the banks that have changed, one after the other, and settles them. The number of subscriptions that are told
is given as well. -/
def announce (notifier : Notifier) : List Bank → List Bank × List Delivery × Nat
  | [] => ([], [], 0)
  | bank :: banks =>
    if bank.pending then
      let (notices, count) := notifier.publish bank.summary
      let (settled, deliveries, told) := notifier.announce banks
      (bank.settle :: settled, .handed bank.summary :: notices.map .notified ++ deliveries, count + told)
    else
      let (settled, deliveries, told) := notifier.announce banks
      (bank :: settled, deliveries, told)

/-- The list of each bank is what the log of all subscriptions holds for it. -/
structure Keeps (notifier : Notifier) (subscriptions : Subscriptions) : Prop where
  next : notifier.next.toNat = subscriptions.next
  sorted : notifier.lists.Sorted
  numbers : ∀ bank, (notifier.lists.numbers bank).map UInt64.toNat =
    (subscriptions.live.filter fun subscription => subscription.bank == bank).map Subscription.number

variable {notifier : Notifier} {subscriptions : Subscriptions} {number : Nat} {bank : BankId}

theorem keeps_new : Keeps new .empty := ⟨rfl, List.Pairwise.nil, fun _ => rfl⟩

theorem Keeps.mem_numbers_iff (keeps : Keeps notifier subscriptions) :
    number ∈ (notifier.lists.numbers bank).map UInt64.toNat ↔ subscriptions.Live number bank := by
  rw [keeps.numbers, List.mem_map]
  constructor
  · rintro ⟨subscription, hmem, rfl⟩
    obtain ⟨hlive, hbank⟩ := List.mem_filter.1 hmem
    obtain rfl := eq_of_beq hbank
    exact hlive
  · intro hlive
    exact ⟨_, List.mem_filter.2 ⟨hlive, beq_self_eq_true bank⟩, rfl⟩

theorem Keeps.mem_entry_iff (keeps : Keeps notifier subscriptions) {entry : BankId × List UInt64}
    (h : entry ∈ notifier.lists) : number ∈ entry.2.map UInt64.toNat ↔ subscriptions.Live number entry.1 := by
  rw [← keeps.mem_numbers_iff, keeps.sorted.numbers_of_mem h]

/-- A number is found just if there is a subscription with it. -/
theorem Keeps.remove_isSome (keeps : Keeps notifier subscriptions) (number : Nat) :
    (notifier.lists.remove number).isSome = subscriptions.isLive number := by
  rw [Bool.eq_iff_iff, NumbersByBank.remove_isSome_iff, Subscriptions.isLive_eq, decide_eq_true_iff, List.mem_map]
  constructor
  · rintro ⟨entry, hentry, hnumber⟩
    exact ⟨_, (keeps.mem_entry_iff hentry).1 hnumber, rfl⟩
  · rintro ⟨subscription, hlive, rfl⟩
    obtain ⟨given, hgiven, hsame⟩ := List.mem_map.1 (keeps.mem_numbers_iff.2 hlive)
    obtain ⟨entry, hentry, hgiven⟩ := NumbersByBank.mem_of_mem_numbers hgiven
    exact ⟨entry, hentry, List.mem_map.2 ⟨given, hgiven, hsame⟩⟩

theorem Keeps.publish (keeps : Keeps notifier subscriptions) (summary : Summary) :
    notifier.publish summary = (subscriptions.publish summary, (subscriptions.publish summary).length) := by
  have hnotices : (notifier.lists.numbers summary.id).map (fun number => (⟨number.toNat, summary⟩ : Notice)) =
      subscriptions.publish summary := by
    have hnumbers := congrArg (List.map fun number => (⟨number, summary⟩ : Notice)) (keeps.numbers summary.id)
    rwa [List.map_map, List.map_map] at hnumbers
  rw [← hnotices, List.length_map]
  rfl

theorem Keeps.count (keeps : Keeps notifier subscriptions) (bank : BankId) :
    notifier.count bank = subscriptions.count bank := by
  rw [Notifier.count, Subscriptions.count, List.countP_eq_length_filter, ← List.length_map (f := UInt64.toNat), keeps.numbers,
    List.length_map]

theorem Keeps.subscribe (keeps : Keeps notifier subscriptions) (bank : BankId) (hroom : subscriptions.next + 1 < 2 ^ 64) :
    Keeps (notifier.subscribe bank) (subscriptions.subscribe bank) where
  next := by
    rw [Notifier.subscribe, UInt64.toNat_add, keeps.next]
    exact Nat.mod_eq_of_lt hroom
  sorted := keeps.sorted.push bank notifier.next
  numbers other := by
    rw [Notifier.subscribe, keeps.sorted.numbers_push, Subscriptions.subscribe, List.filter_append, List.map_append,
      ← keeps.numbers other]
    split
    · next hsame => simp [hsame, keeps.next]
    · next hother => simp [Ne.symm hother]

theorem Keeps.unsubscribe (keeps : Keeps notifier subscriptions) (numbered : subscriptions.Numbered) (number : Nat) :
    (notifier.unsubscribe number).2 = subscriptions.isLive number ∧
      Keeps (notifier.unsubscribe number).1 (subscriptions.unsubscribe number) := by
  have hremove : notifier.unsubscribe number =
      (⟨notifier.next, (notifier.lists.remove number).getD notifier.lists⟩, (notifier.lists.remove number).isSome) := by
    rw [Notifier.unsubscribe]
    split <;> simp [*]
  have hnodup : ∀ entry ∈ notifier.lists, (entry.2.map UInt64.toNat).Nodup := fun entry hentry => by
    rw [← keeps.sorted.numbers_of_mem hentry, keeps.numbers]
    exact numbered.nodup.sublist (List.filter_sublist.map Subscription.number)
  -- no two subscriptions have one number, so no two lists have it
  have hone : notifier.lists.Pairwise fun entry other =>
      number ∈ entry.2.map UInt64.toNat → number ∉ other.2.map UInt64.toNat := by
    refine List.Pairwise.imp_of_mem (fun {entry other} hentry hother hbefore hin hin' => ?_) keeps.sorted
    have hsame := numbered.live_unique ((keeps.mem_entry_iff hentry).1 hin) ((keeps.mem_entry_iff hother).1 hin')
    exact Nat.lt_irrefl _ (hsame ▸ hbefore)
  rw [hremove]
  refine ⟨keeps.remove_isSome number, keeps.next, keeps.sorted.remove number, fun bank => ?_⟩
  have hnumbers := congrArg (List.filter fun other => other ≠ number) (keeps.numbers bank)
  rw [List.filter_map, List.filter_map] at hnumbers
  rw [NumbersByBank.numbers_remove hnodup hone, numbered.live_unsubscribe, List.filter_comm]
  exact hnumbers

/-- **One request.** -/
theorem Keeps.perform (keeps : Keeps notifier subscriptions) (numbered : subscriptions.Numbered) (request : Request)
    (hroom : request.subscribes = true → subscriptions.next + 1 < 2 ^ 64) :
    (notifier.perform request).2 = (subscriptions.perform request).2 ∧
      Keeps (notifier.perform request).1 (subscriptions.perform request).1 := by
  cases request with
  | subscribe bank => exact ⟨congrArg Response.subscribed keeps.next, keeps.subscribe bank (hroom rfl)⟩
  | unsubscribe number =>
    obtain ⟨hanswer, hkeeps⟩ := keeps.unsubscribe numbered number
    exact ⟨congrArg Response.ended hanswer, hkeeps⟩
  | publish summary =>
    refine ⟨?_, keeps⟩
    rw [Notifier.perform, keeps.publish]
    rfl
  | count bank => exact ⟨congrArg Response.counted (keeps.count bank), keeps⟩

/-- **Requests in a row.** The numbers must not run out. -/
theorem Keeps.serve (keeps : Keeps notifier subscriptions) (numbered : subscriptions.Numbered) (requests : List Request)
    (hroom : subscriptions.next + requests.countP Request.subscribes < 2 ^ 64) :
    (Subscriptions.serve Notifier.perform notifier requests).2 =
        (Subscriptions.serve Subscriptions.perform subscriptions requests).2 ∧
      Keeps (Subscriptions.serve Notifier.perform notifier requests).1
        (Subscriptions.serve Subscriptions.perform subscriptions requests).1 := by
  induction requests generalizing notifier subscriptions with
  | nil => exact ⟨rfl, keeps⟩
  | cons request requests ih =>
    rw [List.countP_cons] at hroom
    obtain ⟨hanswer, hkeeps⟩ := keeps.perform numbered request fun hsubscribes => by
      rw [if_pos hsubscribes] at hroom
      omega
    have hnext : (subscriptions.perform request).1.Numbered ∧ (subscriptions.perform request).1.next =
        subscriptions.next + if request.subscribes = true then 1 else 0 := by
      cases request with
      | subscribe bank => exact ⟨numbered.subscribe bank, rfl⟩
      | unsubscribe number => exact ⟨numbered.unsubscribe number, rfl⟩
      | publish _ | count _ => exact ⟨numbered, rfl⟩
    obtain ⟨hanswers, hfinal⟩ := ih hkeeps hnext.1 (by omega)
    exact ⟨congrArg₂ (fun answer answers => (request, answer) :: answers) hanswer hanswers, hfinal⟩

/-- An update that goes through the banks once. -/
theorem Keeps.announce (keeps : Keeps notifier subscriptions) (banks : List Bank) :
    notifier.announce banks =
      (banks.map Bank.settle,
        (banks.filter Bank.pending).flatMap fun bank =>
          .handed bank.summary :: (subscriptions.publish bank.summary).map .notified,
        ((banks.filter Bank.pending).flatMap fun bank => subscriptions.publish bank.summary).length) := by
  induction banks with
  | nil => rfl
  | cons bank banks ih =>
    rw [Notifier.announce]
    by_cases hpending : bank.pending = true
    · rw [if_pos hpending, List.filter_cons_of_pos hpending, keeps.publish, ih, List.flatMap_cons, List.flatMap_cons,
        List.length_append]
      rfl
    · have hsettled : bank.settle = bank := by
        rw [Bank.settle, ← Bool.eq_false_of_not_eq_true hpending]
      rw [if_neg hpending, List.filter_cons_of_neg hpending, ih, List.map_cons, hsettled]

end Notifier

/-! ## Updates -/

/-- The banks stand in display order. -/
theorem Registry.Arranged.rank_pairwise {registry : Registry} (h : registry.Arranged) :
    (registry.banks.map fun bank => bank.id.rank).Pairwise (· < ·) := by
  have hplace (i : Nat) (hi : i < registry.banks.length) : registry.banks[i].id.rank = i := by
    have hfound := h.getElem?_rank_iff.2 ⟨List.getElem_mem hi, rfl⟩
    rw [← List.getElem?_eq_getElem hi] at hfound
    exact ((List.getElem?_inj hi h.nodup.of_map).1 hfound.symm).symm
  rw [List.pairwise_iff_getElem]
  intro i j hi hj hij
  rw [List.length_map] at hi hj
  rwa [List.getElem_map, List.getElem_map, hplace i hi, hplace j hj]

namespace Tracer

/-- What an update does while a log tells which subscriptions there are. -/
structure UpdatesFrom (s : Tracer) (log : List Subscription) : Prop where
  /-- The banks that are pending are visited in display order. -/
  visited : (s.registry.pending.map fun bank => bank.id.rank).Pairwise (· < ·)
  /-- A bank is handed over first. Then its subscriptions are told, in the order in which they were made. -/
  deliveries : s.update.2.1 = s.registry.pending.flatMap fun bank => .handed bank.summary ::
    (log.filter fun subscription => subscription.bank = bank.id).map fun subscription =>
      .notified ⟨subscription.number, bank.summary⟩
  counted : s.update.2.2 = s.update.2.1.countP Delivery.isNotice
  settled : ∀ bank ∈ s.update.1.registry.banks, bank.pending = false
  /-- Otherwise the banks stay as they are, and with them their listings. -/
  kept : s.update.1.registry.banks.map (fun bank => (bank.extent, bank.dirty, bank.rows)) =
    s.registry.banks.map fun bank => (bank.extent, bank.dirty, bank.rows)
  rest : s.update.1 = { s with registry := s.update.1.registry }

variable {s : Tracer}

/-- The subscriptions that are told while the banks are visited, counted one bank after the other. -/
theorem foldl_publish (subscriptions : Subscriptions) (banks : List Bank) (told : Nat) :
    banks.foldl (fun told bank => told + (subscriptions.publish bank.summary).length) told =
      told + (banks.flatMap fun bank => subscriptions.publish bank.summary).length := by
  induction banks generalizing told with
  | nil => rfl
  | cons bank banks ih => rw [List.foldl_cons, ih, List.flatMap_cons, List.length_append, Nat.add_assoc]

/-- An update tells as many subscriptions as the pending banks have. -/
theorem told_update (s : Tracer) : s.update.2.2 =
    (s.registry.pending.flatMap fun bank => s.subscriptions.publish bank.summary).length := by
  rw [update, foldl_publish, Nat.zero_add]

/-- All subscriptions that an update tells are counted. -/
theorem countP_isNotice_update (s : Tracer) : s.update.2.1.countP Delivery.isNotice = s.update.2.2 := by
  have hbank (summary : Summary) (notices : List Notice) :
      (Delivery.handed summary :: notices.map .notified).countP Delivery.isNotice = notices.length := by
    rw [List.countP_cons_of_neg Bool.false_ne_true, List.countP_map]
    exact List.countP_eq_length.2 fun _ _ => rfl
  rw [told_update]
  simp only [update, List.countP_flatMap, List.length_flatMap, Function.comp_def, hbank]

theorem updatesFrom_live (arranged : s.registry.Arranged) : s.UpdatesFrom s.subscriptions.live where
  visited := arranged.rank_pairwise.sublist (List.filter_sublist.map fun bank : Bank => bank.id.rank)
  deliveries := by
    simp only [update, Subscriptions.publish, List.map_map]
    rfl
  counted := s.countP_isNotice_update.symm
  settled bank hmem := by
    obtain ⟨old, -, rfl⟩ := List.mem_map.1 hmem
    rfl
  kept := List.map_map
  rest := rfl

end Tracer

namespace Notifier

open Subscriptions (FollowsLog log serve)

/-- **Subscriptions behave as one log.** As long as fewer than 2^64 subscriptions are made, keeping them apart by bank makes
no difference: what is said to each request follows from the log of those that have been made and not ended. In every state
of a tracer an update then visits the pending banks in display order. It hands over each and tells the subscriptions that the
log holds for it; it counts those that are told, and settles the banks, and nothing else. -/
theorem keeps_one_log :
    (∀ requests : List Request, requests.countP Request.subscribes < 2 ^ 64 →
      (serve Notifier.perform new requests).2 = (serve Subscriptions.perform .empty requests).2 ∧
        FollowsLog (serve Notifier.perform new requests).2) ∧
    ∀ start, Tracer.Made start → ∀ commands : List Command,
      (start.run commands).1.UpdatesFrom (log (start.history commands)) ∧
        ((commands.filterMap Command.request?).countP Request.subscribes < 2 ^ 64 →
          (serve Notifier.perform new (commands.filterMap Command.request?)).1.announce (start.run commands).1.registry.banks =
            ((start.run commands).1.update.1.registry.banks, (start.run commands).1.update.2)) := by
  have hserve (requests : List Request) (hroom : requests.countP Request.subscribes < 2 ^ 64) :=
    keeps_new.serve Subscriptions.numbered_empty requests (by rwa [Subscriptions.empty, Nat.zero_add])
  refine ⟨fun requests hroom => ?_, fun start made commands => ⟨?_, fun hroom => ?_⟩⟩
  · obtain ⟨hanswers, -⟩ := hserve requests hroom
    refine ⟨hanswers, ?_⟩
    rw [hanswers]
    exact Subscriptions.followsLog_serve requests
  all_goals
    obtain ⟨config, rfl⟩ := made.exists_config
    have hrun := (Tracer.ofConfig config).serve_run commands
  · obtain ⟨-, records⟩ := Subscriptions.records_empty.serve (commands.filterMap Command.request?)
    have hlive : ((Tracer.ofConfig config).run commands).1.subscriptions.live =
        log ((Tracer.ofConfig config).history commands) := by
      have hlog := records.live
      rwa [List.nil_append, show Subscriptions.empty = (Tracer.ofConfig config).subscriptions from rfl, hrun] at hlog
    rw [← hlive]
    exact Tracer.updatesFrom_live (made.sound_run commands).arranged
  · obtain ⟨-, hkeeps⟩ := hserve _ hroom
    rw [show Subscriptions.empty = (Tracer.ofConfig config).subscriptions from rfl, hrun] at hkeeps
    rw [hkeeps.announce]
    exact Prod.ext rfl (Prod.ext rfl (Tracer.told_update _).symm)

/-- Two banks are subscribed to, one of them twice, and the first subscription is ended. -/
def twoBanks : List Command := [.subscribe .ram, .subscribe .bios, .subscribe .ram, .unsubscribe 0]

theorem keeps_one_log_twoBanks :
    (twoBanks.filterMap Command.request?).countP Request.subscribes < 2 ^ 64 ∧
      FollowsLog (serve Notifier.perform new (twoBanks.filterMap Command.request?)).2 ∧ Tracer.Made .new ∧
        log (Tracer.new.history twoBanks) = [⟨1, .bios⟩, ⟨2, .ram⟩] ∧
          (Tracer.new.run twoBanks).1.UpdatesFrom [⟨1, .bios⟩, ⟨2, .ram⟩] ∧
            ((serve Notifier.perform new (twoBanks.filterMap Command.request?)).1.announce
              (Tracer.new.run twoBanks).1.registry.banks).2.2 = 2 := by
  have hroom : (twoBanks.filterMap Command.request?).countP Request.subscribes < 2 ^ 64 := by decide
  have hlog : log (Tracer.new.history twoBanks) = [⟨1, .bios⟩, ⟨2, .ram⟩] := by rfl
  obtain ⟨hupdates, hannounce⟩ := keeps_one_log.2 _ .new twoBanks
  rw [hlog] at hupdates
  refine ⟨hroom, (keeps_one_log.1 _ hroom).2, .new, hlog, hupdates, ?_⟩
  rw [hannounce hroom]
  rfl

end Notifier

end TraceDisasm
