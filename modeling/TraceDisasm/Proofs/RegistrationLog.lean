import TraceDisasm.Proofs.CartridgeSwap

/-!
# Subscriptions as one log

What has been asked of subscriptions, and what was said to it, is kept as a list of exchanges. It tells which subscriptions
have been made, in order, and which of them have been ended since; the others are the log (`Subscriptions.log`). Everything
that is said to a later request follows from the log (`Subscriptions.Fits`), and each request changes it by one entry at most.

One request after the other, the live subscriptions are those of the log (`Subscriptions.Records.perform`), so this holds of all
requests in a row (`Subscriptions.Records.serve`). A run of a tracer asks its subscriptions no other way
(`Tracer.serve_run`).
-/

namespace TraceDisasm

namespace Subscriptions

/-! ## Requests -/

/-- What can be asked of subscriptions. -/
inductive Request
  | subscribe (bank : BankId)
  | unsubscribe (number : Nat)
  | publish (summary : Summary)
  | count (bank : BankId)
  deriving DecidableEq

/-- What is said to a request. -/
inductive Response
  /-- The number of the new subscription. -/
  | subscribed (number : Nat)
  /-- Whether there was a subscription to end. -/
  | ended (answer : Bool)
  /-- What was told, in order, and how many subscriptions it was told to. -/
  | published (notices : List Notice) (count : Nat)
  | counted (count : Nat)
  deriving DecidableEq

/-- A request with its response. -/
abbrev Exchange := Request × Response

/-- Whether a request makes a subscription. -/
def Request.subscribes : Request → Bool
  | subscribe _ => true
  | _ => false

/-- Carries out a request. -/
def perform (subscriptions : Subscriptions) : Request → Subscriptions × Response
  | .subscribe bank => (subscriptions.subscribe bank, .subscribed subscriptions.next)
  | .unsubscribe number => (subscriptions.unsubscribe number, .ended (subscriptions.isLive number))
  | .publish summary =>
    let notices := subscriptions.publish summary
    (subscriptions, .published notices notices.length)
  | .count bank => (subscriptions, .counted (subscriptions.count bank))

/-- Carries out requests in order. -/
def serve {State : Type} (perform : State → Request → State × Response) (state : State) :
    List Request → State × List Exchange
  | [] => (state, [])
  | request :: requests =>
    let (next, response) := perform state request
    let (final, exchanges) := serve perform next requests
    (final, (request, response) :: exchanges)

/-! ## The log -/

/-- The subscriptions that have been made, in order. -/
def made (exchanges : List Exchange) : List Subscription :=
  exchanges.filterMap fun
    | (.subscribe bank, .subscribed number) => some ⟨number, bank⟩
    | _ => none

/-- The subscriptions that have been made and not ended, in the order in which they were made. -/
def log (exchanges : List Exchange) : List Subscription :=
  (made exchanges).filter fun subscription => (.unsubscribe subscription.number, .ended true) ∉ exchanges

/-- The response to a request is what the log tells, and the request changes the log accordingly. -/
def Fits (before : List Exchange) : Exchange → Prop
  | (.subscribe bank, response) => ∃ number, response = .subscribed number ∧
      number ∉ (made before).map Subscription.number ∧
      log (before ++ [(.subscribe bank, response)]) = log before ++ [⟨number, bank⟩]
  | (.unsubscribe number, response) => response = .ended (decide (number ∈ (log before).map Subscription.number)) ∧
      log (before ++ [(.unsubscribe number, response)]) = (log before).filter fun subscription => subscription.number ≠ number
  | (.publish summary, response) =>
      response = .published (((log before).filter fun subscription => subscription.bank = summary.id).map
          fun subscription => ⟨subscription.number, summary⟩)
        ((log before).filter fun subscription => subscription.bank = summary.id).length ∧
      log (before ++ [(.publish summary, response)]) = log before
  | (.count bank, response) =>
      response = .counted ((log before).filter fun subscription => subscription.bank = bank).length ∧
      log (before ++ [(.count bank, response)]) = log before

/-- The numbers of all subscriptions are different, and everything that is said follows from the log. -/
structure FollowsLog (exchanges : List Exchange) : Prop where
  distinct : ((made exchanges).map Subscription.number).Nodup
  fits : ∀ before exchange after, exchanges = before ++ exchange :: after → Fits before exchange

variable {subscriptions : Subscriptions} {before : List Exchange}

theorem made_append (before after : List Exchange) : made (before ++ after) = made before ++ made after :=
  List.filterMap_append

theorem log_append_singleton (before : List Exchange) (exchange : Exchange) :
    log (before ++ [exchange]) =
      ((log before).filter fun subscription => exchange ≠ (.unsubscribe subscription.number, .ended true)) ++
        (made [exchange]).filter fun subscription =>
          (.unsubscribe subscription.number, .ended true) ∉ before ++ [exchange] := by
  simp only [log, made_append, List.filter_append, List.filter_filter, List.mem_append, List.mem_singleton]
  congr 1
  refine List.filter_congr fun subscription _ => ?_
  simp [eq_comm, not_or, and_comm]

/-- What a response that ends nothing does to the log, if the request makes no subscription. -/
theorem log_append_of_quiet {exchange : Exchange} (hmade : made [exchange] = [])
    (hended : ∀ number, exchange ≠ (.unsubscribe number, .ended true)) : log (before ++ [exchange]) = log before := by
  rw [log_append_singleton, hmade, List.filter_nil, List.append_nil, List.filter_eq_self]
  intro subscription _
  simpa using hended subscription.number

/-! ## Live subscriptions -/

/-- Where numbers are different, to leave out the first element with a number is to leave out all with it. -/
theorem eraseP_eq_filter {α : Type} (number : α → Nat) (n : Nat) {elements : List α}
    (hnodup : (elements.map number).Nodup) :
    elements.eraseP (fun element => number element == n) = elements.filter fun element => number element ≠ n := by
  induction elements with
  | nil => rfl
  | cons first elements ih =>
    obtain ⟨hnew, hnodup⟩ := List.nodup_cons.1 hnodup
    by_cases hfirst : number first = n
    · have hothers : ∀ other ∈ elements, number other ≠ n := fun other hother hsame =>
        hnew (List.mem_map.2 ⟨other, hother, hsame.trans hfirst.symm⟩)
      rw [List.eraseP_cons_of_pos (by simpa using hfirst), List.filter_cons_of_neg (by simpa using hfirst)]
      exact (List.filter_eq_self.2 fun other hother => by simpa using hothers other hother).symm
    · rw [List.eraseP_cons_of_neg (by simpa using hfirst), List.filter_cons_of_pos (by simpa using hfirst), ih hnodup]

theorem Numbered.live_unsubscribe (numbered : subscriptions.Numbered) (number : Nat) :
    (subscriptions.unsubscribe number).live =
      subscriptions.live.filter fun subscription => subscription.number ≠ number :=
  eraseP_eq_filter Subscription.number number numbered.nodup

theorem isLive_eq (subscriptions : Subscriptions) (number : Nat) :
    subscriptions.isLive number = decide (number ∈ subscriptions.live.map Subscription.number) := by
  rw [Bool.eq_iff_iff]
  simp [isLive]

/-- The live subscriptions are those of the log, and all numbers below the next one have been given, in order. -/
structure Records (subscriptions : Subscriptions) (before : List Exchange) : Prop where
  live : subscriptions.live = log before
  made : (made before).map Subscription.number = List.range subscriptions.next
  ended : ∀ number, (.unsubscribe number, .ended true) ∈ before → number < subscriptions.next

theorem records_empty : Records empty [] := ⟨rfl, rfl, nofun⟩

theorem Records.numbered (records : Records subscriptions before) : subscriptions.Numbered := by
  have hsub : subscriptions.live.Sublist (Subscriptions.made before) := by
    rw [records.live]
    exact List.filter_sublist
  refine ⟨?_, fun subscription hlive => ?_⟩
  · refine List.Nodup.sublist (hsub.map Subscription.number) ?_
    rw [records.made]
    exact List.nodup_range
  · have hnumber : subscription.number ∈ (Subscriptions.made before).map Subscription.number :=
      List.mem_map_of_mem (hsub.subset hlive)
    rw [records.made] at hnumber
    exact List.mem_range.1 hnumber

/-- A request that makes and ends nothing leaves the record as it is. -/
theorem Records.of_quiet (records : Records subscriptions before) {exchange : Exchange}
    (hmade : Subscriptions.made [exchange] = []) (hended : ∀ number, exchange ≠ (.unsubscribe number, .ended true)) :
    Records subscriptions (before ++ [exchange]) := by
  refine ⟨records.live.trans (log_append_of_quiet hmade hended).symm, ?_, fun number hmem => ?_⟩
  · rw [made_append, hmade, List.append_nil]
    exact records.made
  · rcases List.mem_append.1 hmem with hbefore | hlast
    · exact records.ended number hbefore
    · exact absurd (List.mem_singleton.1 hlast).symm (hended number)

/-- A new subscription has a new number, which has not been ended. -/
theorem Records.subscribe (records : Records subscriptions before) (bank : BankId) :
    Fits before (.subscribe bank, .subscribed subscriptions.next) ∧
      Records (subscriptions.subscribe bank) (before ++ [(.subscribe bank, .subscribed subscriptions.next)]) := by
  have hnew : (.unsubscribe subscriptions.next, .ended true) ∉ before := fun hmem =>
    Nat.lt_irrefl _ (records.ended _ hmem)
  have hlog : log (before ++ [(.subscribe bank, .subscribed subscriptions.next)]) =
      log before ++ [⟨subscriptions.next, bank⟩] := by
    rw [log_append_singleton]
    simp [Subscriptions.made, hnew]
  refine ⟨⟨subscriptions.next, rfl, ?_, hlog⟩, ?_, ?_, ?_⟩
  · rw [records.made]
    exact List.not_mem_range_self
  · exact (congrArg (· ++ _) records.live).trans hlog.symm
  · rw [made_append, List.map_append]
    exact (congrArg (· ++ _) records.made).trans List.range_succ.symm
  · intro number hmem
    have hbefore : (.unsubscribe number, .ended true) ∈ before := by simpa using hmem
    exact Nat.lt_succ_of_lt (records.ended number hbefore)

/-- A subscription is ended just if it is in the log, and then only this one. -/
theorem Records.unsubscribe (records : Records subscriptions before) (number : Nat) :
    Fits before (.unsubscribe number, .ended (subscriptions.isLive number)) ∧
      Records (subscriptions.unsubscribe number)
        (before ++ [(.unsubscribe number, .ended (subscriptions.isLive number))]) := by
  have hlive : subscriptions.isLive number = decide (number ∈ (log before).map Subscription.number) := by
    rw [isLive_eq, records.live]
  have hlog : log (before ++ [(.unsubscribe number, .ended (subscriptions.isLive number))]) =
      (log before).filter fun subscription => subscription.number ≠ number := by
    rw [log_append_singleton]
    simp only [Subscriptions.made, List.filterMap_cons, List.filterMap_nil, List.filter_nil, List.append_nil]
    refine List.filter_congr fun subscription hmem => ?_
    rw [hlive]
    by_cases hsame : subscription.number = number
    · have hin : number ∈ (log before).map Subscription.number := List.mem_map.2 ⟨subscription, hmem, hsame⟩
      simp [hsame, hin]
    · simp [hsame, Ne.symm hsame]
  refine ⟨⟨congrArg Response.ended hlive, hlog⟩, ?_, ?_, ?_⟩
  · exact (records.numbered.live_unsubscribe number).trans ((congrArg _ records.live).trans hlog.symm)
  · rw [made_append]
    exact (congrArg (List.map Subscription.number) (List.append_nil _)).trans records.made
  · intro other hmem
    rcases List.mem_append.1 hmem with hbefore | hlast
    · exact records.ended other hbefore
    · -- the number that is ended is that of a live subscription
      obtain ⟨hsame, hanswer⟩ := Prod.mk.inj (List.mem_singleton.1 hlast)
      obtain rfl := Request.unsubscribe.inj hsame
      have hended := Response.ended.inj hanswer
      rw [isLive_eq, eq_comm, decide_eq_true_iff] at hended
      obtain ⟨subscription, hin, rfl⟩ := List.mem_map.1 hended
      exact records.numbered.lt_next subscription hin

/-- **One request.** What is said to it fits the log, and the live subscriptions are those of the log afterwards. -/
theorem Records.perform (records : Records subscriptions before) (request : Request) :
    Fits before (request, (subscriptions.perform request).2) ∧
      Records (subscriptions.perform request).1 (before ++ [(request, (subscriptions.perform request).2)]) := by
  cases request with
  | subscribe bank => exact records.subscribe bank
  | unsubscribe number => exact records.unsubscribe number
  | publish summary =>
    have records' : Records subscriptions (before ++ [(.publish summary, (subscriptions.perform (.publish summary)).2)]) :=
      records.of_quiet rfl fun number h => by cases h
    refine ⟨⟨?_, records'.live.symm.trans records.live⟩, records'⟩
    simp only [Subscriptions.perform, publish, records.live, List.length_map]
    rfl
  | count bank =>
    have records' : Records subscriptions (before ++ [(.count bank, (subscriptions.perform (.count bank)).2)]) :=
      records.of_quiet rfl fun number h => by cases h
    refine ⟨⟨?_, records'.live.symm.trans records.live⟩, records'⟩
    simp only [Subscriptions.perform, count, records.live, List.countP_eq_length_filter]
    rfl

/-- **Requests in a row.** -/
theorem Records.serve (records : Records subscriptions before) (requests : List Request) :
    (∀ earlier exchange later,
        (Subscriptions.serve Subscriptions.perform subscriptions requests).2 = earlier ++ exchange :: later →
          Fits (before ++ earlier) exchange) ∧
      Records (Subscriptions.serve Subscriptions.perform subscriptions requests).1
        (before ++ (Subscriptions.serve Subscriptions.perform subscriptions requests).2) := by
  induction requests generalizing subscriptions before with
  | nil =>
    refine ⟨fun earlier exchange later hsplit => ?_, by rwa [Subscriptions.serve, List.append_nil]⟩
    cases earlier <;> cases hsplit
  | cons request requests ih =>
    obtain ⟨hfits, hnext⟩ := records.perform request
    obtain ⟨hrest, hfinal⟩ := ih hnext
    rw [List.append_assoc] at hfinal
    refine ⟨fun earlier exchange later hsplit => ?_, hfinal⟩
    cases earlier with
    | nil =>
      obtain ⟨rfl, -⟩ := List.cons.inj hsplit
      rwa [List.append_nil]
    | cons first earlier =>
      obtain ⟨rfl, hbehind⟩ := List.cons.inj hsplit
      have hlater := hrest earlier exchange later hbehind
      rwa [List.append_assoc] at hlater

theorem Records.followsLog {exchanges : List Exchange} (records : Records subscriptions exchanges)
    (fits : ∀ before exchange after, exchanges = before ++ exchange :: after → Fits before exchange) :
    FollowsLog exchanges := by
  refine ⟨?_, fits⟩
  rw [records.made]
  exact List.nodup_range

/-- What is said to requests from the first one on follows from the log. -/
theorem followsLog_serve (requests : List Request) : FollowsLog (serve perform empty requests).2 := by
  obtain ⟨hfits, records⟩ := records_empty.serve requests
  rw [List.nil_append] at records
  exact records.followsLog hfits

end Subscriptions

/-! ## Runs of a tracer -/

/-- What a command asks of the subscriptions. -/
def Command.request? : Command → Option Subscriptions.Request
  | .subscribe bank => some (.subscribe bank)
  | .unsubscribe number => some (.unsubscribe number)
  | _ => none

/-- What a command has asked of the subscriptions, with the response that its answer shows. -/
def Command.exchange? : Command → Answer → Option Subscriptions.Exchange
  | .subscribe bank, ⟨.subscribed number, _⟩ => some (.subscribe bank, .subscribed number)
  | .unsubscribe number, ⟨.found answer, _⟩ => some (.unsubscribe number, .ended answer)
  | _, _ => none

namespace Tracer

/-- What the commands of a run have asked of the subscriptions, and what was said to it. -/
def history (s : Tracer) (commands : List Command) : List Subscriptions.Exchange :=
  (commands.zip (s.run commands).2).filterMap fun entry => entry.1.exchange? entry.2

theorem subscriptions_perform (s : Tracer) {command : Command} (h : command.onSubscriptions = false) :
    (s.perform command).1.subscriptions = s.subscriptions := by
  have hsame := congrArg Tracer.subscriptions (perform_withSubscriptions s.subscriptions s h).1
  exact hsame

/-- A run asks its subscriptions one request after the other. -/
theorem serve_run (s : Tracer) (commands : List Command) :
    Subscriptions.serve Subscriptions.perform s.subscriptions (commands.filterMap Command.request?) =
      ((s.run commands).1.subscriptions, s.history commands) := by
  induction commands generalizing s with
  | nil => rfl
  | cons command commands ih =>
    have hnext := ih (s.perform command).1
    have hhistory : s.history (command :: commands) =
        (command.exchange? (s.perform command).2).toList ++ (s.perform command).1.history commands := by
      show List.filterMap _ ((command, (s.perform command).2) :: _) = _
      rw [List.filterMap_cons]
      cases command.exchange? (s.perform command).2 <;> rfl
    have hsame (h : command.onSubscriptions = false) := s.subscriptions_perform h
    rw [hhistory, run_cons]
    cases command with
    | subscribe bank =>
      exact congrArg (fun final => (final.1, (.subscribe bank, .subscribed s.subscriptions.next) :: final.2)) hnext
    | unsubscribe number =>
      exact congrArg (fun final => (final.1, (.unsubscribe number, .ended (s.subscriptions.isLive number)) :: final.2)) hnext
    | _ =>
      rw [hsame rfl] at hnext
      exact hnext

end Tracer

end TraceDisasm
