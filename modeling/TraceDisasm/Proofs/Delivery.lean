import TraceDisasm.Proofs.Pending

/-!
# What subscribers are told

A subscription hears of a bank when a word is forced onto one of its addresses, and at an update if the bank is pending. So
a change is heard of at the next update, unless a force into the bank has told of it before
(`Tracer.Sound.tells_of_event`). At an update every subscription hears of one bank at most, and of none that has no change
outstanding (`Tracer.Made.faithful`).

Behind this stands that the numbers of subscriptions are given once. So no two live subscriptions have one number
(`Subscriptions.Numbered`), and a subscription that is live at two points of a run is live in between.
-/

namespace TraceDisasm

/-- The subscription that is told, if one is. -/
def Delivery.subscription? : Delivery → Option Nat
  | .notified notice => some notice.subscription
  | .handed _ => none

/-- A subscription hears of a bank. -/
def Answer.Tells (answer : Answer) (number : Nat) (id : BankId) : Prop :=
  ∃ summary : Summary, summary.id = id ∧ .notified ⟨number, summary⟩ ∈ answer.deliveries

/-! ## Subscriptions -/

namespace Subscriptions

/-- A subscription to a bank has been made and not ended. -/
def Live (subscriptions : Subscriptions) (number : Nat) (id : BankId) : Prop := ⟨number, id⟩ ∈ subscriptions.live

/-- The live subscriptions have different numbers, which have all been given. -/
structure Numbered (subscriptions : Subscriptions) : Prop where
  nodup : (subscriptions.live.map Subscription.number).Nodup
  lt_next : ∀ subscription ∈ subscriptions.live, subscription.number < subscriptions.next

variable {subscriptions : Subscriptions} {number : Nat} {id : BankId}

theorem numbered_empty : empty.Numbered := ⟨List.nodup_nil, nofun⟩

theorem Numbered.subscribe (numbered : subscriptions.Numbered) (bank : BankId) :
    (subscriptions.subscribe bank).Numbered := by
  refine ⟨?_, fun subscription hmem => ?_⟩
  · -- the new number is larger than those of the live subscriptions
    have hnew : subscriptions.next ∉ subscriptions.live.map Subscription.number := fun hmem => by
      obtain ⟨subscription, hlive, hnumber⟩ := List.mem_map.1 hmem
      have := numbered.lt_next subscription hlive
      omega
    simp only [Subscriptions.subscribe, List.map_append, List.map_cons, List.map_nil]
    exact List.nodup_append_comm.2 (List.nodup_cons.2 ⟨hnew, numbered.nodup⟩)
  · rcases List.mem_append.1 hmem with hlive | hnew
    · exact Nat.lt_succ_of_lt (numbered.lt_next subscription hlive)
    · rw [List.mem_singleton.1 hnew]
      exact Nat.lt_succ_self _

theorem Numbered.unsubscribe (numbered : subscriptions.Numbered) (number : Nat) :
    (subscriptions.unsubscribe number).Numbered where
  nodup := numbered.nodup.sublist ((List.eraseP_sublist).map Subscription.number)
  lt_next subscription hmem := numbered.lt_next subscription (List.mem_of_mem_eraseP hmem)

theorem mem_publish_iff {summary : Summary} {notice : Notice} :
    notice ∈ subscriptions.publish summary ↔
      notice.summary = summary ∧ subscriptions.Live notice.subscription summary.id := by
  simp only [publish, Live, List.mem_map, List.mem_filter, beq_iff_eq]
  constructor
  · rintro ⟨⟨number, bank⟩, ⟨hmem, rfl⟩, rfl⟩
    exact ⟨rfl, hmem⟩
  · rintro ⟨rfl, hmem⟩
    exact ⟨_, ⟨hmem, rfl⟩, rfl⟩

/-- A subscription is live to one bank. -/
theorem Numbered.live_unique (numbered : subscriptions.Numbered) {other : BankId} (h : subscriptions.Live number id)
    (h' : subscriptions.Live number other) : id = other :=
  congrArg Subscription.bank (List.inj_on_of_nodup_map numbered.nodup h h' rfl)

theorem Numbered.nodup_publish (numbered : subscriptions.Numbered) (summary : Summary) :
    ((subscriptions.publish summary).map Notice.subscription).Nodup := by
  rw [publish, List.map_map]
  exact numbered.nodup.sublist (List.filter_sublist.map Subscription.number)

end Subscriptions

namespace Tracer

variable {s : Tracer} {id : BankId} {number : Nat} {command : Command} {commands : List Command}

theorem subscriptions_observe (s : Tracer) (address : UInt32) (kind : Access) (value : UInt8) :
    (s.observe address kind value).subscriptions = s.subscriptions := by
  unfold observe
  split
  · rfl
  · split <;> rfl

theorem subscriptions_forced (s : Tracer) (address : UInt32) (kind : Access) :
    (s.forced address kind).1.subscriptions = s.subscriptions := by
  rcases s.forced_cases address kind with ⟨-, hforced⟩ | ⟨bank, -, hforced⟩ <;> rw [hforced]

theorem subscriptions_of_asksListing (h : command.asksListing = true) :
    (s.perform command).1.subscriptions = s.subscriptions := by
  rcases s.perform_of_asksListing h with hsame | ⟨other, rows, hlisted⟩
  · rw [hsame]
  · rw [hlisted]

/-- Only a subscription that is made or ended changes the subscriptions. -/
theorem perform_subscriptions_cases (s : Tracer) (command : Command) :
    (s.perform command).1.subscriptions = s.subscriptions ∨
      (∃ bank, (s.perform command).1.subscriptions = s.subscriptions.subscribe bank) ∨
        ∃ number, (s.perform command).1.subscriptions = s.subscriptions.unsubscribe number := by
  cases command with
  | observe address kind value => exact .inl (s.subscriptions_observe address kind value)
  | force _ _ | override _ _ => exact .inl (subscriptions_forced _ _ _)
  | update | reset | eject | memory _ => exact .inl rfl
  | render _ | renderNamed _ | rowIndex _ _ | rowIndexAtPc _ _ =>
    exact .inl (subscriptions_of_asksListing rfl)
  | subscribe bank => exact .inr (.inl ⟨bank, rfl⟩)
  | unsubscribe number => exact .inr (.inr ⟨number, rfl⟩)
  | insertCartridge image =>
    rcases s.perform_insertCartridge image with ⟨-, hsame⟩ | ⟨memory, -, hnext⟩
    · exact .inl (by rw [hsame])
    · exact .inl (by rw [hnext]; rfl)
  | replaceBios image =>
    rcases s.perform_replaceBios image with ⟨-, hsame⟩ | ⟨memory, -, -, hnext⟩
    · exact .inl (by rw [hsame])
    · exact .inl (by rw [hnext])

theorem numbered_perform (numbered : s.subscriptions.Numbered) (command : Command) :
    (s.perform command).1.subscriptions.Numbered := by
  rcases s.perform_subscriptions_cases command with hsame | ⟨bank, hsubscribed⟩ | ⟨number, hended⟩
  · rwa [hsame]
  · rw [hsubscribed]
    exact numbered.subscribe bank
  · rw [hended]
    exact numbered.unsubscribe number

theorem numbered_run (numbered : s.subscriptions.Numbered) (commands : List Command) :
    (s.run commands).1.subscriptions.Numbered := by
  induction commands generalizing s with
  | nil => exact numbered
  | cons command commands ih => exact ih (numbered_perform numbered command)

theorem Made.numbered_run (made : Made s) (commands : List Command) : (s.run commands).1.subscriptions.Numbered := by
  obtain ⟨config, rfl⟩ := made.exists_config
  exact Tracer.numbered_run Subscriptions.numbered_empty commands

/-- A number that has been given is not given to another subscription. -/
theorem live_of_live_perform (hgiven : number < s.subscriptions.next)
    (live : (s.perform command).1.subscriptions.Live number id) : s.subscriptions.Live number id := by
  rcases s.perform_subscriptions_cases command with hsame | ⟨bank, hsubscribed⟩ | ⟨ended, hended⟩
  · rwa [hsame] at live
  · rw [hsubscribed] at live
    rcases List.mem_append.1 live with hold | hnew
    · exact hold
    · have : number = s.subscriptions.next := congrArg Subscription.number (List.mem_singleton.1 hnew)
      omega
  · rw [hended] at live
    exact List.mem_of_mem_eraseP live

theorem next_le_perform (s : Tracer) (command : Command) :
    s.subscriptions.next ≤ (s.perform command).1.subscriptions.next := by
  rcases s.perform_subscriptions_cases command with hsame | ⟨bank, hsubscribed⟩ | ⟨ended, hended⟩
  · exact Nat.le_of_eq (congrArg Subscriptions.next hsame.symm)
  · rw [hsubscribed]
    exact Nat.le_succ _
  · have hnext := congrArg Subscriptions.next hended
    exact Nat.le_of_eq hnext.symm

/-- A subscription that has been made and is live at the end of a run is live all along it. -/
theorem live_of_live_run {before after : List Command} (hgiven : number < s.subscriptions.next)
    (live : (s.run (before ++ after)).1.subscriptions.Live number id) :
    (s.run before).1.subscriptions.Live number id := by
  induction before generalizing s with
  | nil =>
    induction after generalizing s with
    | nil => exact live
    | cons command after ih =>
      have hnext := Nat.lt_of_lt_of_le hgiven (s.next_le_perform command)
      exact live_of_live_perform hgiven (ih hnext live)
  | cons command before ih => exact ih (Nat.lt_of_lt_of_le hgiven (s.next_le_perform command)) live

/-! ## What is heard -/

/-- A subscription hears of a bank in the course of a run. -/
def Tells (s : Tracer) (commands : List Command) (number : Nat) (id : BankId) : Prop :=
  ∃ answer ∈ (s.run commands).2, answer.Tells number id

theorem run_append_snd (s : Tracer) (before after : List Command) :
    (s.run (before ++ after)).2 = (s.run before).2 ++ ((s.run before).1.run after).2 := by
  induction before generalizing s with
  | nil => rfl
  | cons command before ih => exact congrArg (_ :: ·) (ih _)

theorem tells_of_perform {earlier later : List Command}
    (h : ((s.run earlier).1.perform command).2.Tells number id) : s.Tells (earlier ++ command :: later) number id := by
  refine ⟨_, ?_, h⟩
  rw [run_append_snd]
  exact List.mem_append_right _ List.mem_cons_self

theorem tells_forced {address : UInt32} {kind : Access} (hbank : s.bankFor? address = some id)
    (live : s.subscriptions.Live number id) : (s.forced address kind).2.Tells number id := by
  obtain ⟨bank, hcovering, rfl⟩ := Option.map_eq_some_iff.1 hbank
  refine ⟨bank.summary, rfl, ?_⟩
  rw [forced, force, hcovering]
  exact List.mem_map_of_mem (Subscriptions.mem_publish_iff.2 ⟨rfl, live⟩)

/-- A force into a bank is heard of at once. -/
theorem tells_of_forces (h : s.Forces command id) (live : s.subscriptions.Live number id) :
    (s.perform command).2.Tells number id := by
  cases command with
  | force _ _ | override _ _ => exact tells_forced h live
  | _ => exact h.elim

/-- Who hears what at an update. -/
theorem notified_mem_update_iff {notice : Notice} :
    .notified notice ∈ s.update.2.1 ↔ ∃ bank ∈ s.registry.banks, bank.pending = true ∧ notice.summary = bank.summary ∧
      s.subscriptions.Live notice.subscription bank.id := by
  simp only [update, Registry.pending, List.mem_flatMap, List.mem_filter, List.mem_cons, reduceCtorEq, false_or,
    List.mem_map, Delivery.notified.injEq, exists_eq_right, Subscriptions.mem_publish_iff]
  simp only [and_assoc]
  rfl

/-- **No change is lost.** A subscription that is live when something happens to its bank, and still at the next update, has
heard of the bank by the end of the update. -/
theorem Sound.tells_of_event (sound : s.Sound) (numbered : s.subscriptions.Numbered) {between : List Command}
    (event : s.Changes command id ∨ s.Forces command id) (single : .update ∉ between)
    (holds : (s.run (command :: between)).1.registry.Holds id) (live : s.subscriptions.Live number id)
    (stays : (s.run (command :: between)).1.subscriptions.Live number id) :
    s.Tells (command :: between ++ [.update]) number id := by
  have hgiven := numbered.lt_next _ live
  by_cases hforced : ∃ earlier other later, command :: between = earlier ++ other :: later ∧
      (s.run earlier).1.Forces other id
  · -- the force tells of the event, at the latest
    obtain ⟨earlier, other, later, hsplit, hforces⟩ := hforced
    rw [hsplit] at stays ⊢
    rw [List.append_assoc]
    exact tells_of_perform (tells_of_forces hforces (live_of_live_run hgiven stays))
  · have hchanges : s.Changes command id :=
      event.resolve_right fun hforces => hforced ⟨[], command, between, rfl, hforces⟩
    have hsilent : (s.perform command).1.Silent between id := by
      by_contra hnot
      obtain ⟨earlier, other, later, rfl, rfl | hforces⟩ := exists_announces_of_not_silent hnot
      · exact single (by simp)
      · exact hforced ⟨command :: earlier, other, later, rfl, hforces⟩
    have hawaits := (sound.awaits_run_iff holds).2 (.inl ⟨[], command, between, rfl, hchanges, hsilent⟩)
    obtain ⟨bank, hmem, hid, hpending⟩ := hawaits
    refine tells_of_perform ⟨bank.summary, hid, ?_⟩
    exact notified_mem_update_iff.2 ⟨bank, hmem, hpending, rfl, hid ▸ stays⟩

/-- At an update no subscription hears twice. -/
theorem Sound.nodup_subscriptions_update (sound : s.Sound) (numbered : s.subscriptions.Numbered) :
    (s.update.2.1.filterMap Delivery.subscription?).Nodup := by
  have hheard : s.update.2.1.filterMap Delivery.subscription? =
      s.registry.pending.flatMap fun bank => (s.subscriptions.publish bank.summary).map Notice.subscription := by
    simp only [update, List.filterMap_flatMap, List.filterMap_cons, Delivery.subscription?, List.filterMap_map,
      Function.comp_def, List.filterMap_eq_map']
  rw [hheard, List.nodup_flatMap]
  refine ⟨fun bank _ => numbered.nodup_publish bank.summary, ?_⟩
  have hdistinct : s.registry.pending.Pairwise fun bank other => bank.id ≠ other.id :=
    (List.pairwise_map.1 sound.arranged.nodup).filter _
  refine hdistinct.imp fun {bank other} hne => ?_
  intro number hbank hother
  obtain ⟨notice, hnotice, rfl⟩ := List.mem_map.1 hbank
  obtain ⟨notice', hnotice', hsame⟩ := List.mem_map.1 hother
  have hlive := (Subscriptions.mem_publish_iff.1 hnotice).2
  have hlive' := (Subscriptions.mem_publish_iff.1 hnotice').2
  rw [hsame] at hlive'
  exact hne (numbered.live_unique hlive hlive')

/-! ## What subscribers can rely on -/

/-- A bank has a change to announce: the run has left one outstanding, or it was made with the tracer and has not been
announced since. -/
def Due (start : Tracer) (commands : List Command) (id : BankId) : Prop :=
  start.Outstanding commands id ∨ start.registry.Holds id ∧ start.Silent commands id

/-- Subscribers lose no change, whatever is done to the tracer, and hear of nothing else. -/
structure Faithful (start : Tracer) : Prop where
  /-- A bank is pending just if a change is due. -/
  pending_iff : ∀ commands, ∀ bank ∈ (start.run commands).1.registry.banks,
    (bank.pending = true ↔ start.Due commands bank.id)
  /-- A subscription that is live when something happens to its bank, and still at the next update, has heard of the bank
  by the end of the update, if the bank is still there. -/
  heard : ∀ before command between id number,
    (start.run before).1.Changes command id ∨ (start.run before).1.Forces command id → .update ∉ between →
      (start.run (before ++ command :: between)).1.registry.Holds id →
      (start.run before).1.subscriptions.Live number id →
      (start.run (before ++ command :: between)).1.subscriptions.Live number id →
        (start.run before).1.Tells (command :: between ++ [.update]) number id
  /-- At an update no subscription hears twice. -/
  once : ∀ commands, ((start.run commands).1.update.2.1.filterMap Delivery.subscription?).Nodup
  /-- At an update those hear of a bank that are subscribed to it, and only if a change is due. -/
  heard_iff : ∀ commands notice, .notified notice ∈ (start.run commands).1.update.2.1 ↔
    ∃ bank ∈ (start.run commands).1.registry.banks, start.Due commands bank.id ∧
      notice.summary = bank.summary ∧ (start.run commands).1.subscriptions.Live notice.subscription bank.id

/-- All banks are to be announced when a tracer is made. -/
theorem Made.awaits_iff (made : Made s) : s.registry.Awaits id ↔ s.registry.Holds id := by
  obtain ⟨config, rfl⟩ := made.exists_config
  exact Registry.awaits_ofCartridgeEnd

theorem Made.pending_iff (made : Made s) {bank : Bank} (hmem : bank ∈ (s.run commands).1.registry.banks) :
    bank.pending = true ↔ s.Due commands bank.id := by
  have sound : s.Sound := made.sound_run []
  rw [← (sound.run commands).arranged.awaits_iff hmem, sound.awaits_run_iff ⟨bank, hmem, rfl⟩, made.awaits_iff, Due]

/-- **Subscribers can rely on a tracer.** -/
theorem Made.faithful {start : Tracer} (made : Made start) : Faithful start where
  pending_iff commands bank hmem := made.pending_iff hmem
  heard before command between id number event single holds live stays := by
    rw [run_append] at holds stays
    exact (made.sound_run before).tells_of_event (made.numbered_run before) event single holds live stays
  once commands := (made.sound_run commands).nodup_subscriptions_update (made.numbered_run commands)
  heard_iff commands notice := by
    rw [notified_mem_update_iff]
    refine exists_congr fun bank => and_congr_right fun hmem => ?_
    rw [made.pending_iff hmem]

/-- A byte is read as data. -/
def dataRead : Access := .ofFlags [.data, .read]

/-- After one subscription to the RAM and an update. -/
def listening : List Command := [.subscribe .ram, .update]

/-- The first access that is observed changes the RAM. -/
theorem Sound.changes_ram (sound : s.Sound) (hfresh : s.classification = .empty) :
    s.Changes (.observe 0x1000 dataRead 0) .ram := by
  have heffect : s.classification.accessEffect 0x1000 dataRead = .changed .none dataRead.persistent := by
    rw [hfresh, Classification.accessEffect, Classification.get_empty]
    decide
  exact ⟨sound.arranged.bankFor?_ram (by decide) (by decide), traceAt_observe_ne (by decide) heffect⟩

theorem faithful_listening : Made new ∧
    (new.run listening).1.Tells [.observe 0x1000 dataRead 0, .force 0x1001 dataRead, .update] 0 .ram := by
  have changes := (Made.new.sound_run listening).changes_ram rfl
  have holds (commands : List Command) : (new.run commands).1.registry.Holds .ram :=
    (Made.new.sound_run commands).arranged.exists_fixed (.inr rfl)
  have hsubscriptions : (new.run (listening ++ [.observe 0x1000 dataRead 0, .force 0x1001 dataRead])).1.subscriptions =
      ⟨1, [⟨0, .ram⟩]⟩ := by
    simp only [run_append, run_cons, run_nil, perform, subscriptions_forced, subscriptions_observe]
    rfl
  refine ⟨.new, (Made.faithful .new).heard listening _ [.force 0x1001 dataRead] _ _ (.inl changes) (by decide)
    (holds _) List.mem_cons_self ?_⟩
  rw [hsubscriptions]
  exact List.mem_cons_self

end Tracer

end TraceDisasm
