import Mathlib.Data.List.Induction
import TraceDisasm.Proofs.Moves

/-!
# Changes that have not been announced

A bank is pending when something has happened to it of which nobody has been told. It becomes pending when one of its
words changes, when its bytes are replaced, or when it is made (`Tracer.Changes`). It ceases to be when all banks are
announced, or when a word is forced onto one of its addresses and it is announced on its own (`Tracer.Announces`).

No other command touches the mark (`Tracer.Sound.awaits_perform_iff`). So over a run a bank is pending just if one of the
commands changed it and none behind that announced it, or it was pending all along (`Tracer.Sound.awaits_run_iff`).
-/

namespace TraceDisasm

namespace Registry

/-- There is a bank with an identifier. -/
def Holds (registry : Registry) (id : BankId) : Prop := ∃ bank ∈ registry.banks, bank.id = id

/-- The bank with an identifier has changes to announce. -/
def Awaits (registry : Registry) (id : BankId) : Prop :=
  ∃ bank ∈ registry.banks, bank.id = id ∧ bank.pending = true

variable {registry : Registry} {id other : BankId} {bank : Bank} {change : Bank → Bank}

theorem Awaits.holds (h : registry.Awaits id) : registry.Holds id := by
  obtain ⟨bank, hmem, hid, -⟩ := h
  exact ⟨bank, hmem, hid⟩

theorem Arranged.awaits_iff (h : registry.Arranged) (hmem : bank ∈ registry.banks) :
    registry.Awaits bank.id ↔ bank.pending = true := by
  constructor
  · rintro ⟨found, hfound, hid, hpending⟩
    rwa [h.eq_of_id_eq hfound hmem hid] at hpending
  · intro hpending
    exact ⟨bank, hmem, rfl, hpending⟩

theorem Arranged.holds_of_bankFor? (h : registry.Arranged) {address : UInt32}
    (hbank : registry.bankFor? address = some id) : registry.Holds id := by
  obtain ⟨bank, hmem, hid, -⟩ := h.bankFor?_eq_some_iff.1 hbank
  exact ⟨bank, hmem, hid⟩

/-! ## Changes to a registry -/

theorem id_ite (hchange : ∀ bank, (change bank).id = bank.id) (bank : Bank) :
    (if bank.id = other then change bank else bank).id = bank.id := by
  split
  · exact hchange bank
  · rfl

theorem holds_modify (change : Bank → Bank) (hchange : ∀ bank, (change bank).id = bank.id) :
    (registry.modify other change).Holds id ↔ registry.Holds id := by
  simp [Holds, modify, id_ite hchange]

theorem holds_settle : registry.settle.Holds id ↔ registry.Holds id := by
  simp [Holds, settle, Bank.settle]

theorem holds_invalidateAt {address : UInt32} : (registry.invalidateAt address).Holds id ↔ registry.Holds id := by
  rcases registry.invalidateAt_cases address with hsame | ⟨other, hmodify⟩
  · rw [hsame]
  · rw [hmodify]
    exact holds_modify Bank.invalidate fun _ => rfl

theorem awaits_modify (change : Bank → Bank) (hchange : ∀ bank, (change bank).id = bank.id) :
    (registry.modify other change).Awaits id ↔
      if id = other then ∃ bank ∈ registry.banks, bank.id = id ∧ (change bank).pending = true else registry.Awaits id := by
  simp only [Awaits, modify, List.mem_map, exists_exists_and_eq_and, id_ite hchange]
  split
  · next hother =>
    refine exists_congr fun bank => and_congr_right fun _ => and_congr_right fun hbank => ?_
    rw [if_pos (hbank.trans hother)]
  · next hother =>
    refine exists_congr fun bank => and_congr_right fun _ => and_congr_right fun hbank => ?_
    rw [if_neg (hbank ▸ hother)]

theorem awaits_modify_invalidate :
    (registry.modify other Bank.invalidate).Awaits id ↔ id = other ∧ registry.Holds id ∨ registry.Awaits id := by
  rw [awaits_modify Bank.invalidate fun _ => rfl]
  split
  · next hother =>
    constructor
    · rintro ⟨bank, hmem, hid, -⟩
      exact .inl ⟨hother, bank, hmem, hid⟩
    · rintro (⟨-, bank, hmem, hid⟩ | hawaits)
      · exact ⟨bank, hmem, hid, rfl⟩
      · obtain ⟨bank, hmem, hid⟩ := hawaits.holds
        exact ⟨bank, hmem, hid, rfl⟩
  · next hother => simp [hother]

theorem awaits_modify_invalidateAnnounced :
    (registry.modify other Bank.invalidateAnnounced).Awaits id ↔ registry.Awaits id ∧ id ≠ other := by
  rw [awaits_modify Bank.invalidateAnnounced fun _ => rfl]
  split
  · next hother => simp [hother, Bank.invalidateAnnounced]
  · next hother => simp [hother]

theorem awaits_modify_listed {rows : List Row} :
    (registry.modify other (·.listed rows)).Awaits id ↔ registry.Awaits id := by
  rw [awaits_modify (·.listed rows) fun _ => rfl]
  split <;> rfl

theorem not_awaits_settle : ¬ registry.settle.Awaits id := by
  rintro ⟨bank, hmem, -, hpending⟩
  obtain ⟨old, -, rfl⟩ := List.mem_map.1 hmem
  cases hpending

/-- The banks of a new cartridge are all to be announced. -/
theorem awaits_ofCartridgeEnd {cartridgeEnd : UInt32} :
    (ofCartridgeEnd cartridgeEnd).Awaits id ↔ (ofCartridgeEnd cartridgeEnd).Holds id := by
  refine ⟨Awaits.holds, ?_⟩
  rintro ⟨bank, hmem, hid⟩
  refine ⟨bank, hmem, hid, ?_⟩
  rcases mem_ofCartridgeEnd_iff.1 hmem with rfl | rfl | ⟨page, -, rfl⟩ <;> rfl

theorem Arranged.awaits_invalidateAt_iff (h : registry.Arranged) {address : UInt32} :
    (registry.invalidateAt address).Awaits id ↔ registry.bankFor? address = some id ∨ registry.Awaits id := by
  rw [invalidateAt]
  split
  · next other hbank =>
    rw [awaits_modify_invalidate, hbank, Option.some.injEq, eq_comm]
    refine or_congr_left (and_iff_left_of_imp ?_)
    rintro rfl
    exact h.holds_of_bankFor? hbank
  · next hbank => simp [hbank]

end Registry

namespace Tracer

variable {s t : Tracer} {id : BankId} {command : Command} {commands : List Command}

/-! ## What commands do to a bank -/

/-- A command changes a bank: an access gives one of its addresses another word, its bytes are replaced, or it is one of
the banks that are made for a cartridge. -/
def Changes (s : Tracer) : Command → BankId → Prop
  | .observe address kind value, id =>
    s.bankFor? address = some id ∧ (s.observe address kind value).traceAt address ≠ s.traceAt address
  | .replaceBios image, id => id = .bios ∧ ∃ t, s.replaceBios image = .ok t
  | .reset, id => s.reset.registry.Holds id
  | .insertCartridge image, id => ∃ t, s.insertCartridge image = .ok t ∧ t.registry.Holds id
  | .eject, id => s.eject.registry.Holds id
  | _, _ => False

/-- A command forces a word onto an address of a bank. -/
def Forces (s : Tracer) : Command → BankId → Prop
  | .force address _, id | .override address _, id => s.bankFor? address = some id
  | _, _ => False

/-- A command announces a bank. -/
def Announces (s : Tracer) (command : Command) (id : BankId) : Prop :=
  command = .update ∨ s.Forces command id

theorem traceAt_observe_ne {address : UInt32} {kind previous current : Access} {value : UInt8}
    (hspace : ¬ Address.spaceEnd ≤ address)
    (heffect : s.classification.accessEffect address kind = .changed previous current) :
    (s.observe address kind value).traceAt address ≠ s.traceAt address := by
  have hbound : address.toNat < Address.spaceSize := UInt32.lt_iff_toNat_lt.1 (UInt32.not_le.1 hspace)
  obtain ⟨hprevious, -⟩ := s.classification.accessEffect_eq_changed heffect
  have hne := s.classification.ne_of_accessEffect_eq_changed heffect
  rw [observe_eq hspace heffect, traceAt, s.classification.get_apply hbound, if_pos rfl]
  rwa [hprevious] at hne

/-- An access leaves all words as they are, or it changes that of its address and so invalidates a bank. -/
theorem observe_cases (s : Tracer) (address : UInt32) (kind : Access) (value : UInt8) :
    (s.observe address kind value).traceAt address = s.traceAt address ∧
        (s.observe address kind value).registry = s.registry ∨
      (s.observe address kind value).traceAt address ≠ s.traceAt address ∧
        (s.observe address kind value).registry = s.registry.invalidateAt address := by
  by_cases hspace : Address.spaceEnd ≤ address
  · rw [observe, if_pos hspace]
    exact .inl ⟨rfl, rfl⟩
  · cases heffect : s.classification.accessEffect address kind with
    | changed previous current =>
      refine .inr ⟨traceAt_observe_ne hspace heffect, ?_⟩
      rw [observe_eq hspace heffect]
    | _ =>
      rw [observe, if_neg hspace, heffect]
      exact .inl ⟨rfl, rfl⟩

theorem awaits_forced (address : UInt32) (kind : Access) :
    (s.forced address kind).1.registry.Awaits id ↔ s.registry.Awaits id ∧ s.bankFor? address ≠ some id := by
  rw [bankFor?, Registry.bankFor?]
  rcases s.forced_cases address kind with ⟨hnone, hforced⟩ | ⟨bank, hcovering, hforced⟩
  · simp [hnone, hforced]
  · simp [hcovering, hforced, Registry.awaits_modify_invalidateAnnounced, eq_comm]

theorem holds_forced {address : UInt32} {kind : Access} :
    (s.forced address kind).1.registry.Holds id ↔ s.registry.Holds id := by
  rcases s.forced_cases address kind with ⟨-, hforced⟩ | ⟨bank, -, hforced⟩
  · rw [hforced]
  · rw [hforced]
    exact Registry.holds_modify Bank.invalidateAnnounced fun _ => rfl

/-- A command that asks for a listing can only keep a new one. -/
theorem perform_of_asksListing (s : Tracer) (h : command.asksListing = true) :
    (s.perform command).1 = s ∨ ∃ other rows,
      (s.perform command).1 = { s with registry := s.registry.modify other (·.listed rows) } := by
  rcases s.perform_renders h with hsame | ⟨other, rows, hrender⟩
  · exact .inl hsame
  · obtain ⟨bank, -, ⟨-, hsame⟩ | ⟨-, -, hlisted⟩⟩ := render_eq_ok_iff.1 hrender
    · exact .inl hsame
    · exact .inr ⟨other, s.list bank, hlisted⟩

theorem awaits_of_asksListing (h : command.asksListing = true) :
    (s.perform command).1.registry.Awaits id ↔ s.registry.Awaits id := by
  rcases s.perform_of_asksListing h with hsame | ⟨other, rows, hlisted⟩
  · rw [hsame]
  · rw [hlisted]
    exact Registry.awaits_modify_listed

theorem holds_of_asksListing (h : command.asksListing = true) :
    (s.perform command).1.registry.Holds id ↔ s.registry.Holds id := by
  rcases s.perform_of_asksListing h with hsame | ⟨other, rows, hlisted⟩
  · rw [hsame]
  · rw [hlisted]
    exact Registry.holds_modify (·.listed rows) fun _ => rfl

/-- A bank that was not there before is made for a cartridge. -/
theorem changes_of_not_holds (holds : (s.perform command).1.registry.Holds id)
    (hnot : ¬ s.registry.Holds id) : s.Changes command id := by
  cases command with
  | observe address kind value =>
    rcases s.observe_cases address kind value with ⟨-, hregistry⟩ | ⟨-, hregistry⟩
    · exact absurd (hregistry ▸ holds) hnot
    · exact absurd (Registry.holds_invalidateAt.1 (hregistry ▸ holds)) hnot
  | force address kind => exact absurd (holds_forced.1 holds) hnot
  | override address as => exact absurd (holds_forced.1 holds) hnot
  | update => exact absurd (Registry.holds_settle.1 holds) hnot
  | render _ | renderNamed _ | rowIndex _ _ | rowIndexAtPc _ _ => exact absurd ((holds_of_asksListing rfl).1 holds) hnot
  | subscribe _ | unsubscribe _ | memory _ => exact absurd holds hnot
  | reset | eject => exact holds
  | insertCartridge image =>
    rcases s.perform_insertCartridge image with ⟨-, hsame⟩ | ⟨memory, hinsert, hnext⟩
    · exact absurd (hsame ▸ holds) hnot
    · exact ⟨_, hinsert, hnext ▸ holds⟩
  | replaceBios image =>
    rcases s.perform_replaceBios image with ⟨-, hsame⟩ | ⟨memory, -, -, hnext⟩
    · exact absurd (hsame ▸ holds) hnot
    · rw [hnext] at holds
      exact absurd ((Registry.holds_modify Bank.invalidate fun _ => rfl).1 holds) hnot

/-- **What one command does to the mark of a bank.** A bank that is there afterwards is pending just if the command has
changed it, or it was pending before and the command does not announce it. -/
theorem Sound.awaits_perform_iff (sound : s.Sound) (holds : (s.perform command).1.registry.Holds id) :
    (s.perform command).1.registry.Awaits id ↔
      s.Changes command id ∨ s.registry.Awaits id ∧ ¬ s.Announces command id := by
  cases command with
  | observe address kind value =>
    simp only [Tracer.perform, Changes, Announces, Forces, reduceCtorEq, or_false, not_false_eq_true, and_true]
    rcases s.observe_cases address kind value with ⟨hsame, hregistry⟩ | ⟨hother, hregistry⟩
    · simp [hregistry, hsame]
    · simp [hregistry, hother, sound.arranged.awaits_invalidateAt_iff, bankFor?]
  | force address kind | override address as =>
    simp [Tracer.perform, awaits_forced, Changes, Announces, Forces]
  | update => simp [Tracer.perform, Tracer.update, Registry.not_awaits_settle, Changes, Announces]
  | render _ | renderNamed _ | rowIndex _ _ | rowIndexAtPc _ _ =>
    simp only [Changes, Announces, Forces, reduceCtorEq, or_false, false_or, not_false_eq_true, and_true]
    exact awaits_of_asksListing rfl
  | subscribe _ | unsubscribe _ | memory _ =>
    simp [Tracer.perform, Tracer.subscribe, Tracer.unsubscribe, Changes, Announces, Forces]
  | reset | eject =>
    exact iff_of_true (Registry.awaits_ofCartridgeEnd.2 holds) (.inl holds)
  | insertCartridge image =>
    simp only [Announces, Forces, reduceCtorEq, or_false, not_false_eq_true, and_true]
    rcases s.perform_insertCartridge image with ⟨⟨error, hfailed⟩, hsame⟩ | ⟨memory, hinsert, hnext⟩
    · rw [hsame]
      simp [Changes, hfailed]
    · rw [hnext] at holds ⊢
      exact iff_of_true (Registry.awaits_ofCartridgeEnd.2 holds) (.inl ⟨_, hinsert, holds⟩)
  | replaceBios image =>
    simp only [Announces, Forces, reduceCtorEq, or_false, not_false_eq_true, and_true]
    rcases s.perform_replaceBios image with ⟨⟨error, hfailed⟩, hsame⟩ | ⟨memory, -, hreplace, hnext⟩
    · rw [hsame]
      simp [Changes, hfailed]
    · have hchanges : s.Changes (.replaceBios image) id ↔ id = .bios := and_iff_left hreplace
      have hbios : s.registry.Holds .bios := sound.arranged.exists_fixed (.inl rfl)
      rw [hnext, hchanges, Registry.awaits_modify_invalidate]
      refine or_congr_left (and_iff_left_of_imp ?_)
      rintro rfl
      exact hbios

/-! ## Whole runs -/

/-- None of the commands of a run announces a bank. -/
def Silent (s : Tracer) : List Command → BankId → Prop
  | [], _ => True
  | command :: commands, id => ¬ s.Announces command id ∧ (s.perform command).1.Silent commands id

/-- A command of a run changes a bank, and none of those behind it announces it. -/
def Outstanding (s : Tracer) (commands : List Command) (id : BankId) : Prop :=
  ∃ earlier command later, commands = earlier ++ command :: later ∧
    (s.run earlier).1.Changes command id ∧ (s.run (earlier ++ [command])).1.Silent later id

theorem silent_append {before after : List Command} :
    s.Silent (before ++ after) id ↔ s.Silent before id ∧ (s.run before).1.Silent after id := by
  induction before generalizing s with
  | nil => simp [Silent]
  | cons command before ih => simp [Silent, ih, and_assoc]

theorem exists_announces_of_not_silent (h : ¬ s.Silent commands id) :
    ∃ earlier command later, commands = earlier ++ command :: later ∧ (s.run earlier).1.Announces command id := by
  induction commands generalizing s with
  | nil => exact absurd trivial h
  | cons command commands ih =>
    by_cases hfirst : s.Announces command id
    · exact ⟨[], command, commands, rfl, hfirst⟩
    · obtain ⟨earlier, other, later, rfl, hannounces⟩ := ih fun hsilent => h ⟨hfirst, hsilent⟩
      exact ⟨command :: earlier, other, later, rfl, hannounces⟩

/-- The last command of a run leaves a change outstanding if it makes one, or if it does not announce an earlier one. -/
theorem outstanding_append_singleton :
    s.Outstanding (commands ++ [command]) id ↔
      (s.run commands).1.Changes command id ∨ s.Outstanding commands id ∧ ¬ (s.run commands).1.Announces command id := by
  constructor
  · rintro ⟨earlier, other, later, hsplit, hchanges, hsilent⟩
    rcases later.eq_nil_or_concat' with rfl | ⟨later, last, rfl⟩
    · obtain ⟨rfl, hlast⟩ := List.append_inj' hsplit rfl
      obtain rfl := List.singleton_inj.1 hlast
      exact .inl hchanges
    · rw [← List.cons_append, ← List.append_assoc] at hsplit
      obtain ⟨rfl, hlast⟩ := List.append_inj' hsplit rfl
      obtain rfl := List.singleton_inj.1 hlast
      obtain ⟨hsilent, hnot, -⟩ := silent_append.1 hsilent
      refine .inr ⟨⟨earlier, other, later, rfl, hchanges, hsilent⟩, ?_⟩
      simpa using hnot
  · rintro (hchanges | ⟨⟨earlier, other, later, rfl, hchanges, hsilent⟩, hnot⟩)
    · exact ⟨commands, command, [], rfl, hchanges, trivial⟩
    · refine ⟨earlier, other, later ++ [command], by simp, hchanges, silent_append.2 ⟨hsilent, ?_, trivial⟩⟩
      simpa using hnot

/-- A force into a bank takes back what was outstanding before it. -/
theorem not_outstanding_append_force {address : UInt32} {kind : Access}
    (hbank : (s.run commands).1.bankFor? address = some id) : ¬ s.Outstanding (commands ++ [.force address kind]) id := by
  rw [outstanding_append_singleton]
  rintro (hchanges | ⟨-, hsilent⟩)
  · exact hchanges
  · exact hsilent (.inr hbank)

/-- **What a run does to the mark of a bank.** A bank that is there afterwards is pending just if the run has left a change
outstanding, or it was pending before and has not been announced. -/
theorem Sound.awaits_run_iff (sound : s.Sound) (holds : (s.run commands).1.registry.Holds id) :
    (s.run commands).1.registry.Awaits id ↔
      s.Outstanding commands id ∨ s.registry.Awaits id ∧ s.Silent commands id := by
  induction commands using List.reverseRecOn with
  | nil => simp [Outstanding, Silent]
  | append_singleton commands command ih =>
    simp only [run_append, run_cons, run_nil] at holds ⊢
    rw [(sound.run commands).awaits_perform_iff holds, outstanding_append_singleton, silent_append]
    by_cases hbefore : (s.run commands).1.registry.Holds id
    · rw [ih hbefore]
      simp only [Silent, and_true]
      tauto
    · have hchanges := changes_of_not_holds holds hbefore
      simp [hchanges]

end Tracer

end TraceDisasm
