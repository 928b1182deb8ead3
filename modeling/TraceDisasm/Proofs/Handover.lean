import TraceDisasm.Proofs.Delivery

/-!
# What the caller of an update is told

The caller of an update is handed the banks that are pending, each of them once (`Tracer.Sound.count_handed`). These are not
all the banks that have changed since the last update. A force into a bank tells its subscribers at once and takes the mark
away, so the caller, who is no subscriber, hears neither of the force nor of the changes before it
(`Tracer.swallowed_change`). Exactly the changes behind the last force are left (`Tracer.Made.handed_once_iff`).
-/

namespace TraceDisasm

/-- The bank that is handed over, if one is. -/
def Delivery.handed? : Delivery → Option Summary
  | .handed summary => some summary
  | .notified _ => none

namespace Tracer

variable {s : Tracer}

/-- The banks that the caller of an update is handed. -/
def handed (s : Tracer) : List Summary := s.update.2.1.filterMap Delivery.handed?

theorem handed_eq (s : Tracer) : s.handed = s.registry.pending.map Bank.summary := by
  have hnotices (notices : List Notice) : (notices.map Delivery.notified).filterMap Delivery.handed? = [] := by
    rw [List.filterMap_map]
    exact List.filterMap_eq_nil_iff.2 fun _ _ => rfl
  simp only [handed, update, List.filterMap_flatMap, List.filterMap_cons, hnotices, Delivery.handed?]
  exact List.map_eq_flatMap.symm

/-- A bank is handed over once if it is pending, and not at all otherwise. -/
theorem Sound.count_handed (sound : s.Sound) {bank : Bank} (hmem : bank ∈ s.registry.banks) :
    s.handed.count bank.summary = if bank.pending then 1 else 0 := by
  have hids : (s.registry.pending.map Bank.id).Nodup :=
    sound.arranged.nodup.sublist (List.filter_sublist.map Bank.id)
  have hnodup : s.handed.Nodup := by
    rw [handed_eq]
    refine List.Nodup.of_map Summary.id ?_
    rwa [List.map_map]
  split
  · next hpending =>
    refine List.count_eq_one_of_mem hnodup ?_
    rw [handed_eq]
    exact List.mem_map_of_mem (List.mem_filter.2 ⟨hmem, hpending⟩)
  · next hsettled =>
    refine List.count_eq_zero_of_not_mem fun hhanded => hsettled ?_
    rw [handed_eq] at hhanded
    obtain ⟨other, hother, hsame⟩ := List.mem_map.1 hhanded
    obtain ⟨hother, hpending⟩ := List.mem_filter.1 hother
    rwa [sound.arranged.eq_of_id_eq hother hmem (congrArg Summary.id hsame)] at hpending

/-- After an update a bank is pending just if a change is outstanding since. -/
theorem Sound.pending_since_update (sound : s.Sound) {between : List Command} {bank : Bank}
    (hmem : bank ∈ (s.run (.update :: between)).1.registry.banks) :
    bank.pending = true ↔ (s.perform .update).1.Outstanding between bank.id := by
  have settled : ¬ (s.perform .update).1.registry.Awaits bank.id := Registry.not_awaits_settle
  have updated := sound.perform .update
  rw [← (updated.run between).arranged.awaits_iff hmem, updated.awaits_run_iff ⟨bank, hmem, rfl⟩]
  simp [settled]

/-- **What the caller of an update is handed.** Of two updates the second hands over a bank just if something in between has
changed it and nothing behind that has announced it; and it does so once. Where no third update comes in between, only a
force into the bank can have announced it, and of that the caller of an update is not told. -/
theorem Made.handed_once_iff {start : Tracer} (made : Made start) {before between : List Command} {bank : Bank}
    (hmem : bank ∈ (start.run (before ++ .update :: between)).1.registry.banks) :
    (start.run (before ++ .update :: between)).1.handed.count bank.summary ≤ 1 ∧
      ((start.run (before ++ .update :: between)).1.handed.count bank.summary = 1 ↔
        (start.run (before ++ [.update])).1.Outstanding between bank.id) := by
  have sound := made.sound_run (before ++ .update :: between)
  have hpending : bank.pending = true ↔ (start.run (before ++ [.update])).1.Outstanding between bank.id := by
    rw [run_append] at hmem
    rw [run_append]
    exact (made.sound_run before).pending_since_update hmem
  rw [sound.count_handed hmem, ← hpending]
  split <;> simp [*]

theorem handed_once_ram : ∃ bank ∈ (new.run [.update, .observe 0x1000 dataRead 0]).1.registry.banks, bank.id = .ram ∧
    (new.run [.update, .observe 0x1000 dataRead 0]).1.handed.count bank.summary = 1 := by
  have changes := (Made.new.sound_run [.update]).changes_ram rfl
  obtain ⟨bank, hmem, hid⟩ := (Made.new.sound_run [.update, .observe 0x1000 dataRead 0]).arranged.exists_fixed (.inr rfl)
  have outstanding : (new.run [.update]).1.Outstanding [.observe 0x1000 dataRead 0] bank.id :=
    ⟨[], _, [], rfl, hid ▸ changes, trivial⟩
  have once := @Made.handed_once_iff new .new [] [.observe 0x1000 dataRead 0] bank
  simp only [List.nil_append] at once
  exact ⟨bank, hmem, hid, (once hmem).2.2 outstanding⟩

/-- A byte of the RAM is read, and then a word is forced onto another one. -/
def readThenForced : List Command := [.observe 0x1000 dataRead 0, .force 0x1001 dataRead]

/-- The force takes the change back: the caller of the next update is not handed the RAM. -/
theorem swallowed_change : (new.run [.update]).1.Changes (.observe 0x1000 dataRead 0) .ram ∧
    ∃ bank ∈ (new.run (.update :: readThenForced)).1.registry.banks, bank.id = .ram ∧
      (new.run (.update :: readThenForced)).1.handed.count bank.summary = 0 := by
  have made : new.Sound := Made.new.sound_run []
  have sound := Made.new.sound_run (.update :: readThenForced)
  have updated := Made.new.sound_run [.update]
  obtain ⟨bank, hmem, hid⟩ := sound.arranged.exists_fixed (.inr rfl)
  refine ⟨updated.changes_ram rfl, bank, hmem, hid, ?_⟩
  rw [sound.count_handed hmem, if_neg]
  rw [made.pending_since_update hmem, hid]
  have hbank := (updated.run [.observe 0x1000 dataRead 0]).arranged.bankFor?_ram
    (by decide : Address.ramStart ≤ 0x1001) (by decide)
  exact not_outstanding_append_force hbank

end Tracer

end TraceDisasm
