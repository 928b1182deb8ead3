import TraceDisasm.Proofs.Moves
import TraceDisasm.Proofs.OperandLabels

/-!
# Kept listings

A bank is listed anew only if it is dirty; until then the last listing is shown again. A move keeps everything that the
listing of a bank was made from, unless it leaves the bank dirty (`Tracer.Keeps`, `Tracer.Sound.clean_cases`). The one
exception are labels of addresses outside the bank.

By induction over a run, the rows of every clean bank have an origin: a point of the run where they were made, and since
which they have been kept (`Tracer.Made.exists_origin`). The same goes for the rows that a rendering returns
(`Tracer.Made.render_origin`).
-/

namespace TraceDisasm

namespace Tracer

variable {s t u : Tracer} {bank : Bank}

/-! ## What a move keeps of a bank -/

/-- All that a listing of a bank is made from is as before, except that there may be new labels outside the bank. -/
structure Keeps (s t : Tracer) (bank : Bank) : Prop where
  config : t.config = s.config
  stem : t.symbols.stem = s.symbols.stem
  byte : ∀ address, bank.contains address = true → t.memory.read address = s.memory.read address
  word : ∀ address, bank.contains address = true → t.traceAt address = s.traceAt address
  labels : ∀ address, bank.contains address = true → t.symbols.contains address = s.symbols.contains address
  grown : ∀ address, s.symbols.contains address = true → t.symbols.contains address = true

namespace Keeps

/-- A listing is not made from the registry and the subscriptions. -/
theorem of_eq (hconfig : t.config = s.config) (hmemory : t.memory = s.memory)
    (hclassification : t.classification = s.classification) (hsymbols : t.symbols = s.symbols) : s.Keeps t bank where
  config := hconfig
  stem := by rw [hsymbols]
  byte _ _ := by rw [hmemory]
  word _ _ := by rw [traceAt, traceAt, hclassification]
  labels _ _ := by rw [hsymbols]
  grown _ h := by rw [hsymbols]; exact h

theorem refl (s : Tracer) (bank : Bank) : s.Keeps s bank := of_eq rfl rfl rfl rfl

theorem trans (h : s.Keeps t bank) (h' : t.Keeps u bank) : s.Keeps u bank where
  config := h'.config.trans h.config
  stem := h'.stem.trans h.stem
  byte address hin := (h'.byte address hin).trans (h.byte address hin)
  word address hin := (h'.word address hin).trans (h.word address hin)
  labels address hin := (h'.labels address hin).trans (h.labels address hin)
  grown address hlabel := h'.grown address (h.grown address hlabel)

theorem congr {other : Bank} (hextent : bank.extent = other.extent) (h : s.Keeps t other) : s.Keeps t bank := by
  have hcontains := Bank.contains_congr hextent
  obtain ⟨config, stem, byte, word, labels, grown⟩ := h
  rw [← hcontains] at byte word labels
  exact ⟨config, stem, byte, word, labels, grown⟩

/-- What is learned about an address outside a bank. -/
theorem learned {address : UInt32} {word : Access} {classification : Classification} (registry : Registry)
    (kind : Access) (hget : ∀ other, classification.get other = if other = address then word else s.traceAt other)
    (hout : ¬ bank.contains address = true) :
    s.Keeps
      { s with classification := classification, symbols := label s.symbols address kind, registry := registry }
      bank where
  config := rfl
  stem := stem_label ..
  byte _ _ := rfl
  word other hin := by
    have hne : other ≠ address := fun h => hout (h ▸ hin)
    rw [traceAt, hget, if_neg hne]
  labels other hin := by
    have hne : address ≠ other := fun h => hout (h ▸ hin)
    simp [hne]
  grown other h := by simp [h]

/-- An access that tells nothing new. If it is to a branch target, then this is one already and has its label. -/
theorem noted (sound : s.Sound) {address : UInt32} {kind : Access}
    (heffect : s.classification.accessEffect address kind = .unchanged) :
    s.Keeps { s with symbols := label s.symbols address kind } bank := by
  have old : ∀ other, (label s.symbols address kind).contains other = s.symbols.contains other := by
    intro other
    rw [contains_label, Bool.or_eq_right_iff_imp]
    intro h
    rw [Bool.and_eq_true, beq_iff_eq] at h
    rw [← h.2]
    exact sound.contains_of_unchanged heffect h.1
  exact ⟨rfl, stem_label .., fun _ _ => rfl, fun _ _ => rfl, fun other _ => old other, fun other h => by rwa [old other]⟩

/-- A new BIOS, for the other banks. -/
theorem biosReplaced {image : List UInt8} {memory : Memory} (registry : Registry)
    (hmemory : s.memory.replaceBios image = .ok memory) (placed : bank.Placed) (hid : bank.id ≠ .bios) :
    s.Keeps { s with memory := memory, registry := registry } bank := by
  refine ⟨rfl, rfl, fun address hin => ?_, fun _ _ => rfl, fun _ _ => rfl, fun _ h => h⟩
  have hhi : address.toNat < Address.spaceSize := Nat.lt_of_lt_of_le (Bank.contains_iff.1 hin).2 placed.stop_le
  exact s.memory.read_replaceBios hmemory (placed.ramStart_le hid hin) hhi

theorem viewOf (h : s.Keeps t bank) (placed : bank.Placed) : t.viewOf bank = s.viewOf bank := by
  have inside : ∀ address ∈ bank.addresses, bank.contains address = true := fun address => placed.mem_addresses.1
  unfold Tracer.viewOf
  rw [List.map_congr_left fun address hmem => h.byte address (inside address hmem),
    List.map_congr_left fun address hmem => h.word address (inside address hmem)]

theorem agreeOn (h : s.Keeps t bank) (placed : bank.Placed) :
    s.symbols.AgreeOn t.symbols bank.start bank.size where
  stem := h.stem.symm
  contains i hi := (h.labels _ (placed.contains_iff_exists.2 ⟨i, hi, rfl⟩)).symm

/-- A label that was there is there still. -/
theorem labelAt_eq_some (h : s.Keeps t bank) {address : UInt32} {label : String}
    (hlabel : s.labelAt address = some label) : t.labelAt address = some label := by
  unfold labelAt at *
  rw [Symbols.lookup_eq_some_iff] at *
  exact ⟨h.grown address hlabel.1, by rw [hlabel.2, Symbols.name, Symbols.name, h.stem]⟩

/-- A label that was not there is missing still, or it is outside the bank. -/
theorem labelAt_cases (h : s.Keeps t bank) (address : UInt32) :
    s.labelAt address = t.labelAt address ∨ s.labelAt address = none ∧ ¬ bank.contains address = true := by
  rcases hold : s.labelAt address with _ | label
  · by_cases hin : bank.contains address = true
    · refine .inl ?_
      unfold labelAt Symbols.lookup at *
      rw [h.labels address hin]
      split at hold
      · cases hold
      · next hnone => rw [if_neg hnone]
    · exact .inr ⟨rfl, hin⟩
  · exact .inl (h.labelAt_eq_some hold).symm

end Keeps

/-! ## Banks that a move leaves clean -/

/-- A bank that is clean behind a move is either one that was clean before, with its rows, or it has been listed by the
move. In both cases all that its rows are made from is kept. -/
theorem Sound.clean_cases (sound : s.Sound) (move : Move s t) (hmem : bank ∈ t.registry.banks)
    (hclean : bank.dirty = false) :
    ∃ old ∈ s.registry.banks, bank.extent = old.extent ∧ s.Keeps t old ∧
      (old.dirty = false ∧ bank.rows = old.rows ∨ old.current? = none ∧ bank.rows = some (s.list old)) := by
  cases move with
  | idle => exact ⟨bank, hmem, rfl, .refl s bank, .inl ⟨hclean, rfl⟩⟩
  | noted address kind heffect => exact ⟨bank, hmem, rfl, .noted sound heffect, .inl ⟨hclean, rfl⟩⟩
  | learned address kind previous current hspace heffect =>
    have hbound : address.toNat < Address.spaceSize := UInt32.lt_iff_toNat_lt.1 hspace
    simp only [sound.arranged.invalidateAt_eq address] at hmem
    obtain ⟨old, hold, rfl⟩ := List.mem_map.1 hmem
    by_cases hin : old.contains address = true
    · simp [hin, Bank.invalidate] at hclean
    · rw [if_neg hin] at hclean ⊢
      exact ⟨old, hold, rfl, .learned _ kind (s.classification.get_apply hbound previous current) hin,
        .inl ⟨hclean, rfl⟩⟩
  | forced address kind target hcovering =>
    have hbound := sound.arranged.lt_spaceSize hcovering
    simp only [sound.arranged.modify_covering hcovering] at hmem
    obtain ⟨old, hold, rfl⟩ := List.mem_map.1 hmem
    by_cases hin : old.contains address = true
    · simp [hin, Bank.invalidateAnnounced] at hclean
    · rw [if_neg hin] at hclean ⊢
      exact ⟨old, hold, rfl, .learned _ kind (s.classification.get_apply_between hbound kind.persistent) hin,
        .inl ⟨hclean, rfl⟩⟩
  | announced =>
    obtain ⟨old, hold, rfl⟩ := List.mem_map.1 hmem
    exact ⟨old, hold, rfl, .of_eq rfl rfl rfl rfl, .inl ⟨hclean, rfl⟩⟩
  | subscribed subscriptions => exact ⟨bank, hmem, rfl, .of_eq rfl rfl rfl rfl, .inl ⟨hclean, rfl⟩⟩
  | listed target hget hcurrent =>
    obtain ⟨old, hold, rfl⟩ := List.mem_map.1 hmem
    by_cases hid : old.id = target.id
    · obtain rfl := sound.arranged.eq_of_id_eq hold (sound.arranged.get?_eq_some_iff.1 hget).1 hid
      rw [if_pos rfl]
      exact ⟨old, hold, rfl, .of_eq rfl rfl rfl rfl, .inr ⟨hcurrent, rfl⟩⟩
    · rw [if_neg hid] at hclean ⊢
      exact ⟨old, hold, rfl, .of_eq rfl rfl rfl rfl, .inl ⟨hclean, rfl⟩⟩
  | rebuilt memory =>
    rw [Registry.dirty_ofCartridgeEnd hmem] at hclean
    cases hclean
  | biosReplaced image memory hmemory =>
    obtain ⟨old, hold, rfl⟩ := List.mem_map.1 hmem
    by_cases hid : old.id = .bios
    · simp [hid, Bank.invalidate] at hclean
    · rw [if_neg hid] at hclean ⊢
      exact ⟨old, hold, rfl, .biosReplaced _ hmemory (sound.arranged.placed hold) hid, .inl ⟨hclean, rfl⟩⟩

/-! ## Where the rows of a bank come from -/

/-- Whether a rendering of a bank would show the last listing again. -/
def isListed (tracer : Tracer) (id : BankId) : Bool := ((tracer.registry.get? id).bind Bank.current?).isSome

theorem Sound.isListed_of_clean (sound : s.Sound) (hmem : bank ∈ s.registry.banks) (hclean : bank.dirty = false) :
    s.isListed bank.id = true := by
  unfold isListed
  rw [sound.arranged.get?_eq_some_iff.2 ⟨hmem, rfl⟩]
  exact (sound.stored bank hmem).current?_isSome_iff.2 hclean

theorem Sound.not_isListed (sound : s.Sound) (hmem : bank ∈ s.registry.banks) (hcurrent : bank.current? = none) :
    s.isListed bank.id = false := by
  unfold isListed
  rw [sound.arranged.get?_eq_some_iff.2 ⟨hmem, rfl⟩, Option.bind_some, hcurrent]
  rfl

/-- The rows of a bank were made at the end of `before`, for want of a current listing, and have been kept ever since. -/
structure Origin (start : Tracer) (before since : List Command) (bank : Bank) (rows : List Row) : Prop where
  unlisted : (start.run before).1.isListed bank.id = false
  listed : ∀ more, more ≠ [] → more <+: since → (start.run (before ++ more)).1.isListed bank.id = true
  made : rows = (start.run before).1.list bank
  /-- A rendering behind `before` shows these rows. -/
  rendered : ∃ after, (start.run before).1.render bank.id = .ok (after, rows)
  keeps : (start.run before).1.Keeps (start.run (before ++ since)).1 bank

theorem list_congr {old : Bank} (hextent : bank.extent = old.extent) (s : Tracer) : s.list bank = s.list old := by
  unfold list view?
  rw [Bank.start_congr hextent, (Bank.extent_eq_iff.1 hextent).2]

/-- Every clean bank has rows, and these have an origin. The induction is on the last command of the run. -/
theorem Made.exists_origin {start : Tracer} (made : Made start) {commands : List Command}
    (quiet : ∀ command ∈ commands, command.mutatesMemory = false)
    (hmem : bank ∈ (start.run commands).1.registry.banks) (hclean : bank.dirty = false) :
    ∃ before since rows, commands = before ++ since ∧ bank.rows = some rows ∧ Origin start before since bank rows := by
  induction commands using List.reverseRecOn generalizing bank with
  | nil =>
    rw [made.dirty hmem] at hclean
    cases hclean
  | append_singleton commands command ih =>
    have sound := made.sound_run commands
    have move := (start.run commands).1.perform_move (quiet command (by simp))
    have final := (made.sound_run (commands ++ [command])).isListed_of_clean hmem hclean
    rw [run_append, run_cons, run_nil] at hmem
    obtain ⟨old, hold, hextent, keeps, ⟨holdClean, hrows⟩ | ⟨hcurrent, hrows⟩⟩ := sound.clean_cases move hmem hclean
    · obtain ⟨before, since, rows, rfl, holdRows, origin⟩ :=
        ih (fun command hcommand => quiet command (by simp [hcommand])) hold holdClean
      have hid := (Bank.extent_eq_iff.1 hextent).1
      refine ⟨before, since ++ [command], rows, by simp, hrows.trans holdRows, ?_, ?_, ?_, ?_, ?_⟩
      · rw [hid]
        exact origin.unlisted
      · intro more hmore hprefix
        rcases List.prefix_concat_iff.1 hprefix with rfl | hprefix
        · rw [← List.append_assoc]
          exact final
        · rw [hid]
          exact origin.listed more hmore hprefix
      · rw [list_congr hextent]
        exact origin.made
      · rw [hid]
        exact origin.rendered
      · rw [← List.append_assoc, run_append _ (before ++ since)]
        exact (origin.keeps.trans keeps).congr hextent
    · have hid := (Bank.extent_eq_iff.1 hextent).1
      refine ⟨commands, [command], _, rfl, hrows, ?_, ?_, ?_, ?_, ?_⟩
      · rw [hid]
        exact sound.not_isListed hold hcurrent
      · intro more hmore hprefix
        rcases List.prefix_concat_iff.1 (show more <+: [] ++ [command] from hprefix) with rfl | hprefix
        · exact final
        · exact absurd (List.prefix_nil.1 hprefix) hmore
      · exact (list_congr hextent _).symm
      · have hget := sound.arranged.get?_eq_some_iff.2 ⟨hold, hid.symm⟩
        exact ⟨_, render_eq_ok_iff.2 ⟨old, hget, .inr ⟨hcurrent, rfl, rfl⟩⟩⟩
      · rw [run_append]
        exact keeps.congr hextent

/-- What a rendering shows was made in the course of the run, maybe only by the rendering. -/
theorem Made.render_origin {start : Tracer} (made : Made start) {commands : List Command}
    (quiet : ∀ command ∈ commands, command.mutatesMemory = false) {id : BankId} {after : Tracer} {rows : List Row}
    (h : (start.run commands).1.render id = .ok (after, rows)) :
    ∃ before since, commands = before ++ since ∧
      ∃ bank ∈ (start.run commands).1.registry.banks, bank.id = id ∧ Origin start before since bank rows := by
  have sound := made.sound_run commands
  obtain ⟨bank, hget, hrendered⟩ := render_eq_ok_iff.1 h
  obtain ⟨hmem, hid⟩ := sound.arranged.get?_eq_some_iff.1 hget
  rcases hrendered with ⟨hcurrent, -⟩ | ⟨hcurrent, hrows, -⟩
  · obtain ⟨hclean, hrows⟩ := Bank.current?_eq_some_iff.1 hcurrent
    obtain ⟨before, since, rows', hsplit, hrows', origin⟩ := made.exists_origin quiet hmem hclean
    rw [hrows, Option.some.injEq] at hrows'
    exact ⟨before, since, hsplit, bank, hmem, hid, hrows' ▸ origin⟩
  · refine ⟨commands, [], by simp, bank, hmem, hid, sound.not_isListed hmem hcurrent, ?_, hrows, ⟨after, hid ▸ h⟩, ?_⟩
    · intro more hmore hprefix
      exact absurd (List.prefix_nil.1 hprefix) hmore
    · rw [List.append_nil]
      exact .refl _ bank

end Tracer

end TraceDisasm
