import TraceDisasm.Proofs.BankContents
import TraceDisasm.Session

/-!
# What commands do to a tracer

There are fifteen commands, but only a few ways in which one of them changes the state (`Tracer.Move`). Every command moves
the tracer in one of these ways, unless it changes memory behind its back (`Tracer.perform_move`), so what is said about
moves is said about commands.

Three facts hold in every state that commands lead to (`Tracer.Sound`): the banks are those of a cartridge, a bank that
is not dirty has a listing, and an address that is known as a branch target has a label.
-/

namespace TraceDisasm

/-! ## Commands on memory -/

/-- Whether a command on memory can change a byte. -/
def MemoryCommand.mutates : MemoryCommand → Bool
  | .read _ => false
  | .write address _ => Memory.isRam address
  | .replaceBios _ | .insertCartridge _ | .eject => true

/-- Whether a command can change memory behind the back of the tracer. -/
def Command.mutatesMemory : Command → Bool
  | .memory command => command.mutates
  | _ => false

/-- Whether a command asks for the listing of a bank. -/
def Command.asksListing : Command → Bool
  | .render _ | .renderNamed _ | .rowIndex _ _ | .rowIndexAtPc _ _ => true
  | _ => false

theorem Memory.perform_fst_of_not_mutates (memory : Memory) {command : MemoryCommand} (h : command.mutates = false) :
    (memory.perform command).1 = memory := by
  cases command with
  | read _ => rfl
  | write _ _ => exact memory.write_eq_self h
  | replaceBios _ | insertCartridge _ | eject => simp [MemoryCommand.mutates] at h

/-! ## Banks and their listings -/

namespace Bank

/-- There is a listing unless the bank is dirty. -/
def Stored (bank : Bank) : Prop := bank.dirty = false → bank.rows.isSome = true

variable {bank : Bank} {rows : List Row}

theorem stored_invalidate (bank : Bank) : bank.invalidate.Stored := by
  simp [Stored, invalidate]

theorem stored_invalidateAnnounced (bank : Bank) : bank.invalidateAnnounced.Stored := by
  simp [Stored, invalidateAnnounced]

theorem stored_listed (bank : Bank) (rows : List Row) : (bank.listed rows).Stored := by
  simp [Stored, listed]

theorem Stored.settle (h : bank.Stored) : bank.settle.Stored := h

theorem current?_eq_some_iff : bank.current? = some rows ↔ bank.dirty = false ∧ bank.rows = some rows := by
  unfold current?
  split <;> simp_all

theorem Stored.current?_isSome_iff (h : bank.Stored) : bank.current?.isSome = true ↔ bank.dirty = false := by
  unfold current?
  constructor
  · intro hcurrent
    by_cases hdirty : bank.dirty = true
    · simp [hdirty] at hcurrent
    · simpa using hdirty
  · intro hdirty
    simp [hdirty, h hdirty]

end Bank

/-- The banks of a new cartridge have no listings. -/
theorem Registry.dirty_ofCartridgeEnd {cartridgeEnd : UInt32} {bank : Bank}
    (h : bank ∈ (ofCartridgeEnd cartridgeEnd).banks) : bank.dirty = true := by
  rcases mem_ofCartridgeEnd_iff.1 h with rfl | rfl | ⟨page, -, rfl⟩ <;> rfl

namespace Registry

variable {registry : Registry} {change : Bank → Bank}

/-- A change to some of the banks keeps what it keeps of each. -/
theorem forall_map {P : Bank → Prop} (h : ∀ bank ∈ registry.banks, P bank)
    (hchange : ∀ bank, P bank → P (change bank)) : ∀ bank ∈ registry.banks.map change, P bank := by
  intro bank hmem
  obtain ⟨old, hold, rfl⟩ := List.mem_map.1 hmem
  exact hchange old (h old hold)

theorem stored_modify (h : ∀ bank ∈ registry.banks, bank.Stored) (id : BankId)
    (hchange : ∀ bank, (change bank).Stored) : ∀ bank ∈ (registry.modify id change).banks, bank.Stored := by
  refine forall_map h fun bank hbank => ?_
  split
  · exact hchange bank
  · exact hbank

theorem Arranged.modify (h : registry.Arranged) (id : BankId) (hchange : ∀ bank, (change bank).extent = bank.extent) :
    (registry.modify id change).Arranged := by
  refine h.map fun bank => ?_
  split
  · exact hchange bank
  · rfl

/-- An invalidation changes one bank or none. -/
theorem invalidateAt_cases (registry : Registry) (address : UInt32) :
    registry.invalidateAt address = registry ∨
      ∃ id, registry.invalidateAt address = registry.modify id Bank.invalidate := by
  unfold invalidateAt
  split
  · exact .inr ⟨_, rfl⟩
  · exact .inl rfl

end Registry

namespace Tracer

/-! ## Moves -/

/-- The ways in which an operation changes the state. -/
inductive Move (s : Tracer) : Tracer → Prop
  /-- Nothing happens. -/
  | idle : Move s s
  /-- An access tells nothing new about its address. -/
  | noted (address : UInt32) (kind : Access) :
      s.classification.accessEffect address kind = .unchanged →
        Move s { s with symbols := label s.symbols address kind }
  /-- An access gives its address another word. -/
  | learned (address : UInt32) (kind previous current : Access) :
      address < Address.spaceEnd → s.classification.accessEffect address kind = .changed previous current →
        Move s
          { s with
            classification := s.classification.apply address (.changed previous current)
            symbols := label s.symbols address kind
            registry := s.registry.invalidateAt address }
  /-- A word is forced onto an address of a bank. -/
  | forced (address : UInt32) (kind : Access) (bank : Bank) :
      s.registry.covering? address = some bank →
        Move s
          { s with
            classification := s.classification.apply address (s.classification.forceEffect address kind)
            symbols := label s.symbols address kind
            registry := s.registry.modify bank.id Bank.invalidateAnnounced }
  /-- All changes are announced. -/
  | announced : Move s { s with registry := s.registry.settle }
  /-- A subscription is made or ended. -/
  | subscribed (subscriptions : Subscriptions) : Move s { s with subscriptions := subscriptions }
  /-- A bank is listed anew. -/
  | listed (bank : Bank) :
      s.registry.get? bank.id = some bank → bank.current? = none →
        Move s { s with registry := s.registry.modify bank.id (·.listed (s.list bank)) }
  /-- The banks are made for the cartridge in memory. -/
  | rebuilt (memory : Memory) : Move s { s with memory := memory }.reset
  /-- The BIOS is replaced. -/
  | biosReplaced (image : List UInt8) (memory : Memory) :
      s.memory.replaceBios image = .ok memory →
        Move s { s with memory := memory, registry := s.registry.modify .bios Bank.invalidate }

variable {s t : Tracer}

theorem observe_eq {address : UInt32} {kind previous current : Access} {value : UInt8}
    (hspace : ¬ Address.spaceEnd ≤ address)
    (heffect : s.classification.accessEffect address kind = .changed previous current) :
    s.observe address kind value =
      { s with
        classification := s.classification.apply address (.changed previous current)
        symbols := label s.symbols address kind
        registry := s.registry.invalidateAt address } := by
  rw [observe, if_neg hspace, heffect]

theorem observe_move (s : Tracer) (address : UInt32) (kind : Access) (value : UInt8) :
    Move s (s.observe address kind value) := by
  rw [observe]
  split
  · exact .idle
  · next hspace =>
    split
    · exact .idle
    · next heffect => exact .noted address kind heffect
    · next previous current heffect => exact .learned address kind previous current (UInt32.not_le.1 hspace) heffect

/-- A word is forced onto an address if a bank covers it, and the subscribers of the bank are told. -/
theorem forced_cases (s : Tracer) (address : UInt32) (kind : Access) :
    s.registry.covering? address = none ∧ s.forced address kind = (s, .quiet (.found false)) ∨
      ∃ bank, s.registry.covering? address = some bank ∧
        s.forced address kind =
          ({ s with
            classification := s.classification.apply address (s.classification.forceEffect address kind)
            symbols := label s.symbols address kind
            registry := s.registry.modify bank.id Bank.invalidateAnnounced },
          ⟨.found true, (s.subscriptions.publish bank.summary).map .notified⟩) := by
  rw [forced, force]
  rcases hcovering : s.registry.covering? address with _ | bank
  · exact .inl ⟨rfl, rfl⟩
  · exact .inr ⟨bank, rfl, rfl⟩

theorem forced_move (s : Tracer) (address : UInt32) (kind : Access) : Move s (s.forced address kind).1 := by
  rcases s.forced_cases address kind with ⟨-, hforced⟩ | ⟨bank, hcovering, hforced⟩
  · rw [hforced]
    exact .idle
  · rw [hforced]
    exact .forced address kind bank hcovering

/-- What a rendering gives: the listing of the bank as it stands, or a new one, which is kept. -/
theorem render_eq_ok_iff {id : BankId} {rows : List Row} :
    s.render id = .ok (t, rows) ↔ ∃ bank, s.registry.get? id = some bank ∧
      (bank.current? = some rows ∧ t = s ∨
        bank.current? = none ∧ rows = s.list bank ∧
          t = { s with registry := s.registry.modify id (·.listed (s.list bank)) }) := by
  rw [render]
  rcases hget : s.registry.get? id with _ | bank
  · simp
  · rcases hcurrent : bank.current? with _ | old
    · simp [hcurrent, eq_comm, and_comm]
    · simp [hcurrent, eq_comm, and_comm]

/-- A bank that is there can be listed. -/
theorem exists_render (arranged : s.registry.Arranged) {bank : Bank} (hmem : bank ∈ s.registry.banks) :
    ∃ t rows, s.render bank.id = .ok (t, rows) := by
  have hget := arranged.get?_eq_some_iff.2 ⟨hmem, rfl⟩
  rcases hcurrent : bank.current? with _ | rows
  · exact ⟨_, _, render_eq_ok_iff.2 ⟨bank, hget, .inr ⟨hcurrent, rfl, rfl⟩⟩⟩
  · exact ⟨_, _, render_eq_ok_iff.2 ⟨bank, hget, .inl ⟨hcurrent, rfl⟩⟩⟩

theorem render_move {id : BankId} {rows : List Row} (h : s.render id = .ok (t, rows)) : Move s t := by
  obtain ⟨bank, hget, ⟨-, rfl⟩ | ⟨hcurrent, -, rfl⟩⟩ := render_eq_ok_iff.1 h
  · exact .idle
  · have hid : bank.id = id := by simpa using List.find?_some hget
    rw [← hid] at hget ⊢
    exact .listed bank hget hcurrent

theorem rowIndex_renders {id : BankId} {address : UInt32} {index : Option Nat}
    (h : s.rowIndex id address = .ok (t, index)) : ∃ rows, s.render id = .ok (t, rows) := by
  obtain ⟨⟨after, rows⟩, hrender, heq⟩ := exists_of_map_eq_ok h
  cases heq
  exact ⟨rows, hrender⟩

theorem rowIndexAtPc_renders {pc : UInt16} {codeBank : UInt8} {place : Option (BankId × Nat)}
    (h : s.rowIndexAtPc pc codeBank = .ok (t, place)) : t = s ∨ ∃ id rows, s.render id = .ok (t, rows) := by
  simp only [rowIndexAtPc] at h
  split at h
  · cases h
    exact .inl rfl
  · obtain ⟨⟨after, index⟩, hindex, heq⟩ := exists_of_map_eq_ok h
    cases heq
    exact .inr ⟨_, rowIndex_renders hindex⟩

theorem renderNamed_renders {name : String} {rows : List Row} (h : s.renderNamed name = .ok (t, rows)) :
    ∃ id, s.render id = .ok (t, rows) := by
  rw [renderNamed] at h
  rcases hid : BankId.ofText name with _ | id
  · rw [hid] at h
    cases h
  · rw [hid] at h
    exact ⟨id, h⟩

/-- A command that may fail leaves the state as it is or gives the one of its success. -/
theorem settled_cases {α : Type} (s : Tracer) (result : Except Error (Tracer × α)) (reply : α → Reply) :
    (s.settled result reply).1 = s ∨ ∃ answer, result = .ok ((s.settled result reply).1, answer) := by
  rcases result with _ | ⟨t, answer⟩
  · exact .inl rfl
  · exact .inr ⟨answer, rfl⟩

/-- A command that asks for a listing changes nothing, or does what a rendering does. -/
theorem perform_renders (s : Tracer) {command : Command} (h : command.asksListing = true) :
    (s.perform command).1 = s ∨ ∃ id rows, s.render id = .ok ((s.perform command).1, rows) := by
  cases command with
  | render bank => exact (s.settled_cases (s.render bank) .listing).imp_right fun ⟨rows, hrender⟩ => ⟨bank, rows, hrender⟩
  | renderNamed name =>
    refine (s.settled_cases (s.renderNamed name) .listing).imp_right fun ⟨rows, hrender⟩ => ?_
    obtain ⟨id, hrender⟩ := renderNamed_renders hrender
    exact ⟨id, rows, hrender⟩
  | rowIndex bank address =>
    exact (s.settled_cases (s.rowIndex bank address) .row).imp_right fun ⟨_, hindex⟩ => ⟨bank, rowIndex_renders hindex⟩
  | rowIndexAtPc pc codeBank =>
    rcases s.settled_cases (s.rowIndexAtPc pc codeBank) .place with hsame | ⟨place, hplace⟩
    · exact .inl hsame
    · exact rowIndexAtPc_renders hplace
  | _ => cases h

theorem asksListing_move (s : Tracer) {command : Command} (h : command.asksListing = true) :
    Move s (s.perform command).1 := by
  rcases s.perform_renders h with hsame | ⟨id, rows, hrender⟩
  · rw [hsame]
    exact .idle
  · exact render_move hrender

/-- A change of cartridge or BIOS fails and leaves the state as it is, or succeeds. -/
theorem settled_done_cases (s : Tracer) (result : Except Error Tracer) :
    (∃ error, result = .error error) ∧ (s.settled (result.map ((·, ()))) fun _ => .done).1 = s ∨
      ∃ t, result = .ok t ∧ (s.settled (result.map ((·, ()))) fun _ => .done).1 = t := by
  rcases result with error | t
  · exact .inl ⟨⟨error, rfl⟩, rfl⟩
  · exact .inr ⟨t, rfl, rfl⟩

/-- A cartridge is refused, or the banks are made for other memory. -/
theorem perform_insertCartridge (s : Tracer) (image : List UInt8) :
    (∃ error, s.insertCartridge image = .error error) ∧ (s.perform (.insertCartridge image)).1 = s ∨
      ∃ memory, s.insertCartridge image = .ok { s with memory := memory }.reset ∧
        (s.perform (.insertCartridge image)).1 = { s with memory := memory }.reset := by
  rcases s.settled_done_cases (s.insertCartridge image) with hfailed | ⟨t, hinsert, hnext⟩
  · exact .inl hfailed
  · obtain ⟨memory, -, rfl⟩ := exists_of_map_eq_ok hinsert
    exact .inr ⟨memory, hinsert, hnext⟩

/-- A BIOS is refused, or it is in memory and its bank is changed. -/
theorem perform_replaceBios (s : Tracer) (image : List UInt8) :
    (∃ error, s.replaceBios image = .error error) ∧ (s.perform (.replaceBios image)).1 = s ∨
      ∃ memory, s.memory.replaceBios image = .ok memory ∧ (∃ t, s.replaceBios image = .ok t) ∧
        (s.perform (.replaceBios image)).1 =
          { s with memory := memory, registry := s.registry.modify .bios Bank.invalidate } := by
  rcases s.settled_done_cases (s.replaceBios image) with hfailed | ⟨t, hreplace, hnext⟩
  · exact .inl hfailed
  · obtain ⟨memory, hmemory, rfl⟩ := exists_of_map_eq_ok hreplace
    exact .inr ⟨memory, hmemory, ⟨_, hreplace⟩, hnext⟩

/-- A command moves the tracer, unless it changes memory behind its back. -/
theorem perform_move (s : Tracer) {command : Command} (h : command.mutatesMemory = false) :
    Move s (s.perform command).1 := by
  cases command with
  | observe address kind value => exact s.observe_move address kind value
  | force address kind => exact s.forced_move address kind
  | override address as => exact s.forced_move address as.access
  | update => exact .announced
  | render _ | renderNamed _ | rowIndex _ _ | rowIndexAtPc _ _ => exact s.asksListing_move rfl
  | subscribe bank => exact .subscribed _
  | unsubscribe number => exact .subscribed _
  | reset => exact .rebuilt s.memory
  | insertCartridge image =>
    rcases s.perform_insertCartridge image with ⟨-, hsame⟩ | ⟨memory, -, hnext⟩
    · rw [hsame]
      exact .idle
    · rw [hnext]
      exact .rebuilt memory
  | replaceBios image =>
    rcases s.perform_replaceBios image with ⟨-, hsame⟩ | ⟨memory, hmemory, -, hnext⟩
    · rw [hsame]
      exact .idle
    · rw [hnext]
      exact .biosReplaced image memory hmemory
  | eject => exact .rebuilt _
  | memory command =>
    simp only [Command.mutatesMemory] at h
    simp only [perform, s.memory.perform_fst_of_not_mutates h]
    exact .idle

/-! ## Runs -/

@[simp] theorem run_nil (s : Tracer) : (s.run []).1 = s := rfl

@[simp] theorem run_cons (s : Tracer) (command : Command) (commands : List Command) :
    (s.run (command :: commands)).1 = ((s.perform command).1.run commands).1 := rfl

@[simp] theorem run_append (s : Tracer) (before after : List Command) :
    (s.run (before ++ after)).1 = ((s.run before).1.run after).1 := by
  induction before generalizing s with
  | nil => rfl
  | cons command before ih => simp [ih]

/-- A tracer as it is made, with the standard configuration or with one of its own. -/
inductive Made : Tracer → Prop
  | new : Made new
  | configured (config : Config) {tracer : Tracer} : withConfig config = .ok tracer → Made tracer

theorem Made.exists_config {start : Tracer} (h : Made start) : ∃ config, start = ofConfig config := by
  cases h with
  | new => exact ⟨_, rfl⟩
  | configured config hmade =>
    obtain ⟨valid, -, rfl⟩ := exists_of_map_eq_ok hmade
    exact ⟨valid, rfl⟩

theorem Made.dirty {start : Tracer} (h : Made start) {bank : Bank} (hmem : bank ∈ start.registry.banks) :
    bank.dirty = true := by
  obtain ⟨config, rfl⟩ := h.exists_config
  exact Registry.dirty_ofCartridgeEnd hmem

/-! ## What always holds -/

@[simp] theorem contains_label (symbols : Symbols) (address : UInt32) (kind : Access) (other : UInt32) :
    (label symbols address kind).contains other =
      (kind.has .branchTarget && address == other || symbols.contains other) := by
  rw [label]
  split <;> simp_all

@[simp] theorem stem_label (symbols : Symbols) (address : UInt32) (kind : Access) :
    (label symbols address kind).stem = symbols.stem := by
  unfold label
  split <;> rfl

/-- The facts that hold in every state. -/
structure Sound (tracer : Tracer) : Prop where
  arranged : tracer.registry.Arranged
  stored : ∀ bank ∈ tracer.registry.banks, bank.Stored
  /-- What is known as a branch target has a label. -/
  named : ∀ address, (tracer.traceAt address).has .branchTarget = true → tracer.symbols.contains address = true

/-- A word that an access or an operator gives an address keeps branch targets named. -/
theorem Sound.named_label (sound : s.Sound) {classification : Classification} {address : UInt32} {kind word : Access}
    (hget : ∀ other, classification.get other = if other = address then word else s.traceAt other)
    (hword : word = kind.persistent ∨ word = (s.traceAt address).union kind.persistent) (other : UInt32)
    (h : (classification.get other).has .branchTarget = true) :
    (label s.symbols address kind).contains other = true := by
  have hpersistent : kind.persistent.has .branchTarget = kind.has .branchTarget :=
    kind.has_persistent (by decide) (by decide)
  rw [hget] at h
  rw [contains_label]
  by_cases hsame : other = address
  · rw [if_pos hsame] at h
    rcases hword with rfl | rfl
    · rw [hpersistent] at h
      simp [h, hsame]
    · rw [Access.has_union, hpersistent, Bool.or_eq_true] at h
      rcases h with h | h
      · simp [hsame, sound.named address h]
      · simp [h, hsame]
  · rw [if_neg hsame] at h
    simp [sound.named other h]

/-- A branch target that is nothing new has its label. -/
theorem Sound.contains_of_unchanged (sound : s.Sound) {address : UInt32} {kind : Access}
    (heffect : s.classification.accessEffect address kind = .unchanged) (h : kind.has .branchTarget = true) :
    s.symbols.contains address = true := by
  have hpersistent : kind.persistent.has .branchTarget = true := by
    rw [kind.has_persistent (by decide) (by decide), h]
  refine sound.named address ?_
  unfold traceAt
  rcases s.classification.accessEffect_eq_unchanged heffect with hword | hword
  · rw [hword, hpersistent]
  · rw [hword, Access.has_union, hpersistent, Bool.or_true]

theorem Sound.ofConfig (config : Config) : (ofConfig config).Sound := by
  refine ⟨.ofCartridgeEnd 0, ?_, ?_⟩
  · intro bank hmem hclean
    rw [Registry.dirty_ofCartridgeEnd hmem] at hclean
    cases hclean
  · intro address h
    simp [traceAt, Tracer.ofConfig] at h

theorem Sound.move (sound : s.Sound) (move : Move s t) : t.Sound := by
  cases move with
  | idle => exact sound
  | noted address kind heffect =>
    refine ⟨sound.arranged, sound.stored, fun other h => ?_⟩
    simp [sound.named other h]
  | learned address kind previous current hspace heffect =>
    have hbound : address.toNat < Address.spaceSize := UInt32.lt_iff_toNat_lt.1 hspace
    obtain ⟨-, hword⟩ := s.classification.accessEffect_eq_changed heffect
    have named := sound.named_label (s.classification.get_apply hbound previous current) hword
    rcases s.registry.invalidateAt_cases address with hregistry | ⟨id, hregistry⟩
    · rw [hregistry]
      exact ⟨sound.arranged, sound.stored, named⟩
    · rw [hregistry]
      exact ⟨sound.arranged.modify id fun _ => rfl, Registry.stored_modify sound.stored id Bank.stored_invalidate, named⟩
  | forced address kind bank hcovering =>
    have hbound := sound.arranged.lt_spaceSize hcovering
    exact ⟨sound.arranged.modify _ fun _ => rfl,
      Registry.stored_modify sound.stored _ Bank.stored_invalidateAnnounced,
      sound.named_label (s.classification.get_apply_between hbound kind.persistent) (.inl rfl)⟩
  | announced =>
    exact ⟨sound.arranged.map fun _ => rfl, Registry.forall_map sound.stored fun _ h => h.settle, sound.named⟩
  | subscribed subscriptions => exact ⟨sound.arranged, sound.stored, sound.named⟩
  | listed bank hget hcurrent =>
    exact ⟨sound.arranged.modify _ fun _ => rfl,
      Registry.stored_modify sound.stored _ fun other => other.stored_listed _, sound.named⟩
  | rebuilt memory =>
    refine ⟨.ofCartridgeEnd _, ?_, fun address h => ?_⟩
    · intro bank hmem hclean
      rw [Registry.dirty_ofCartridgeEnd hmem] at hclean
      cases hclean
    · simp only [traceAt, reset, Classification.get_clearFrom] at h
      by_cases hlow : address < Address.ramStart
      · rw [if_pos hlow] at h
        simp [reset, hlow, sound.named address h]
      · rw [if_neg hlow] at h
        simp at h
  | biosReplaced image memory hmemory =>
    exact ⟨sound.arranged.modify _ fun _ => rfl, Registry.stored_modify sound.stored _ Bank.stored_invalidate,
      sound.named⟩

/-- Changes to memory touch nothing that soundness is about. -/
theorem Sound.withMemory (sound : s.Sound) (memory : Memory) : Sound { s with memory := memory } :=
  ⟨sound.arranged, sound.stored, sound.named⟩

theorem Sound.perform (sound : s.Sound) (command : Command) : (s.perform command).1.Sound := by
  by_cases h : command.mutatesMemory = true
  · cases command with
    | memory command => exact sound.withMemory _
    | _ => simp [Command.mutatesMemory] at h
  · exact sound.move (s.perform_move (by simpa using h))

theorem Sound.run (sound : s.Sound) (commands : List Command) : (s.run commands).1.Sound := by
  induction commands generalizing s with
  | nil => exact sound
  | cons command commands ih => exact ih (sound.perform command)

/-- **Every state that a run leads to is sound.** -/
theorem Made.sound_run (made : Made s) (commands : List Command) : (s.run commands).1.Sound := by
  obtain ⟨config, rfl⟩ := made.exists_config
  exact (Sound.ofConfig config).run commands

end Tracer

end TraceDisasm
