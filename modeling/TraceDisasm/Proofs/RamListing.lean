import TraceDisasm.Proofs.KeptListings

/-!
# The bytes that a listing of the RAM shows

The machine writes to RAM behind the back of the tracer and then reports the write (`Tracer.Reported`). The report makes
the RAM dirty only if it changes the word of the address. So a write of another byte to an address whose word is already
that of the write is missed, and the listing goes on showing the old byte (`Tracer.missed_write`).

No other write is missed. Throughout a run, a rendering of the RAM shows the bytes that are in it just if every report of
the run is noticed: the byte is the old one, or the word another one, or there is no listing to go out of date
(`Tracer.shows_ram_iff_noticed`).
-/

namespace TraceDisasm

/-! ## The bytes of the RAM -/

/-- The bytes that are read in RAM. -/
def Memory.ramBytes (memory : Memory) : List UInt8 :=
  (List.range 0x1000).map fun i => memory.read (Address.ramStart + UInt32.ofNat i)

theorem toNat_ramAddress {i : Nat} (hi : i < 0x1000) : (Address.ramStart + UInt32.ofNat i).toNat = 0x1000 + i := by
  rw [UInt32.toNat_add, Address.toNat_ramStart, UInt32.toNat_ofNat']
  omega

/-- A write changes what is in RAM just if it changes the byte at its address. -/
theorem Memory.ramBytes_write_eq_iff (memory : Memory) {address : UInt32} (hlo : Address.ramStart ≤ address)
    (hhi : address < Address.registersStart) (value : UInt8) :
    (memory.write address value).ramBytes = memory.ramBytes ↔ memory.read address = value := by
  rw [UInt32.le_iff_toNat_le, Address.toNat_ramStart] at hlo
  rw [UInt32.lt_iff_toNat_lt, Address.toNat_registersStart] at hhi
  have hread (other : UInt32) (hother : other.toNat < Address.spaceSize) := memory.read_write hlo hhi value other hother
  unfold ramBytes
  rw [List.map_inj_left]
  constructor
  · intro h
    have hsame := h (address.toNat - 0x1000) (List.mem_range.2 (by omega))
    have haddress : Address.ramStart + UInt32.ofNat (address.toNat - 0x1000) = address := by
      rw [← UInt32.toNat_inj, toNat_ramAddress (by omega)]
      omega
    rw [haddress, hread address (Nat.lt_trans hhi (by decide)), if_pos rfl] at hsame
    exact hsame.symm
  · intro h i hi
    have hi : i < 0x1000 := List.mem_range.1 hi
    rw [hread _ (by rw [toNat_ramAddress hi, Address.spaceSize]; omega)]
    split
    · next hsame => rw [hsame, h]
    · rfl

theorem Bank.Placed.addresses_ram {bank : Bank} (placed : bank.Placed) (hid : bank.id = .ram) :
    bank.addresses = (List.range 0x1000).map fun i => Address.ramStart + UInt32.ofNat i := by
  unfold addresses size start
  rw [placed.ram hid, hid]
  rfl

namespace Tracer

variable {s t : Tracer}

/-- A rendering of the RAM shows the bytes that are in it. -/
def ShowsRam (tracer : Tracer) : Prop :=
  ∃ after rows, tracer.render .ram = .ok (after, rows) ∧ rows.flatMap Row.raw = tracer.memory.ramBytes

/-- If the RAM has been listed, its rows show the bytes that are in it. -/
def RamCurrent (tracer : Tracer) : Prop :=
  ∀ bank ∈ tracer.registry.banks, bank.id = .ram → ∀ rows, bank.current? = some rows →
    rows.flatMap Row.raw = tracer.memory.ramBytes

theorem flatMap_raw_list (s : Tracer) {bank : Bank} (placed : bank.Placed) (hid : bank.id = .ram) :
    (s.list bank).flatMap Row.raw = s.memory.ramBytes := by
  rw [s.list_eq placed, ((s.viewOf bank).rows_covers s.symbols s.config).flatMap_raw]
  show bank.addresses.map s.memory.read = _
  rw [placed.addresses_ram hid, List.map_map]
  rfl

/-- There is always a RAM to list. -/
theorem Sound.exists_render_ram (sound : s.Sound) : ∃ after rows, s.render .ram = .ok (after, rows) := by
  obtain ⟨ram, hmem, hid⟩ := sound.arranged.exists_fixed (.inr rfl : BankId.ram = .bios ∨ BankId.ram = .ram)
  exact hid ▸ exists_render sound.arranged hmem

/-- A rendering shows the bytes of the RAM unless a listing of others has been kept. -/
theorem Sound.showsRam_iff (sound : s.Sound) : s.ShowsRam ↔ s.RamCurrent := by
  constructor
  · rintro ⟨after, shown, hrender, hshown⟩ bank hbank hid rows hrows
    obtain ⟨other, hother, hrendered⟩ := render_eq_ok_iff.1 hrender
    obtain rfl : bank = other := Option.some.inj
      ((sound.arranged.get?_eq_some_iff.2 ⟨hbank, hid⟩).symm.trans hother)
    rw [hrows] at hrendered
    rcases hrendered with ⟨hcurrent, -⟩ | ⟨hcurrent, -⟩
    · rwa [Option.some.inj hcurrent]
    · cases hcurrent
  · intro current
    obtain ⟨after, rows, hrender⟩ := sound.exists_render_ram
    refine ⟨after, rows, hrender, ?_⟩
    obtain ⟨ram, hget, hrendered⟩ := render_eq_ok_iff.1 hrender
    obtain ⟨hmem, hid⟩ := sound.arranged.get?_eq_some_iff.1 hget
    rcases hrendered with ⟨hcurrent, -⟩ | ⟨-, rfl, -⟩
    · exact current ram hmem hid rows hcurrent
    · exact s.flatMap_raw_list (sound.arranged.placed hmem) hid

/-- Nothing has been listed yet. -/
theorem Made.ramCurrent (made : Made s) : s.RamCurrent := by
  intro bank hmem _ rows hrows
  have hclean := (Bank.current?_eq_some_iff.1 hrows).1
  rw [made.dirty hmem] at hclean
  cases hclean

/-! ## One step -/

theorem RamCurrent.move (current : s.RamCurrent) (sound : s.Sound) (move : Move s t) : t.RamCurrent := by
  intro bank hmem hid rows hrows
  obtain ⟨hclean, hrows⟩ := Bank.current?_eq_some_iff.1 hrows
  obtain ⟨old, hold, hextent, keeps, hcases⟩ := sound.clean_cases move hmem hclean
  have placed := sound.arranged.placed hold
  have holdId : old.id = .ram := (Bank.extent_eq_iff.1 hextent).1.symm.trans hid
  -- the bytes of the RAM are those of its view, and this is kept
  have hbytes : t.memory.ramBytes = s.memory.ramBytes := by
    have hview := congrArg View.bytes (keeps.viewOf placed)
    simp only [viewOf, placed.addresses_ram holdId, List.map_map] at hview
    exact hview
  rw [hbytes]
  rcases hcases with ⟨holdClean, hsame⟩ | ⟨-, hmade⟩
  · exact current old hold holdId rows (Bank.current?_eq_some_iff.2 ⟨holdClean, hsame.symm.trans hrows⟩)
  · rw [hrows, Option.some.injEq] at hmade
    rw [hmade]
    exact s.flatMap_raw_list placed holdId

/-- The report of a write to RAM makes a listing right that the write may have put out of date: the byte is the old one,
or the word is another one and makes the RAM dirty, or there is no listing. -/
def Noticed (tracer : Tracer) (address : UInt32) (kind : Access) (value : UInt8) : Prop :=
  tracer.memory.read address = value ∨ tracer.traceAt address ≠ kind.persistent ∨ tracer.isListed .ram = false

/-- A write to RAM with its report. -/
def reportedWrite (address : UInt32) (kind : Access) (value : UInt8) : List Command :=
  [.memory (.write address value), .observe address kind value]

section

variable {address : UInt32} {kind : Access} {value : UInt8}

theorem accessEffect_of_write (hhi : address < Address.registersStart) (hwrite : kind.isWrite = true)
    (classification : Classification) :
    classification.accessEffect address kind = .between (classification.get address) kind.persistent := by
  have hregister : Address.isRegister address = false := by
    simp [Address.isRegister, UInt32.not_le.2 hhi]
  have hcartridge : Address.isCartridge address = false := by
    rw [UInt32.lt_iff_toNat_lt, Address.toNat_registersStart] at hhi
    simp only [Address.isCartridge, decide_eq_false_iff_not, UInt32.le_iff_toNat_le, Address.toNat_cartridgeStart]
    omega
  simp [Classification.accessEffect, hregister, hcartridge, hwrite]

theorem run_reportedWrite_of_eq (hhi : address < Address.registersStart) (hwrite : kind.isWrite = true)
    (hword : s.traceAt address = kind.persistent) :
    (s.run (reportedWrite address kind value)).1 =
      { s with memory := s.memory.write address value, symbols := label s.symbols address kind } := by
  have hspace : ¬ Address.spaceEnd ≤ address := UInt32.not_le.2 (UInt32.lt_trans hhi (by decide))
  have heffect : s.classification.accessEffect address kind = .unchanged := by
    rw [accessEffect_of_write hhi hwrite]
    exact if_pos hword
  show observe { s with memory := s.memory.write address value } address kind value = _
  rw [observe, if_neg hspace, heffect]

theorem run_reportedWrite_of_ne (hhi : address < Address.registersStart) (hwrite : kind.isWrite = true)
    (hword : s.traceAt address ≠ kind.persistent) :
    (s.run (reportedWrite address kind value)).1 =
      { s with
        memory := s.memory.write address value
        classification := s.classification.apply address (.changed (s.traceAt address) kind.persistent)
        symbols := label s.symbols address kind
        registry := s.registry.invalidateAt address } := by
  have hspace : ¬ Address.spaceEnd ≤ address := UInt32.not_le.2 (UInt32.lt_trans hhi (by decide))
  have heffect : s.classification.accessEffect address kind = .changed (s.traceAt address) kind.persistent := by
    rw [accessEffect_of_write hhi hwrite]
    exact if_neg hword
  show observe { s with memory := s.memory.write address value } address kind value = _
  rw [observe, if_neg hspace, heffect]

/-- A listing of the RAM stays right over a reported write just if the report is noticed. -/
theorem Sound.ramCurrent_reportedWrite_iff (sound : s.Sound) (current : s.RamCurrent)
    (hlo : Address.ramStart ≤ address) (hhi : address < Address.registersStart) (hwrite : kind.isWrite = true) :
    (s.run (reportedWrite address kind value)).1.RamCurrent ↔ s.Noticed address kind value := by
  obtain ⟨ram, hmem, hid⟩ := sound.arranged.exists_fixed (.inr rfl : BankId.ram = .bios ∨ BankId.ram = .ram)
  have hget := sound.arranged.get?_eq_some_iff.2 ⟨hmem, hid⟩
  by_cases hword : s.traceAt address = kind.persistent
  · -- the RAM is not made dirty, so its rows must show the new byte already
    rw [run_reportedWrite_of_eq hhi hwrite hword]
    unfold Noticed isListed
    rw [hget, Option.bind_some, ← s.memory.ramBytes_write_eq_iff hlo hhi value]
    simp only [ne_eq, hword, not_true_eq_false, false_or]
    constructor
    · intro after
      rcases hcurrent : ram.current? with _ | rows
      · exact .inr rfl
      · exact .inl ((after ram hmem hid rows hcurrent).symm.trans (current ram hmem hid rows hcurrent))
    · intro noticed bank hbank hbankId rows hrows
      obtain rfl := sound.arranged.eq_of_id_eq hbank hmem (hbankId.trans hid.symm)
      rcases noticed with hsame | hunlisted
      · exact (current bank hmem hid rows hrows).trans hsame.symm
      · rw [hrows] at hunlisted
        cases hunlisted
  · rw [run_reportedWrite_of_ne hhi hwrite hword]
    refine ⟨fun _ => .inr (.inl hword), fun _ bank hbank hbankId rows hrows => ?_⟩
    simp only [sound.arranged.invalidateAt_eq address] at hbank
    obtain ⟨old, hold, rfl⟩ := List.mem_map.1 hbank
    have holdId : old.id = .ram := by
      split at hbankId <;> exact hbankId
    rw [if_pos ((sound.arranged.placed hold).contains_ram holdId hlo hhi)] at hrows
    cases hrows

end

/-! ## Whole runs -/

/-- Runs in which every write to RAM is reported right away, and memory is not changed otherwise. -/
inductive Reported : List Command → Prop
  | nil : Reported []
  | quiet {command : Command} {commands : List Command} :
      command.mutatesMemory = false → Reported commands → Reported (command :: commands)
  | write {address : UInt32} {kind : Access} (value : UInt8) {commands : List Command} :
      Address.ramStart ≤ address → address < Address.registersStart → kind.isWrite = true → Reported commands →
        Reported (reportedWrite address kind value ++ commands)

/-- Every report of a run is noticed where it comes. -/
def AllNoticed (start : Tracer) (commands : List Command) : Prop :=
  ∀ earlier address kind value later, commands = earlier ++ (reportedWrite address kind value ++ later) →
    Address.ramStart ≤ address → address < Address.registersStart → (start.run earlier).1.Noticed address kind value

namespace Reported

variable {commands earlier later : List Command} {address : UInt32} {kind : Access} {value : UInt8}

theorem append (h : Reported earlier) (h' : Reported later) : Reported (earlier ++ later) := by
  induction h with
  | nil => exact h'
  | quiet hquiet _ ih => exact .quiet hquiet ih
  | write value hlo hhi hwrite _ ih =>
    rw [List.append_assoc]
    exact .write value hlo hhi hwrite ih

theorem mutates_write (hlo : Address.ramStart ≤ address) (hhi : address < Address.registersStart) (value : UInt8) :
    (Command.memory (.write address value)).mutatesMemory = true := by
  rw [UInt32.le_iff_toNat_le, Address.toNat_ramStart] at hlo
  rw [UInt32.lt_iff_toNat_lt, Address.toNat_registersStart] at hhi
  have hmod : address.toNat % Address.spaceSize = address.toNat := Nat.mod_eq_of_lt (Nat.lt_trans hhi (by decide))
  simp [Command.mutatesMemory, MemoryCommand.mutates, Memory.isRam, hmod, hlo, hhi]

/-- What comes before a reported write is a run of this kind, and the report is that of a write. -/
theorem of_append_write (h : Reported (earlier ++ (reportedWrite address kind value ++ later)))
    (hlo : Address.ramStart ≤ address) (hhi : address < Address.registersStart) :
    Reported earlier ∧ kind.isWrite = true := by
  have hmutates := mutates_write hlo hhi value
  generalize hall : earlier ++ (reportedWrite address kind value ++ later) = all at h
  induction h generalizing earlier with
  | nil => simp [reportedWrite] at hall
  | @quiet command commands hquiet _ ih =>
    rcases earlier with _ | ⟨first, earlier⟩
    · -- the first command is the write, which is not quiet
      obtain ⟨rfl, -⟩ := List.cons.inj hall
      rw [hmutates] at hquiet
      cases hquiet
    · obtain ⟨rfl, hrest⟩ := List.cons.inj hall
      obtain ⟨hearlier, hwrite⟩ := ih hrest
      exact ⟨.quiet hquiet hearlier, hwrite⟩
  | @write address' kind' value' commands hlo' hhi' hwrite' _ ih =>
    rcases earlier with _ | ⟨first, _ | ⟨second, earlier⟩⟩
    · obtain ⟨-, hrest⟩ := List.cons.inj hall
      obtain ⟨hreport, -⟩ := List.cons.inj hrest
      obtain ⟨-, rfl, -⟩ := Command.observe.inj hreport
      exact ⟨.nil, hwrite'⟩
    · -- a report stands where the write would be
      obtain ⟨-, hrest⟩ := List.cons.inj hall
      obtain ⟨hreport, -⟩ := List.cons.inj hrest
      cases hreport
    · obtain ⟨rfl, hrest⟩ := List.cons.inj hall
      obtain ⟨rfl, hbehind⟩ := List.cons.inj hrest
      obtain ⟨hearlier, hwrite⟩ := ih hbehind
      exact ⟨.write value' hlo' hhi' hwrite' hearlier, hwrite⟩

/-- A listing of the RAM stays right over a run in which every report is noticed. -/
theorem ramCurrent (h : Reported commands) (sound : s.Sound) (current : s.RamCurrent)
    (noticed : s.AllNoticed commands) : (s.run commands).1.RamCurrent := by
  induction h generalizing s with
  | nil => exact current
  | @quiet command commands hquiet _ ih =>
    rw [run_cons]
    refine ih (sound.perform command) (current.move sound (s.perform_move hquiet)) ?_
    intro earlier address kind value later hsplit
    exact noticed (command :: earlier) address kind value later (by rw [hsplit, List.cons_append])
  | @write address kind value commands hlo hhi hwrite _ ih =>
    rw [run_append]
    have first := noticed [] address kind value commands rfl hlo hhi
    refine ih (sound.run _) ((sound.ramCurrent_reportedWrite_iff current hlo hhi hwrite).2 first) ?_
    intro earlier address' kind' value' later hsplit
    rw [← run_append]
    exact noticed (reportedWrite address kind value ++ earlier) address' kind' value' later
      (by rw [hsplit, List.append_assoc])

end Reported

/-- **A listing of the RAM is right just if every report is noticed.** The runs are those in which every write to RAM is
reported right away. At every point of such a run, except between a write and its report, a rendering of the RAM would
show the bytes that are in it, if and only if each report of the run is noticed where it comes. -/
theorem shows_ram_iff_noticed {start : Tracer} (made : Made start) {commands : List Command}
    (reported : Reported commands) :
    (∀ earlier, earlier <+: commands → Reported earlier → (start.run earlier).1.ShowsRam) ↔
      start.AllNoticed commands := by
  constructor
  · rintro shows earlier address kind value later rfl hlo hhi
    obtain ⟨hearlier, hwrite⟩ := reported.of_append_write hlo hhi
    have sound := made.sound_run earlier
    have before := sound.showsRam_iff.1 (shows earlier (List.prefix_append _ _) hearlier)
    have after := shows (earlier ++ reportedWrite address kind value) ⟨later, List.append_assoc _ _ _⟩
      (hearlier.append (.write value hlo hhi hwrite .nil))
    rw [(made.sound_run _).showsRam_iff, run_append] at after
    exact (sound.ramCurrent_reportedWrite_iff before hlo hhi hwrite).1 after
  · rintro noticed earlier ⟨rest, rfl⟩ hearlier
    refine (made.sound_run earlier).showsRam_iff.2 (hearlier.ramCurrent (made.sound_run []) made.ramCurrent ?_)
    rintro before address kind value later rfl
    exact noticed before address kind value (later ++ rest) (by simp)

/-- Data is written. -/
def dataWrite : Access := .ofFlags [.data, .write]

/-- One address is written twice, and the RAM is listed in between. -/
def writtenTwice : List Command :=
  (reportedWrite 0x1000 dataWrite 1 ++ [.render .ram]) ++ reportedWrite 0x1000 dataWrite 2

theorem reported_writtenTwice : Reported writtenTwice :=
  .write 1 (by decide) (by decide) (by decide) (.quiet rfl (.write 2 (by decide) (by decide) (by decide) .nil))

theorem shows_ram_iff_noticed_twice : Reported writtenTwice ∧
    ((∀ earlier, earlier <+: writtenTwice → Reported earlier → (new.run earlier).1.ShowsRam) ↔
      new.AllNoticed writtenTwice) :=
  ⟨reported_writtenTwice, shows_ram_iff_noticed .new reported_writtenTwice⟩

theorem traceAt_new_ne : new.traceAt 0x1000 ≠ dataWrite.persistent := by
  rw [traceAt, show new.classification = .empty from rfl, Classification.get_empty]
  decide

/-- Behind the listing the second write tells nothing new, and puts another byte. -/
theorem not_noticed_writtenTwice :
    ¬ (new.run (reportedWrite 0x1000 dataWrite 1 ++ [.render .ram])).1.Noticed 0x1000 dataWrite 2 := by
  have sound : new.Sound := Made.new.sound_run []
  have hfirst : (new.run (reportedWrite 0x1000 dataWrite 1)).1 = _ :=
    run_reportedWrite_of_ne (by decide) (by decide) traceAt_new_ne
  rw [run_append, hfirst, sound.arranged.invalidateAt_eq]
  rintro (hread | hchanged | hunlisted)
  · have hread : (new.memory.write 0x1000 1).read 0x1000 = 2 := hread
    rw [Memory.read_write _ (by decide) (by decide) _ _ (by decide), if_pos rfl] at hread
    cases hread
  · refine hchanged ?_
    show (new.classification.apply 0x1000 (.changed (new.traceAt 0x1000) dataWrite.persistent)).get 0x1000 = _
    rw [Classification.get_apply _ (by decide), if_pos rfl]
  · cases hunlisted

/-- The second write is missed: the listing does not show its byte. -/
theorem missed_write : Reported writtenTwice ∧ ∃ after rows,
    (new.run writtenTwice).1.render .ram = .ok (after, rows) ∧
      rows.flatMap Row.raw ≠ (new.run writtenTwice).1.memory.ramBytes := by
  have sound (commands : List Command) := Made.new.sound_run commands
  have first : (new.run (reportedWrite 0x1000 dataWrite 1)).1.RamCurrent :=
    ((sound []).ramCurrent_reportedWrite_iff Made.new.ramCurrent (by decide) (by decide) (by decide)).2
      (.inr (.inl traceAt_new_ne))
  have listed : (new.run (reportedWrite 0x1000 dataWrite 1 ++ [.render .ram])).1.RamCurrent := by
    have quiet : (Command.render .ram).mutatesMemory = false := rfl
    rw [run_append, run_cons, run_nil]
    exact first.move (sound _) (perform_move _ quiet)
  obtain ⟨after, rows, hrender⟩ := (sound writtenTwice).exists_render_ram
  refine ⟨reported_writtenTwice, after, rows, hrender, fun hsame => not_noticed_writtenTwice ?_⟩
  have second := (sound writtenTwice).showsRam_iff.1 ⟨after, rows, hrender, hsame⟩
  rw [writtenTwice, run_append] at second
  exact ((sound _).ramCurrent_reportedWrite_iff listed (by decide) (by decide) (by decide)).1 second

end Tracer

end TraceDisasm
