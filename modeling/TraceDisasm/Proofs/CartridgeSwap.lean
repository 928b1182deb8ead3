import TraceDisasm.Proofs.SingleAccess

/-!
# What a change of cartridge forgets

When a cartridge is inserted or removed, nothing is left of the one before. Besides the configuration and the
subscriptions, only the base of the machine outlives the change: the bytes of BIOS and RAM, and what is known below the RAM
(`Tracer.SameBase`). Two tracers with the same base are then in the same state, but for their subscriptions
(`Tracer.SameBase.perform_swap`).

Subscriptions decide who is told, and nothing else. A command that is not about them does the same to both tracers and has
the same answer, but for the notices (`Tracer.Alike.perform`), and so has every run of such commands
(`Tracer.Alike.indistinguishable`).
-/

namespace TraceDisasm

/-! ## Parts that are known by what is found at addresses -/

theorem Address.exists_toNat_eq {i : Nat} (h : i < spaceSize) : ∃ address : UInt32, address.toNat = i := by
  have hsize : i < UInt32.size := Nat.lt_trans h (by decide)
  exact ⟨UInt32.ofNat i, UInt32.toNat_ofNat_of_lt' hsize⟩

theorem Memory.bios_eq_of_read {a b : Memory} (h : ∀ address < Address.ramStart, a.read address = b.read address) :
    a.bios = b.bios := by
  refine Vector.ext fun i hi => Option.some.inj ?_
  obtain ⟨address, rfl⟩ := Address.exists_toNat_eq (Nat.lt_trans hi (by decide))
  rw [← Vector.getElem?_eq_getElem hi, ← Vector.getElem?_eq_getElem hi, a.getElem?_bios hi, b.getElem?_bios hi,
    h address (UInt32.lt_iff_toNat_lt.2 hi)]

theorem Memory.ram_eq_of_read {a b : Memory} (h : ∀ address < Address.registersStart, a.read address = b.read address) :
    a.ram = b.ram := by
  refine Vector.ext fun i hi => Option.some.inj ?_
  have hstop : i + 0x1000 < 0x2000 := Nat.add_lt_add_right hi 0x1000
  obtain ⟨address, haddress⟩ := Address.exists_toNat_eq (Nat.lt_trans hstop (by decide))
  have hlo : 0x1000 ≤ address.toNat := haddress ▸ Nat.le_add_left 0x1000 i
  have hhi : address.toNat < 0x2000 := haddress ▸ hstop
  obtain rfl : address.toNat - 0x1000 = i := by omega
  rw [← Vector.getElem?_eq_getElem hi, ← Vector.getElem?_eq_getElem hi, a.getElem?_ram hlo hhi, b.getElem?_ram hlo hhi,
    h address (UInt32.lt_iff_toNat_lt.2 hhi)]

/-- Below the registers, only BIOS and RAM are read. -/
theorem Memory.read_congr_base {a b : Memory} (hbios : a.bios = b.bios) (hram : a.ram = b.ram) {address : UInt32}
    (h : address < Address.registersStart) : a.read address = b.read address := by
  have hlt : address.toNat < 0x2000 := UInt32.lt_iff_toNat_lt.1 h
  have hmod : address.toNat % Address.spaceSize = address.toNat := Nat.mod_eq_of_lt (Nat.lt_trans hlt (by decide))
  simp only [read, hmod, hbios, hram, dif_pos hlt]

theorem Memory.eject_congr {a b : Memory} (hbios : a.bios = b.bios) (hram : a.ram = b.ram) : a.eject = b.eject := by
  rw [eject, eject, hbios, hram]

namespace Classification

variable {a b : Classification}

theorem eq_of_get (h : ∀ address, a.get address = b.get address) : a = b := by
  obtain ⟨words⟩ := a
  obtain ⟨words'⟩ := b
  refine congrArg mk (Vector.ext fun i hi => ?_)
  obtain ⟨address, rfl⟩ := Address.exists_toNat_eq hi
  simpa only [get, Vector.getElem?_eq_getElem hi, Option.getD_some] using h address

theorem clearFrom_congr {bound : UInt32} (h : ∀ address < bound, a.get address = b.get address) :
    a.clearFrom bound = b.clearFrom bound := by
  refine eq_of_get fun address => ?_
  rw [get_clearFrom, get_clearFrom]
  split
  · next hlow => exact h address hlow
  · rfl

end Classification

theorem Symbols.isSome_lookup (symbols : Symbols) (address : UInt32) :
    (symbols.lookup address).isSome = symbols.contains address := by
  rw [lookup]
  split <;> simp_all

theorem Symbols.discardFrom_congr {a b : Symbols} {bound : UInt32} (hstem : a.stem = b.stem)
    (h : ∀ address < bound, a.lookup address = b.lookup address) : a.discardFrom bound = b.discardFrom bound := by
  refine eq_of_contains hstem fun address => ?_
  rw [contains_discardFrom, contains_discardFrom]
  by_cases hlow : address < bound
  · rw [← a.isSome_lookup, ← b.isSome_lookup, h address hlow]
  · rw [decide_eq_false hlow, Bool.and_false, Bool.and_false]

theorem Symbols.lookup_discardFrom (symbols : Symbols) {bound address : UInt32} (h : address < bound) :
    (symbols.discardFrom bound).lookup address = symbols.lookup address := by
  rw [lookup, contains_discardFrom, decide_eq_true h, Bool.and_true]
  rfl

/-! ## Commands -/

/-- Whether a command puts another cartridge, or none, in the place of the one that is there. -/
def Command.swapsCartridge : Command → Bool
  | .insertCartridge image => !image.isEmpty
  | .eject => true
  | _ => false

/-- Whether a command makes or ends a subscription. -/
def Command.onSubscriptions : Command → Bool
  | .subscribe _ | .unsubscribe _ => true
  | _ => false

/-- A reply without the number of subscriptions that have been told. -/
def Reply.withoutCount : Reply → Reply
  | .told _ => .told 0
  | reply => reply

/-- An answer without what subscriptions are told. -/
def Answer.withoutNotices (answer : Answer) : Answer where
  reply := answer.reply.withoutCount
  deliveries := answer.deliveries.filter fun delivery => !delivery.isNotice

theorem Delivery.filter_notified (notices : List Notice) :
    ((notices.map notified).filter fun delivery => !delivery.isNotice) = [] := by
  simp [isNotice]

theorem Answer.withoutNotices_notified (reply : Reply) (notices : List Notice) :
    (Answer.mk reply (notices.map .notified)).withoutNotices = .quiet reply.withoutCount := by
  rw [withoutNotices, quiet, Delivery.filter_notified]

namespace Tracer

/-! ## What no command changes -/

variable {s t : Tracer}

theorem Move.config_eq (move : Move s t) : t.config = s.config := by
  cases move <;> rfl

theorem Move.stem_eq (move : Move s t) : t.symbols.stem = s.symbols.stem := by
  cases move with
  | noted | learned | forced => exact stem_label _ _ _
  | _ => rfl

theorem config_perform (s : Tracer) (command : Command) : (s.perform command).1.config = s.config := by
  cases command with
  | memory _ => rfl
  | _ => exact (s.perform_move rfl).config_eq

theorem stem_perform (s : Tracer) (command : Command) : (s.perform command).1.symbols.stem = s.symbols.stem := by
  cases command with
  | memory _ => rfl
  | _ => exact (s.perform_move rfl).stem_eq

/-- The stem of the labels is the one of the configuration. -/
theorem Made.stem_run {start : Tracer} (made : Made start) (commands : List Command) :
    (start.run commands).1.symbols.stem = (start.run commands).1.config.labelStem := by
  have hrun (s : Tracer) (h : s.symbols.stem = s.config.labelStem) :
      (s.run commands).1.symbols.stem = (s.run commands).1.config.labelStem := by
    induction commands generalizing s with
    | nil => exact h
    | cons command commands ih =>
      have hnext : (s.perform command).1.symbols.stem = (s.perform command).1.config.labelStem := by
        rw [stem_perform, config_perform, h]
      exact ih _ hnext
  obtain ⟨config, rfl⟩ := made.exists_config
  exact hrun (ofConfig config) rfl

/-! ## Tracers with different subscriptions -/

/-- The states differ in their subscriptions at most. -/
structure Alike (s t : Tracer) : Prop where
  config : s.config = t.config
  memory : s.memory = t.memory
  classification : s.classification = t.classification
  symbols : s.symbols = t.symbols
  registry : s.registry = t.registry

/-- The state with other subscriptions. -/
def withSubscriptions (s : Tracer) (subscriptions : Subscriptions) : Tracer := { s with subscriptions := subscriptions }

variable (others : Subscriptions)

theorem alike_withSubscriptions (s : Tracer) : s.Alike (s.withSubscriptions others) := ⟨rfl, rfl, rfl, rfl, rfl⟩

theorem Alike.eq_withSubscriptions (h : s.Alike t) : t = s.withSubscriptions t.subscriptions := by
  obtain ⟨config, memory, classification, registry, symbols, subscriptions⟩ := t
  obtain ⟨rfl, rfl, rfl, rfl, rfl⟩ := h
  rfl

theorem observe_withSubscriptions (s : Tracer) (address : UInt32) (kind : Access) (value : UInt8) :
    (s.withSubscriptions others).observe address kind value = (s.observe address kind value).withSubscriptions others := by
  unfold observe
  split
  · rfl
  · simp only [withSubscriptions]
    split <;> rfl

theorem render_withSubscriptions (s : Tracer) (id : BankId) :
    (s.withSubscriptions others).render id = (s.render id).map fun (t, rows) => (t.withSubscriptions others, rows) := by
  simp only [render, withSubscriptions]
  rcases s.registry.get? id with _ | bank
  · rfl
  · dsimp only
    rcases bank.current? with _ | rows <;> rfl

theorem rowIndex_withSubscriptions (s : Tracer) (id : BankId) (address : UInt32) :
    (s.withSubscriptions others).rowIndex id address =
      (s.rowIndex id address).map fun (t, index) => (t.withSubscriptions others, index) := by
  simp only [rowIndex, render_withSubscriptions]
  cases s.render id <;> rfl

theorem rowIndexAtPc_withSubscriptions (s : Tracer) (pc : UInt16) (codeBank : UInt8) :
    (s.withSubscriptions others).rowIndexAtPc pc codeBank =
      (s.rowIndexAtPc pc codeBank).map fun (t, place) => (t.withSubscriptions others, place) := by
  have hbank (address : UInt32) : (s.withSubscriptions others).bankFor? address = s.bankFor? address := rfl
  simp only [rowIndexAtPc, rowIndex_withSubscriptions, hbank]
  rcases s.bankFor? (Address.physical pc codeBank) with _ | id
  · rfl
  · dsimp only
    cases s.rowIndex id (Address.physical pc codeBank) <;> rfl

/-- A command that may fail and announces nothing does the same if it succeeds with the same. -/
theorem settled_withSubscriptions {α : Type} {s : Tracer} {result result' : Except Error (Tracer × α)}
    (h : result' = result.map fun (t, answer) => (t.withSubscriptions others, answer)) (reply : α → Reply) :
    ((s.withSubscriptions others).settled result' reply).1 = (s.settled result reply).1.withSubscriptions others ∧
      ((s.withSubscriptions others).settled result' reply).2.withoutNotices = (s.settled result reply).2.withoutNotices := by
  rw [h]
  cases result <;> exact ⟨rfl, rfl⟩

theorem forced_withSubscriptions (s : Tracer) (address : UInt32) (kind : Access) :
    ((s.withSubscriptions others).forced address kind).1 = (s.forced address kind).1.withSubscriptions others ∧
      ((s.withSubscriptions others).forced address kind).2.withoutNotices = (s.forced address kind).2.withoutNotices := by
  simp only [forced, force, withSubscriptions]
  rcases s.registry.covering? address with _ | bank
  · exact ⟨rfl, rfl⟩
  · exact ⟨rfl, by rw [Answer.withoutNotices_notified, Answer.withoutNotices_notified]⟩

/-- Without the notices, an update announces each pending bank once. -/
theorem withoutNotices_update (s : Tracer) :
    (s.perform .update).2.withoutNotices = ⟨.told 0, s.registry.pending.map fun bank => .handed bank.summary⟩ := by
  have hbank (bank : Bank) :
      ((Delivery.handed bank.summary :: (s.subscriptions.publish bank.summary).map .notified).filter
        fun delivery => !delivery.isNotice) = [.handed bank.summary] := by
    rw [List.filter_cons_of_pos rfl, Delivery.filter_notified]
  simp only [perform, update, Answer.withoutNotices, Reply.withoutCount, List.filter_flatMap, hbank]
  exact congrArg _ List.map_eq_flatMap.symm

/-- **Subscriptions decide who is told, and nothing else.** -/
theorem perform_withSubscriptions (s : Tracer) {command : Command} (h : command.onSubscriptions = false) :
    ((s.withSubscriptions others).perform command).1 = (s.perform command).1.withSubscriptions others ∧
      ((s.withSubscriptions others).perform command).2.withoutNotices = (s.perform command).2.withoutNotices := by
  cases command with
  | observe address kind value => exact ⟨observe_withSubscriptions others s address kind value, rfl⟩
  | force address kind => exact forced_withSubscriptions others s address kind
  | override address as => exact forced_withSubscriptions others s address as.access
  | update => exact ⟨rfl, by rw [withoutNotices_update, withoutNotices_update]; rfl⟩
  | render bank => exact settled_withSubscriptions others (render_withSubscriptions others s bank) .listing
  | renderNamed name =>
    refine settled_withSubscriptions others ?_ .listing
    simp only [renderNamed]
    cases BankId.ofText name with
    | error _ => rfl
    | ok id => exact render_withSubscriptions others s id
  | rowIndex bank address =>
    exact settled_withSubscriptions others (rowIndex_withSubscriptions others s bank address) .row
  | rowIndexAtPc pc codeBank =>
    exact settled_withSubscriptions others (rowIndexAtPc_withSubscriptions others s pc codeBank) .place
  | insertCartridge image =>
    refine settled_withSubscriptions others ?_ fun _ => .done
    simp only [insertCartridge, withSubscriptions]
    cases s.memory.insertCartridge image <;> rfl
  | replaceBios image =>
    refine settled_withSubscriptions others ?_ fun _ => .done
    simp only [replaceBios, withSubscriptions]
    cases s.memory.replaceBios image <;> rfl
  | reset | eject | memory _ => exact ⟨rfl, rfl⟩
  | subscribe _ | unsubscribe _ => cases h

theorem Alike.perform (h : s.Alike t) {command : Command} (hcommand : command.onSubscriptions = false) :
    (s.perform command).1.Alike (t.perform command).1 ∧
      (s.perform command).2.withoutNotices = (t.perform command).2.withoutNotices := by
  obtain ⟨hstate, hanswer⟩ := perform_withSubscriptions t.subscriptions s hcommand
  rw [← h.eq_withSubscriptions] at hstate hanswer
  rw [hstate]
  exact ⟨alike_withSubscriptions _ _, hanswer.symm⟩

/-- No run that is not about subscriptions tells the states apart. -/
def Indistinguishable (s t : Tracer) : Prop :=
  ∀ commands : List Command, (∀ command ∈ commands, command.onSubscriptions = false) →
    (s.run commands).1.Alike (t.run commands).1 ∧
      (s.run commands).2.map Answer.withoutNotices = (t.run commands).2.map Answer.withoutNotices

theorem Alike.indistinguishable (h : s.Alike t) : s.Indistinguishable t := by
  intro commands hcommands
  induction commands generalizing s t with
  | nil => exact ⟨h, rfl⟩
  | cons command commands ih =>
    obtain ⟨hstate, hanswer⟩ := h.perform (hcommands command List.mem_cons_self)
    obtain ⟨hfinal, hanswers⟩ := ih hstate fun other hother => hcommands other (List.mem_cons_of_mem command hother)
    exact ⟨hfinal, congrArg₂ List.cons hanswer hanswers⟩

/-! ## The base of the machine -/

/-- The states have the same base: the configuration, the bytes of BIOS and RAM, and what is known below the RAM. -/
structure SameBase (s t : Tracer) : Prop where
  config : s.config = t.config
  byte : ∀ address < Address.registersStart, s.memory.read address = t.memory.read address
  word : ∀ address < Address.ramStart, s.traceAt address = t.traceAt address
  label : ∀ address < Address.ramStart, s.labelAt address = t.labelAt address

theorem SameBase.trans {u : Tracer} (h : s.SameBase t) (h' : t.SameBase u) : s.SameBase u where
  config := h.config.trans h'.config
  byte address hlow := (h.byte address hlow).trans (h'.byte address hlow)
  word address hlow := (h.word address hlow).trans (h'.word address hlow)
  label address hlow := (h.label address hlow).trans (h'.label address hlow)

/-- What the CPU does above the BIOS is not in the base. -/
theorem Sound.sameBase_observe (sound : s.Sound) {address : UInt32} (hnot : Address.ramStart ≤ address) (kind : Access)
    (value : UInt8) : (s.perform (.observe address kind value)).1.SameBase s := by
  have touches : s.Touches (s.perform (.observe address kind value)).1 address kind := sound.touches address kind value
  have hne {other : UInt32} (hlow : other < Address.ramStart) : other ≠ address :=
    UInt32.ne_of_lt (UInt32.lt_of_lt_of_le hlow hnot)
  refine ⟨touches.config, fun other _ => ?_, fun other hlow => touches.word other (hne hlow), fun other hlow => ?_⟩
  · rw [touches.memory]
  · rw [touches.label, if_neg fun hlabel => hne hlow hlabel.1]

/-- Nothing is left but the base and what is put into memory. -/
theorem SameBase.alike_reset (h : s.SameBase t) (hstem : s.symbols.stem = t.symbols.stem) {memory memory' : Memory}
    (hmemory : memory = memory') :
    Alike (reset { s with memory := memory }) (reset { t with memory := memory' }) where
  config := h.config
  memory := hmemory
  classification := Classification.clearFrom_congr h.word
  symbols := Symbols.discardFrom_congr hstem h.label
  registry := by rw [reset, reset, hmemory]

theorem sameBase_reset (s : Tracer) {memory : Memory} (hbios : memory.bios = s.memory.bios)
    (hram : memory.ram = s.memory.ram) : SameBase (reset { s with memory := memory }) s where
  config := rfl
  byte _ hlow := Memory.read_congr_base hbios hram hlow
  word address hlow := (s.classification.get_clearFrom Address.ramStart address).trans (if_pos hlow)
  label _ hlow := s.symbols.lookup_discardFrom hlow

/-- The base outlives a change of cartridge. -/
theorem sameBase_swap (s : Tracer) {swap : Command} (hswap : swap.swapsCartridge = true) :
    (s.perform swap).1.SameBase s := by
  cases swap with
  | insertCartridge image =>
    simp only [perform, insertCartridge, s.memory.insertCartridge_of_filled hswap]
    exact s.sameBase_reset rfl rfl
  | eject => exact s.sameBase_reset rfl rfl
  | _ => cases hswap

theorem SameBase.perform_swap (h : s.SameBase t) (hstem : s.symbols.stem = t.symbols.stem) {swap : Command}
    (hswap : swap.swapsCartridge = true) :
    (s.perform swap).2 = .quiet .done ∧ (t.perform swap).2 = .quiet .done ∧
      (s.perform swap).1.Alike (t.perform swap).1 := by
  have hbios : s.memory.bios = t.memory.bios :=
    Memory.bios_eq_of_read fun address hlow => h.byte address (UInt32.lt_trans hlow (by decide))
  have hram : s.memory.ram = t.memory.ram := Memory.ram_eq_of_read h.byte
  cases swap with
  | insertCartridge image =>
    simp only [perform, insertCartridge, Memory.insertCartridge_of_filled _ hswap]
    exact ⟨rfl, rfl, h.alike_reset hstem (by rw [hbios, hram])⟩
  | eject => exact ⟨rfl, rfl, h.alike_reset hstem (Memory.eject_congr hbios hram)⟩
  | _ => cases hswap

/-- **A change of cartridge forgets everything about the one before.** After it, runs that had the same base are in the same
state but for their subscriptions, and nothing that is not about subscriptions tells them apart from then on. -/
theorem Made.indistinguishable_swap {start start' : Tracer} (made : Made start) (made' : Made start')
    {before before' : List Command} (same : (start.run before).1.SameBase (start'.run before').1) {swap : Command}
    (hswap : swap.swapsCartridge = true) :
    ∃ t t', (start.run before).1.perform swap = (t, .quiet .done) ∧
      (start'.run before').1.perform swap = (t', .quiet .done) ∧ t.Alike t' ∧ t.Indistinguishable t' := by
  have hstem : (start.run before).1.symbols.stem = (start'.run before').1.symbols.stem := by
    rw [made.stem_run, made'.stem_run, same.config]
  obtain ⟨hdone, hdone', alike⟩ := same.perform_swap hstem hswap
  exact ⟨_, _, Prod.ext rfl hdone, Prod.ext rfl hdone', alike, alike.indistinguishable⟩

/-- A cartridge is played until there is a label in the RAM. -/
def played : List Command := [.insertCartridge [7, 8], .observe 0x1040 targetRead 0]

theorem sameBase_played : (new.run played).1.SameBase (new.run [.subscribe .ram]).1 := by
  have sound : new.Sound := Made.new.sound_run []
  have inserted : (new.perform (.insertCartridge [7, 8])).1.SameBase new := new.sameBase_swap rfl
  have labelled := (sound.perform (.insertCartridge [7, 8])).sameBase_observe
    (by decide : Address.ramStart ≤ 0x1040) targetRead 0
  have subscribed : new.SameBase (new.run [.subscribe .ram]).1 := ⟨rfl, fun _ _ => rfl, fun _ _ => rfl, fun _ _ => rfl⟩
  exact (labelled.trans inserted).trans subscribed

theorem indistinguishable_swap_played : ∃ t t',
    (new.run played).1.perform (.insertCartridge [9]) = (t, .quiet .done) ∧
      (new.run [.subscribe .ram]).1.perform (.insertCartridge [9]) = (t', .quiet .done) ∧
      t.Alike t' ∧ t.Indistinguishable t' :=
  Made.new.indistinguishable_swap Made.new sameBase_played rfl

end Tracer

end TraceDisasm
