import TraceDisasm.Proofs.CheckedRun
import TraceDisasm.Proofs.Evidence
import TraceDisasm.Proofs.Pending

/-!
# Commands that are refused

A command may be refused: a cartridge without bytes, a BIOS image that is too large, a bank that is not there, an address that
no bank contains, a subscription that is not there. `Tracer.Refuses` lists every case, with the answer to it.

That a refused command changes nothing is not obvious where the parts of a tracer are changed one after the other. So the
commands are carried out once more, in place (`InPlace`): an error ends the work, but what has been changed before stays
changed, and what has been told stays told. This leads to the same states and answers (`Tracer.Sound.performInPlace_eq`),
since all checks come before the first change. `Tracer.Made.refusals` has the consequences for every reachable state.
-/

namespace TraceDisasm

theorem Registry.modify_modify (registry : Registry) (id : BankId) (change next : Bank → Bank)
    (hchange : ∀ bank, (change bank).id = bank.id) :
    (registry.modify id change).modify id next = registry.modify id fun bank => next (change bank) := by
  unfold modify
  rw [List.map_map]
  refine congrArg mk (List.map_congr_left fun bank _ => ?_)
  by_cases h : bank.id = id
  · simp [h, hchange]
  · simp [h]

theorem Subscriptions.unsubscribe_of_not_live {subscriptions : Subscriptions} {number : Nat}
    (h : subscriptions.isLive number = false) : subscriptions.unsubscribe number = subscriptions := by
  rw [unsubscribe, List.eraseP_of_forall_not]
  simpa [isLive] using h

/-! ## Work in place -/

/-- A tracer that is being worked on, and what has been told since the work began. -/
structure Progress where
  tracer : Tracer
  told : List Delivery

/-- Work that changes a tracer one part at a time. An error ends it and undoes nothing. -/
abbrev InPlace (α : Type) := EStateM Error Progress α

namespace InPlace

/-- Changes the memory. -/
def changeMemory (change : Memory → Memory) : InPlace Unit :=
  modify fun p => { p with tracer.memory := change p.tracer.memory }

/-- Changes the bank with an identifier. -/
def changeBank (id : BankId) (change : Bank → Bank) : InPlace Unit :=
  modify fun p => { p with tracer.registry := p.tracer.registry.modify id change }

/-- Tells the subscribers of a bank. -/
def publish (summary : Summary) : InPlace Unit :=
  modify fun p => { p with told := p.told ++ (p.tracer.subscriptions.publish summary).map .notified }

/-- Replaces the BIOS: wipes it, and copies the image to its front. -/
def loadBios (image : List UInt8) : InPlace Unit := do
  if Memory.biosSize < image.length then throw (.biosTooLarge image.length)
  changeMemory fun memory => { memory with bios := .replicate 0x1000 0 }
  changeMemory fun memory => { memory with bios := memory.bios.mapIdx fun i cell => image[i]?.getD cell }

/-- Inserts a cartridge: wipes the old one, copies the image, and notes where it ends. -/
def loadCartridge (image : List UInt8) : InPlace Unit := do
  if image.isEmpty then throw .emptyCartridge
  let start := Memory.imageStart image
  changeMemory fun memory => { memory with cartridge := .replicate Address.spaceSize 0 }
  changeMemory fun memory => { memory with cartridge := Memory.place memory.cartridge start image }
  changeMemory fun memory =>
    { memory with cartridgeEnd := UInt32.ofNat (min (start + image.length) Address.spaceSize) }

/-- Makes the banks of the cartridge that is in memory. -/
def reset : InPlace Unit := do
  modify fun p => { p with tracer.classification := p.tracer.classification.clearFrom Address.ramStart }
  modify fun p => { p with tracer.symbols := p.tracer.symbols.discardFrom Address.ramStart }
  modify fun p => { p with tracer.registry := .ofCartridgeEnd p.tracer.memory.cartridgeEnd }

/-- Inserts a cartridge and makes its banks. -/
def insertCartridge (image : List UInt8) : InPlace Unit := do
  loadCartridge image
  reset

/-- Replaces the BIOS and invalidates its bank. -/
def replaceBios (image : List UInt8) : InPlace Unit := do
  loadBios image
  changeBank .bios Bank.invalidate

/-- Announces a bank that has changed, on its own. -/
def announce (id : BankId) : InPlace Unit := do
  match (← get).tracer.registry.get? id with
  | none => return ()
  | some bank =>
    changeBank id Bank.invalidate
    changeBank id Bank.settle
    publish bank.summary

/-- Forces a word onto an address, labels it, and then announces its bank. -/
def force (address : UInt32) (kind : Access) : InPlace Bool := do
  match (← get).tracer.bankFor? address with
  | none => return false
  | some id =>
    modify fun p =>
      { p with
        tracer.classification :=
          p.tracer.classification.apply address (p.tracer.classification.forceEffect address kind) }
    modify fun p => { p with tracer.symbols := Tracer.label p.tracer.symbols address kind }
    announce id
    return true

/-- The listing of a bank, which is kept if it is made anew. -/
def render (id : BankId) : InPlace (List Row) := do
  match (← get).tracer.registry.get? id with
  | none => throw (.unknownBank id.text)
  | some bank =>
    match bank.current? with
    | some rows => return rows
    | none =>
      let rows := (← get).tracer.list bank
      changeBank id fun bank => { bank with rows := some rows }
      changeBank id fun bank => { bank with dirty := false }
      return rows

/-- The listing of a bank with a written identifier. -/
def renderNamed (name : String) : InPlace (List Row) := do
  match BankId.ofText? name with
  | none => throw (.unknownBank name)
  | some id => render id

/-- The position of the row that covers an address. -/
def rowIndex (id : BankId) (address : UInt32) : InPlace (Option Nat) :=
  (fun rows => Row.indexOf? rows address) <$> render id

/-- The bank and the row that hold the instruction at a program counter. -/
def rowIndexAtPc (pc : UInt16) (codeBank : UInt8) : InPlace (Option (BankId × Nat)) := do
  let address := Address.physical pc codeBank
  match (← get).tracer.bankFor? address with
  | none => return none
  | some id => (fun index => index.map ((id, ·))) <$> rowIndex id address

/-- Ends a subscription, if there is one with the number. -/
def unsubscribe (number : Nat) : InPlace Bool := do
  if (← get).tracer.subscriptions.isLive number then
    modify fun p => { p with tracer.subscriptions := p.tracer.subscriptions.unsubscribe number }
    return true
  else return false

/-- A change of memory behind the back of the tracer, with its answer. -/
def answered (work : InPlace Unit) : InPlace Reply :=
  tryCatch (do work; return .memory .done) fun error => return .memory (.failed error)

/-- Carries out a command. One that nothing can go wrong with is carried out at once. -/
def carryOut : Command → InPlace Reply
  | .force address kind => .found <$> force address kind
  | .override address as => .found <$> force address as.access
  | .render bank => .listing <$> render bank
  | .renderNamed name => .listing <$> renderNamed name
  | .rowIndex bank address => .row <$> rowIndex bank address
  | .rowIndexAtPc pc codeBank => .place <$> rowIndexAtPc pc codeBank
  | .unsubscribe number => .found <$> unsubscribe number
  | .insertCartridge image => (fun () => .done) <$> insertCartridge image
  | .replaceBios image => (fun () => .done) <$> replaceBios image
  | .memory (.replaceBios image) => answered (loadBios image)
  | .memory (.insertCartridge image) => answered (loadCartridge image)
  | command => modifyGet fun p =>
    let (tracer, answer) := p.tracer.perform command
    (answer.reply, ⟨tracer, p.told ++ answer.deliveries⟩)

/-- How work ends that makes a new state only if it succeeds. -/
def outcome {α : Type} (p : Progress) : Except Error (Tracer × α) → EStateM.Result Error Progress α
  | .ok (tracer, answer) => .ok answer { p with tracer := tracer }
  | .error error => .error error p

variable {α β : Type} {p : Progress}

/-- What comes behind work that ended well. -/
theorem run_bind_ok {work : InPlace α} {next : α → InPlace β} {a : α} {q : Progress} (h : work.run p = .ok a q) :
    (work >>= next).run p = (next a).run q := by
  show EStateM.bind work next p = next a q
  have h : work p = .ok a q := h
  rw [EStateM.bind, h]

/-- Nothing comes behind work that ended with an error. -/
theorem run_bind_error {work : InPlace α} {next : α → InPlace β} {error : Error} {q : Progress}
    (h : work.run p = .error error q) : (work >>= next).run p = .error error q := by
  show EStateM.bind work next p = .error error q
  have h : work p = .error error q := h
  rw [EStateM.bind, h]

/-- The state is looked at as it stands. -/
theorem run_get_bind (next : Progress → InPlace α) : (get >>= next).run p = (next p).run p := rfl

theorem run_map (f : α → β) {work : InPlace α} {result : Except Error (Tracer × α)} (h : work.run p = outcome p result) :
    (f <$> work).run p = outcome p (result.map fun (tracer, answer) => (tracer, f answer)) := by
  show EStateM.map f work p = _
  have h : work p = outcome p result := h
  rw [EStateM.map, h]
  cases result <;> rfl

theorem run_loadBios (image : List UInt8) (p : Progress) :
    (loadBios image).run p =
      outcome p ((p.tracer.memory.replaceBios image).map fun memory => ({ p.tracer with memory := memory }, ())) := by
  have hchecked := Checked.loadBios_eq p.tracer.memory image
  unfold Checked.loadBios at hchecked
  unfold loadBios
  by_cases h : Memory.biosSize < image.length
  · rw [if_pos h] at hchecked
    rw [← Option.some.inj hchecked, if_pos h]
    rfl
  · have hfront : image.length ≤ 0x1000 := Nat.le_of_not_lt h
    rw [if_neg h, Checked.putFront, if_pos hfront] at hchecked
    rw [← Option.some.inj hchecked, if_neg h]
    rfl

theorem run_loadCartridge (image : List UInt8) (p : Progress) :
    (loadCartridge image).run p =
      outcome p ((p.tracer.memory.insertCartridge image).map fun memory => ({ p.tracer with memory := memory }, ())) := by
  unfold loadCartridge Memory.insertCartridge
  by_cases h : image.isEmpty
  · rw [if_pos h, if_pos h]
    rfl
  · rw [if_neg h, if_neg h]
    rfl

/-- A change of memory that may fail, and behind it a change of the tracer that cannot. -/
theorem run_load {load next : InPlace Unit} {result : Except Error Memory} (finish : Tracer → Tracer)
    (hload : load.run p = outcome p (result.map fun memory => ({ p.tracer with memory := memory }, ())))
    (hnext : ∀ q : Progress, next.run q = .ok () { q with tracer := finish q.tracer }) :
    (load >>= fun _ => next).run p =
      outcome p ((result.map fun memory => finish { p.tracer with memory := memory }).map ((·, ()))) := by
  cases result with
  | error error =>
    rw [run_bind_error hload]
    rfl
  | ok memory =>
    rw [run_bind_ok hload, hnext]
    rfl

theorem run_insertCartridge (image : List UInt8) (p : Progress) :
    (insertCartridge image).run p = outcome p ((p.tracer.insertCartridge image).map ((·, ()))) :=
  run_load Tracer.reset (run_loadCartridge image p) fun _ => rfl

theorem run_replaceBios (image : List UInt8) (p : Progress) :
    (replaceBios image).run p = outcome p ((p.tracer.replaceBios image).map ((·, ()))) :=
  run_load (fun s => { s with registry := s.registry.modify .bios Bank.invalidate }) (run_loadBios image p) fun _ => rfl

theorem run_render (id : BankId) (p : Progress) : (render id).run p = outcome p (p.tracer.render id) := by
  unfold render Tracer.render
  rw [run_get_bind]
  cases hget : p.tracer.registry.get? id with
  | none => rfl
  | some bank =>
    cases hcurrent : bank.current? with
    | some rows =>
      simp only [hcurrent]
      rfl
    | none =>
      simp only [hcurrent]
      have hlisted := p.tracer.registry.modify_modify id (fun other => { other with rows := some (p.tracer.list bank) })
        (fun other => { other with dirty := false }) fun _ => rfl
      show EStateM.Result.ok (p.tracer.list bank) (Progress.mk { p.tracer with registry := _ } p.told) = _
      rw [hlisted]
      rfl

theorem run_renderNamed (name : String) (p : Progress) :
    (renderNamed name).run p = outcome p (p.tracer.renderNamed name) := by
  unfold renderNamed Tracer.renderNamed BankId.ofText
  cases BankId.ofText? name with
  | none => rfl
  | some id => exact run_render id p

theorem run_rowIndex (id : BankId) (address : UInt32) (p : Progress) :
    (rowIndex id address).run p = outcome p (p.tracer.rowIndex id address) :=
  run_map _ (run_render id p)

theorem run_rowIndexAtPc (pc : UInt16) (codeBank : UInt8) (p : Progress) :
    (rowIndexAtPc pc codeBank).run p = outcome p (p.tracer.rowIndexAtPc pc codeBank) := by
  simp only [rowIndexAtPc, Tracer.rowIndexAtPc, run_get_bind]
  cases p.tracer.bankFor? (Address.physical pc codeBank) with
  | none => rfl
  | some id => exact run_map _ (run_rowIndex id (Address.physical pc codeBank) p)

theorem run_announce {bank : Bank} (hget : p.tracer.registry.get? bank.id = some bank) :
    (announce bank.id).run p =
      .ok ()
        { tracer := { p.tracer with registry := p.tracer.registry.modify bank.id Bank.invalidateAnnounced }
          told := p.told ++ (p.tracer.subscriptions.publish bank.summary).map .notified } := by
  simp only [announce, run_get_bind, hget]
  show EStateM.Result.ok () (Progress.mk { p.tracer with registry := _ } _) = _
  rw [Registry.modify_modify _ _ Bank.invalidate Bank.settle fun _ => rfl]
  rfl

/-- A word is forced, and its bank announced, only if there is a bank. -/
theorem run_force (arranged : p.tracer.registry.Arranged) (address : UInt32) (kind : Access) :
    (force address kind).run p =
      match p.tracer.force address kind with
      | some (tracer, notices) => .ok true ⟨tracer, p.told ++ notices.map .notified⟩
      | none => .ok false p := by
  simp only [force, Tracer.force, Tracer.bankFor?, Registry.bankFor?, run_get_bind]
  cases hcovering : p.tracer.registry.covering? address with
  | none => rfl
  | some bank =>
    have hget : p.tracer.registry.get? bank.id = some bank :=
      arranged.get?_eq_some_iff.2 ⟨(arranged.covering?_eq_some_iff.1 hcovering).1, rfl⟩
    let forced : Tracer :=
      { p.tracer with
        classification := p.tracer.classification.apply address (p.tracer.classification.forceEffect address kind)
        symbols := Tracer.label p.tracer.symbols address kind }
    exact run_bind_ok (run_announce (p := ⟨forced, p.told⟩) hget)

theorem run_unsubscribe (number : Nat) (p : Progress) :
    (unsubscribe number).run p = outcome p (.ok (p.tracer.unsubscribe number)) := by
  simp only [unsubscribe, Tracer.unsubscribe, run_get_bind]
  by_cases hlive : p.tracer.subscriptions.isLive number = true
  · rw [if_pos hlive, hlive]
    rfl
  · have hdead := Bool.eq_false_iff.2 hlive
    rw [if_neg hlive, Subscriptions.unsubscribe_of_not_live hdead, hdead]
    rfl

end InPlace

/-! ## What is refused -/

/-- Whether an answer says that a command was not carried out. -/
def Reply.isRefusal : Reply → Bool
  | failed _ | found false | memory (.failed _) => true
  | _ => false

namespace Tracer

/-- Carries out a command in place. -/
def performInPlace (s : Tracer) (command : Command) : Tracer × Answer :=
  match (InPlace.carryOut command).run ⟨s, []⟩ with
  | .ok reply p => (p.tracer, ⟨reply, p.told⟩)
  | .error error p => (p.tracer, ⟨.failed error, p.told⟩)

/-- The commands that are refused, with the answer. -/
inductive Refuses (s : Tracer) : Command → Reply → Prop
  | emptyCartridge : Refuses s (.insertCartridge []) (.failed .emptyCartridge)
  | biosTooLarge (image : List UInt8) :
      0x1000 < image.length → Refuses s (.replaceBios image) (.failed (.biosTooLarge image.length))
  | render (id : BankId) : ¬ s.registry.Holds id → Refuses s (.render id) (.failed (.unknownBank id.text))
  | rowIndex (id : BankId) (address : UInt32) :
      ¬ s.registry.Holds id → Refuses s (.rowIndex id address) (.failed (.unknownBank id.text))
  /-- The text spells no identifier. -/
  | misspelt (name : String) : BankId.ofText? name = none → Refuses s (.renderNamed name) (.failed (.unknownBank name))
  | renderNamed (name : String) (id : BankId) :
      BankId.ofText? name = some id → ¬ s.registry.Holds id →
        Refuses s (.renderNamed name) (.failed (.unknownBank id.text))
  | force (address : UInt32) (kind : Access) :
      s.registry.covers address = false → Refuses s (.force address kind) (.found false)
  | override (address : UInt32) (as : Override) :
      s.registry.covers address = false → Refuses s (.override address as) (.found false)
  | unsubscribe (number : Nat) :
      s.subscriptions.isLive number = false → Refuses s (.unsubscribe number) (.found false)
  /-- The same for memory on its own. -/
  | memoryEmptyCartridge : Refuses s (.memory (.insertCartridge [])) (.memory (.failed .emptyCartridge))
  | memoryBiosTooLarge (image : List UInt8) :
      0x1000 < image.length →
        Refuses s (.memory (.replaceBios image)) (.memory (.failed (.biosTooLarge image.length)))

variable {s : Tracer} {command : Command} {reply : Reply}

theorem performInPlace_map {α : Type} {work : InPlace α} {result : Except Error (Tracer × α)} {answer : α → Reply}
    (hcommand : InPlace.carryOut command = answer <$> work) (hrun : work.run ⟨s, []⟩ = InPlace.outcome ⟨s, []⟩ result) :
    s.performInPlace command = s.settled result answer := by
  rw [performInPlace, hcommand, InPlace.run_map answer hrun]
  cases result <;> rfl

theorem performInPlace_forced (arranged : s.registry.Arranged) (address : UInt32) (kind : Access)
    (hcommand : InPlace.carryOut command = .found <$> InPlace.force address kind) :
    s.performInPlace command = s.forced address kind := by
  have hforce : InPlace.force address kind ⟨s, []⟩ = _ := InPlace.run_force arranged address kind
  rw [performInPlace, hcommand, forced]
  show (match EStateM.map Reply.found (InPlace.force address kind) ⟨s, []⟩ with | .ok _ _ => _ | .error _ _ => _) = _
  rw [EStateM.map, hforce]
  cases s.force address kind <;> rfl

theorem performInPlace_answered {result : Except Error Memory} {work : InPlace Unit} {memoryCommand : MemoryCommand}
    (hcommand : InPlace.carryOut (.memory memoryCommand) = InPlace.answered work)
    (hrun : work.run ⟨s, []⟩ =
      InPlace.outcome ⟨s, []⟩ (result.map fun memory => ({ s with memory := memory }, ())))
    (hperform : s.memory.perform memoryCommand = Checked.settledMemory s.memory result) :
    s.performInPlace (.memory memoryCommand) = s.perform (.memory memoryCommand) := by
  have hwork : work ⟨s, []⟩ = _ := hrun
  simp only [performInPlace, hcommand, perform, hperform]
  show (match EStateM.tryCatch (EStateM.bind work fun _ => pure (Reply.memory .done)) _ ⟨s, []⟩ with
    | .ok _ _ => _ | .error _ _ => _) = _
  simp only [EStateM.tryCatch, EStateM.bind, hwork]
  cases result <;> rfl

/-- **In place or not.** A command that is carried out in place leads to the same state and gives the same answer. -/
theorem performInPlace_eq (arranged : s.registry.Arranged) (command : Command) :
    s.performInPlace command = s.perform command := by
  cases command with
  | force address kind => exact performInPlace_forced arranged address kind rfl
  | override address as => exact performInPlace_forced arranged address as.access rfl
  | render id => exact performInPlace_map rfl (InPlace.run_render id _)
  | renderNamed name => exact performInPlace_map rfl (InPlace.run_renderNamed name _)
  | rowIndex id address => exact performInPlace_map rfl (InPlace.run_rowIndex id address _)
  | rowIndexAtPc pc codeBank => exact performInPlace_map rfl (InPlace.run_rowIndexAtPc pc codeBank _)
  | insertCartridge image => exact performInPlace_map rfl (InPlace.run_insertCartridge image _)
  | replaceBios image => exact performInPlace_map rfl (InPlace.run_replaceBios image _)
  | unsubscribe number => exact performInPlace_map rfl (InPlace.run_unsubscribe number _)
  | memory command =>
    cases command with
    | replaceBios image =>
      refine performInPlace_answered rfl (InPlace.run_loadBios image _) ?_
      rw [Memory.perform]
      cases s.memory.replaceBios image <;> rfl
    | insertCartridge image =>
      refine performInPlace_answered rfl (InPlace.run_loadCartridge image _) ?_
      rw [Memory.perform]
      cases s.memory.insertCartridge image <;> rfl
    | _ => rfl
  | _ => rfl

/-! ## Refusals -/

theorem Refuses.isRefusal (h : s.Refuses command reply) : reply.isRefusal = true := by
  cases h <;> rfl

theorem render_of_not_holds {id : BankId} (h : ¬ s.registry.Holds id) : s.render id = .error (.unknownBank id.text) := by
  have hget : s.registry.get? id = none := by
    refine List.find?_eq_none.2 fun bank hmem hid => h ⟨bank, hmem, ?_⟩
    simpa using hid
  simp only [render, hget]

theorem exists_render_of_holds (arranged : s.registry.Arranged) {id : BankId} (h : s.registry.Holds id) :
    ∃ t rows, s.render id = .ok (t, rows) := by
  obtain ⟨bank, hmem, rfl⟩ := h
  exact exists_render arranged hmem

theorem forced_of_not_covers (arranged : s.registry.Arranged) {address : UInt32}
    (h : s.registry.covers address = false) (kind : Access) : s.forced address kind = (s, .quiet (.found false)) := by
  rw [arranged.covers_eq] at h
  rcases s.forced_cases address kind with ⟨-, hforced⟩ | ⟨bank, hcovering, -⟩
  · exact hforced
  · rw [hcovering] at h
    cases h

theorem forced_of_covers (arranged : s.registry.Arranged) {address : UInt32} (h : s.registry.covers address = true)
    (kind : Access) : (s.forced address kind).2.reply = .found true := by
  rw [arranged.covers_eq] at h
  rcases s.forced_cases address kind with ⟨hnone, -⟩ | ⟨bank, -, hforced⟩
  · rw [hnone] at h
    cases h
  · rw [hforced]

/-- The bank of a program counter is always there. -/
theorem exists_rowIndexAtPc (arranged : s.registry.Arranged) (pc : UInt16) (codeBank : UInt8) :
    ∃ place, (s.perform (.rowIndexAtPc pc codeBank)).2.reply = .place place := by
  simp only [perform, rowIndexAtPc, bankFor?]
  cases hbank : s.registry.bankFor? (Address.physical pc codeBank) with
  | none => exact ⟨none, rfl⟩
  | some id =>
    obtain ⟨t, rows, hrender⟩ := exists_render_of_holds arranged (arranged.holds_of_bankFor? hbank)
    simp only [rowIndex, hrender]
    exact ⟨_, rfl⟩

/-- A command that is refused does nothing else than to give the answer. -/
theorem Refuses.perform (h : s.Refuses command reply) (arranged : s.registry.Arranged) :
    s.perform command = (s, .quiet reply) := by
  have htooLarge {image : List UInt8} (hsize : 0x1000 < image.length) :
      s.memory.replaceBios image = .error (.biosTooLarge image.length) := dif_neg (Nat.not_le.2 hsize)
  cases h with
  | emptyCartridge | memoryEmptyCartridge => rfl
  | biosTooLarge image hsize =>
    simp only [Tracer.perform, Tracer.replaceBios, htooLarge hsize]
    rfl
  | memoryBiosTooLarge image hsize => simp only [Tracer.perform, Memory.perform, htooLarge hsize]
  | render id hnone =>
    simp only [Tracer.perform, render_of_not_holds hnone]
    rfl
  | rowIndex id address hnone =>
    simp only [Tracer.perform, Tracer.rowIndex, render_of_not_holds hnone]
    rfl
  | misspelt name htext =>
    simp only [Tracer.perform, Tracer.renderNamed, BankId.ofText, htext]
    rfl
  | renderNamed name id htext hnone =>
    simp only [Tracer.perform, Tracer.renderNamed, BankId.ofText, htext]
    show s.settled (s.render id) .listing = _
    rw [render_of_not_holds hnone]
    rfl
  | force address kind hnone => exact forced_of_not_covers arranged hnone kind
  | override address as hnone => exact forced_of_not_covers arranged hnone as.access
  | unsubscribe number hdead =>
    simp only [Tracer.perform, Tracer.unsubscribe, Subscriptions.unsubscribe_of_not_live hdead, hdead]

/-! ### Nothing else is refused -/

/-- A refusal comes from an error. -/
theorem exists_error_of_refused {α : Type} {result : Except Error (Tracer × α)} {answer : α → Reply}
    (hanswer : ∀ a, (answer a).isRefusal = false) (h : (s.settled result answer).2.reply.isRefusal = true) :
    ∃ error, result = .error error := by
  cases result with
  | error error => exact ⟨error, rfl⟩
  | ok result =>
    change (answer result.2).isRefusal = true at h
    rw [hanswer] at h
    cases h

theorem error_of_map_eq_error {α β : Type} {f : α → β} {result : Except Error α} {error : Error}
    (h : result.map f = .error error) : result = .error error := by
  cases result with
  | error other =>
    cases h
    rfl
  | ok a => cases h

theorem not_holds_of_render_eq_error (arranged : s.registry.Arranged) {id : BankId} {error : Error}
    (h : s.render id = .error error) : ¬ s.registry.Holds id := by
  intro holds
  obtain ⟨t, rows, hrender⟩ := exists_render_of_holds arranged holds
  rw [h] at hrender
  cases hrender

theorem not_covers_of_refused (arranged : s.registry.Arranged) {address : UInt32} {kind : Access}
    (h : (s.forced address kind).2.reply.isRefusal = true) : s.registry.covers address = false := by
  cases hcovers : s.registry.covers address with
  | false => rfl
  | true =>
    rw [forced_of_covers arranged hcovers] at h
    cases h

theorem eq_nil_of_insertCartridge_eq_error {memory : Memory} {image : List UInt8} {error : Error}
    (h : memory.insertCartridge image = .error error) : image = [] := by
  cases image with
  | nil => rfl
  | cons byte image => cases h

theorem lt_length_of_replaceBios_eq_error {memory : Memory} {image : List UInt8} {error : Error}
    (h : memory.replaceBios image = .error error) : 0x1000 < image.length := by
  by_contra hsize
  have hfits : image.length ≤ Memory.biosSize := Nat.le_of_not_lt hsize
  rw [Memory.replaceBios, dif_pos hfits] at h
  cases h

theorem exists_refuses_memory {command : MemoryCommand}
    (h : (s.perform (.memory command)).2.reply.isRefusal = true) : ∃ reply, s.Refuses (.memory command) reply := by
  cases command with
  | insertCartridge image =>
    cases hresult : s.memory.insertCartridge image with
    | error error =>
      obtain rfl := eq_nil_of_insertCartridge_eq_error hresult
      exact ⟨_, .memoryEmptyCartridge⟩
    | ok memory =>
      simp only [Tracer.perform, Memory.perform, hresult] at h
      cases h
  | replaceBios image =>
    cases hresult : s.memory.replaceBios image with
    | error error => exact ⟨_, .memoryBiosTooLarge image (lt_length_of_replaceBios_eq_error hresult)⟩
    | ok memory =>
      simp only [Tracer.perform, Memory.perform, hresult] at h
      cases h
  | _ => cases h

/-- A command that is refused is one of those listed. -/
theorem exists_refuses (arranged : s.registry.Arranged) (h : (s.perform command).2.reply.isRefusal = true) :
    ∃ reply, s.Refuses command reply := by
  cases command with
  | force address kind => exact ⟨_, .force address kind (not_covers_of_refused arranged h)⟩
  | override address as => exact ⟨_, .override address as (not_covers_of_refused arranged h)⟩
  | render id =>
    obtain ⟨error, herror⟩ := exists_error_of_refused (fun _ => rfl) h
    exact ⟨_, .render id (not_holds_of_render_eq_error arranged herror)⟩
  | rowIndex id address =>
    obtain ⟨error, herror⟩ := exists_error_of_refused (fun _ => rfl) h
    exact ⟨_, .rowIndex id address (not_holds_of_render_eq_error arranged (error_of_map_eq_error herror))⟩
  | renderNamed name =>
    obtain ⟨error, herror⟩ := exists_error_of_refused (fun _ => rfl) h
    cases htext : BankId.ofText? name with
    | none => exact ⟨_, .misspelt name htext⟩
    | some id =>
      simp only [renderNamed, BankId.ofText, htext] at herror
      exact ⟨_, .renderNamed name id htext (not_holds_of_render_eq_error arranged herror)⟩
  | rowIndexAtPc pc codeBank =>
    obtain ⟨place, hplace⟩ := exists_rowIndexAtPc arranged pc codeBank
    rw [hplace] at h
    cases h
  | unsubscribe number =>
    cases hlive : s.subscriptions.isLive number with
    | false => exact ⟨_, .unsubscribe number hlive⟩
    | true =>
      simp only [Tracer.perform, unsubscribe, hlive] at h
      cases h
  | insertCartridge image =>
    obtain ⟨error, herror⟩ := exists_error_of_refused (fun _ => rfl) h
    obtain rfl := eq_nil_of_insertCartridge_eq_error (error_of_map_eq_error (error_of_map_eq_error herror))
    exact ⟨_, .emptyCartridge⟩
  | replaceBios image =>
    obtain ⟨error, herror⟩ := exists_error_of_refused (fun _ => rfl) h
    have hresult := error_of_map_eq_error (error_of_map_eq_error herror)
    exact ⟨_, .biosTooLarge image (lt_length_of_replaceBios_eq_error hresult)⟩
  | memory command => exact exists_refuses_memory h
  | _ => cases h

/-- What holds of the commands that a state refuses. -/
structure Refusals (s : Tracer) : Prop where
  inPlace : ∀ command, s.performInPlace command = s.perform command
  /-- A command is answered with a refusal just if there is cause, and the answer names the cause. -/
  refuses_iff : ∀ command reply,
    (s.performInPlace command).2.reply = reply ∧ reply.isRefusal = true ↔ s.Refuses command reply
  /-- Nothing is changed by a refused command, and nobody is told anything. -/
  unchanged : ∀ command, (s.performInPlace command).2.reply.isRefusal = true →
    (s.performInPlace command).1 = s ∧ (s.performInPlace command).2.deliveries = []
  /-- To look for a program counter is never refused. -/
  place : ∀ pc codeBank, ∃ place, (s.performInPlace (.rowIndexAtPc pc codeBank)).2.reply = .place place

/-- **Refused commands change nothing**, whatever has been done to the tracer before. -/
theorem Made.refusals {start : Tracer} (made : Made start) (commands : List Command) :
    Refusals (start.run commands).1 := by
  have arranged := (made.sound_run commands).arranged
  have inPlace := performInPlace_eq arranged
  refine ⟨inPlace, ?_, ?_, ?_⟩
  · intro command reply
    rw [inPlace]
    constructor
    · rintro ⟨rfl, hrefusal⟩
      obtain ⟨reply, hrefuses⟩ := exists_refuses arranged hrefusal
      rw [hrefuses.perform arranged]
      exact hrefuses
    · intro hrefuses
      exact ⟨by rw [hrefuses.perform arranged]; rfl, hrefuses.isRefusal⟩
  · intro command hrefusal
    rw [inPlace] at hrefusal ⊢
    obtain ⟨reply, hrefuses⟩ := exists_refuses arranged hrefusal
    rw [hrefuses.perform arranged]
    exact ⟨rfl, rfl⟩
  · intro pc codeBank
    rw [inPlace]
    exact exists_rowIndexAtPc arranged pc codeBank

/-- Without a cartridge there is no bank 0, however its number is spelled, and no bank contains the registers. -/
theorem refusals_withoutCartridge : ∃ s, s = (new.run [.subscribe .ram]).1 ∧
    (s.performInPlace (.renderNamed "rom:+0")).2.reply = .failed (.unknownBank "rom:0") ∧
    (s.performInPlace (.renderNamed "rom:+0")).1 = s ∧
    (s.performInPlace (.force 0x2010 .none)).2.reply = .found false ∧
    (s.performInPlace (.force 0x2010 .none)).2.deliveries = [] := by
  refine ⟨_, rfl, ?_⟩
  have refusals := Made.new.refusals [.subscribe .ram]
  have hholds : ¬ (Registry.ofCartridgeEnd 0).Holds (.rom 0) := by
    unfold Registry.Holds
    decide
  obtain ⟨hrender, hrefused⟩ := (refusals.refuses_iff _ _).2 (.renderNamed "rom:+0" (.rom 0) (by decide) hholds)
  obtain ⟨hforce, hrefused'⟩ := (refusals.refuses_iff _ _).2 (.force 0x2010 .none (by decide))
  rw [← hrender] at hrefused
  rw [← hforce] at hrefused'
  exact ⟨hrender, (refusals.unchanged _ hrefused).1, hforce, (refusals.unchanged _ hrefused').2⟩

end Tracer

end TraceDisasm
