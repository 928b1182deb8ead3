import TraceDisasm.Proofs.SingleAccess

/-!
# What is known is the evidence

What is known about an address follows from what the commands of a run say about this one address (`Tracer.evidence`). A
read adds to what is known, a write or an operator puts another word in its place, and a new cartridge makes it
unknown again (`Evidence.weigh`). Weighing one piece of evidence after the other gives the word of the address
(`Tracer.Sound.traceAt_run`); no other command and no other address has a part in it.

Evidence never tells a direction, and there is none about the registers and about addresses past the space. So no word that
is stored has a direction, and nothing is ever known about those addresses.
-/

namespace TraceDisasm

/-- The direction of an access is not stored. -/
theorem Access.not_has_persistent (kind : Access) {flag : Flag} (h : flag = .read ∨ flag = .write) :
    kind.persistent.has flag = false := by
  have hmask : (~~~direction).toNat = 2 ^ 30 - 1 := by decide
  have hindex : ¬ flag.index < 30 := by rcases h with rfl | rfl <;> decide
  simp only [has, persistent, UInt32.toNat_and, hmask, Nat.testBit_and, Nat.testBit_two_pow_sub_one, hindex,
    decide_false, Bool.and_false]

namespace Address

theorem isRegister_or_isCartridge_iff {address : UInt32} :
    isRegister address = true ∨ isCartridge address = true ↔ registersStart ≤ address := by
  simp only [isRegister, isCartridge, Bool.and_eq_true, decide_eq_true_eq, UInt32.le_iff_toNat_le,
    UInt32.lt_iff_toNat_lt, toNat_registersStart, toNat_cartridgeStart]
  omega

/-- A register, or an address past the space. -/
def Unowned (address : UInt32) : Prop := isRegister address = true ∨ spaceEnd ≤ address

variable {address : UInt32}

theorem Unowned.registersStart_le (h : Unowned address) : registersStart ≤ address := by
  rcases h with hregister | hspace
  · exact isRegister_or_isCartridge_iff.1 (.inl hregister)
  · exact UInt32.le_trans (by decide) hspace

theorem Unowned.ofAddress? (h : Unowned address) : BankId.ofAddress? address = none := by
  have hram : ¬ address < ramStart := UInt32.not_lt.2 (UInt32.le_trans (by decide) h.registersStart_le)
  rw [BankId.ofAddress?, if_neg hram, if_neg (UInt32.not_lt.2 h.registersStart_le), if_pos]
  simpa [Unowned] using h

end Address

/-! ## Evidence about an address -/

/-- What is said about an address. -/
inductive Evidence
  /-- The byte was read in this way. -/
  | added (kind : Access)
  /-- What was known holds no longer, but this does. -/
  | replaced (kind : Access)
  /-- What was known holds no longer. -/
  | forgotten
  deriving DecidableEq

namespace Evidence

/-- What is known in the light of one more piece of evidence. -/
def weigh (known : Access) : Evidence → Access
  | added kind => known.union kind.persistent
  | replaced kind => kind.persistent
  | forgotten => .none

/-- What an access by the CPU says. A write says something below the registers only. A read says something everywhere in
the space but at the registers. -/
def ofAccess? (address : UInt32) (kind : Access) : Option Evidence :=
  if kind.isWrite then
    if address < Address.registersStart then some (replaced kind) else none
  else if address < Address.spaceEnd ∧ ¬ Address.isRegister address then some (added kind) else none

/-- What is said when the banks are made for a cartridge. -/
def ofNewBanks? (address : UInt32) : Option Evidence :=
  if Address.ramStart ≤ address then some forgotten else none

variable {address : UInt32} {flag : Flag} {known : Access}

theorem ofAccess?_of_unowned (h : Address.Unowned address) (kind : Access) : ofAccess? address kind = none := by
  have hwrite : ¬ address < Address.registersStart := UInt32.not_lt.2 h.registersStart_le
  have hread : ¬ (address < Address.spaceEnd ∧ ¬ Address.isRegister address = true) := fun hread =>
    h.elim hread.2 fun hspace => UInt32.not_lt.2 hspace hread.1
  rw [ofAccess?, if_neg hwrite, if_neg hread, ite_self]

theorem not_has_weigh (hflag : flag = .read ∨ flag = .write) (hknown : known.has flag = false) (evidence : Evidence) :
    (evidence.weigh known).has flag = false := by
  cases evidence with
  | added kind => rw [weigh, Access.has_union, hknown, kind.not_has_persistent hflag, Bool.or_false]
  | replaced kind => exact kind.not_has_persistent hflag
  | forgotten => exact Access.has_none flag

theorem not_has_foldl (hflag : flag = .read ∨ flag = .write) (hknown : known.has flag = false) (all : List Evidence) :
    (all.foldl weigh known).has flag = false := by
  induction all generalizing known with
  | nil => exact hknown
  | cons evidence all ih => exact ih (not_has_weigh hflag hknown evidence)

end Evidence

namespace Registry

/-- Whether there is a bank that contains an address. -/
def covers (registry : Registry) (address : UInt32) : Bool := registry.banks.any fun bank => bank.contains address

theorem Arranged.covers_eq {registry : Registry} (h : registry.Arranged) (address : UInt32) :
    registry.covers address = (registry.covering? address).isSome := by
  rw [Bool.eq_iff_iff, covers, List.any_eq_true, Option.isSome_iff_exists]
  simp only [h.covering?_eq_some_iff]

theorem Arranged.covers_of_unowned {registry : Registry} (h : registry.Arranged) {address : UInt32}
    (hunowned : Address.Unowned address) : registry.covers address = false := by
  refine Bool.eq_false_iff.2 fun hcovers => ?_
  obtain ⟨bank, hmem, hin⟩ := List.any_eq_true.1 hcovers
  have howns := (h.placed hmem).owns address hin
  rw [hunowned.ofAddress?] at howns
  cases howns

theorem Arranged.covers_ram {registry : Registry} (h : registry.Arranged) {address : UInt32}
    (hlo : Address.ramStart ≤ address) (hhi : address < Address.registersStart) : registry.covers address = true := by
  obtain ⟨bank, hmem, hid⟩ := h.exists_fixed (.inr rfl : BankId.ram = .bios ∨ BankId.ram = .ram)
  exact List.any_eq_true.2 ⟨bank, hmem, (h.placed hmem).contains_ram hid hlo hhi⟩

end Registry

namespace Tracer

/-- What an operator says about an address: something if it is in a bank. -/
def saidByOperator? (s : Tracer) (address : UInt32) (kind : Access) : Option Evidence :=
  if s.registry.covers address then some (.replaced kind) else none

/-- What a command says about an address, if it says anything. -/
def evidence? (s : Tracer) (address : UInt32) : Command → Option Evidence
  | .observe accessed kind _ => if accessed = address then Evidence.ofAccess? address kind else none
  | .force forced kind => if forced = address then s.saidByOperator? address kind else none
  | .override forced as => if forced = address then s.saidByOperator? address as.access else none
  | .reset | .eject => Evidence.ofNewBanks? address
  | .insertCartridge image =>
    match s.insertCartridge image with
    | .ok _ => Evidence.ofNewBanks? address
    | .error _ => none
  | _ => none

/-- What the commands of a run say about an address, in order. -/
def evidence (s : Tracer) (address : UInt32) : List Command → List Evidence
  | [] => []
  | command :: commands => (s.evidence? address command).toList ++ (s.perform command).1.evidence address commands

variable {s : Tracer} {address : UInt32} {kind : Access}

/-! ## What one command leaves behind -/

/-- An access has the effect that what it says is weighed. -/
theorem accessEffect_eq (classification : Classification) (hspace : address < Address.spaceEnd) (kind : Access) :
    classification.accessEffect address kind = (Evidence.ofAccess? address kind).elim .ignored fun evidence =>
      .between (classification.get address) (evidence.weigh (classification.get address)) := by
  unfold Classification.accessEffect Evidence.ofAccess?
  by_cases hwrite : kind.isWrite = true
  · by_cases hlow : address < Address.registersStart
    · have habove : ¬ (Address.isRegister address = true ∨ Address.isCartridge address = true) := by
        rwa [Address.isRegister_or_isCartridge_iff, UInt32.not_le]
      rw [not_or] at habove
      simp [hwrite, hlow, habove, Evidence.weigh]
    · have habove := Address.isRegister_or_isCartridge_iff.2 (UInt32.not_lt.1 hlow)
      rcases habove with hregister | hcartridge
      · simp [hwrite, hlow, hregister]
      · simp [hwrite, hlow, hcartridge]
  · by_cases hregister : Address.isRegister address = true
    · simp [hwrite, hregister]
    · simp [hwrite, hregister, hspace, Evidence.weigh]

theorem traceAt_observe (s : Tracer) (address : UInt32) (kind : Access) (value : UInt8) :
    (s.observe address kind value).traceAt address =
      (Evidence.ofAccess? address kind).toList.foldl Evidence.weigh (s.traceAt address) := by
  by_cases hspace : Address.spaceEnd ≤ address
  · rw [observe, if_pos hspace, Evidence.ofAccess?_of_unowned (.inr hspace)]
    rfl
  · have hbound : address.toNat < Address.spaceSize := UInt32.lt_iff_toNat_lt.1 (UInt32.not_le.1 hspace)
    rw [traceAt, classification_observe hspace, accessEffect_eq _ (UInt32.not_le.1 hspace)]
    cases Evidence.ofAccess? address kind with
    | none => rfl
    | some evidence =>
      rw [Option.elim_some, s.classification.get_apply_between hbound, if_pos rfl]
      rfl

theorem traceAt_forced (arranged : s.registry.Arranged) (forced address : UInt32) (kind : Access) :
    (s.forced forced kind).1.traceAt address =
      (if forced = address then s.saidByOperator? address kind else none).toList.foldl Evidence.weigh
        (s.traceAt address) := by
  unfold saidByOperator?
  rcases s.forced_cases forced kind with ⟨hnone, hforced⟩ | ⟨bank, hcovering, hforced⟩
  · have hnot : s.registry.covers forced = false := by rw [arranged.covers_eq, hnone]; rfl
    rw [hforced]
    by_cases hsame : forced = address
    · rw [if_pos hsame, ← hsame, hnot]
      rfl
    · rw [if_neg hsame]
      rfl
  · have hcovers : s.registry.covers forced = true := by rw [arranged.covers_eq, hcovering]; rfl
    have hbound := arranged.lt_spaceSize hcovering
    simp only [hforced, traceAt, Classification.forceEffect, s.classification.get_apply_between hbound]
    by_cases hsame : forced = address
    · rw [if_pos hsame, if_pos hsame.symm, ← hsame, hcovers]
      rfl
    · rw [if_neg hsame, if_neg (Ne.symm hsame)]
      rfl

theorem traceAt_reset (s : Tracer) (address : UInt32) :
    s.reset.traceAt address = (Evidence.ofNewBanks? address).toList.foldl Evidence.weigh (s.traceAt address) := by
  rw [traceAt, reset, Classification.get_clearFrom, Evidence.ofNewBanks?]
  by_cases hlow : address < Address.ramStart
  · rw [if_pos hlow, if_neg (UInt32.not_le.2 hlow)]
    rfl
  · rw [if_neg hlow, if_pos (UInt32.not_lt.1 hlow)]
    rfl

theorem traceAt_of_asksListing {command : Command} (h : command.asksListing = true) :
    (s.perform command).1.traceAt address = s.traceAt address := by
  rcases s.perform_of_asksListing h with hsame | ⟨other, rows, hlisted⟩
  · rw [hsame]
  · rw [hlisted]
    rfl

/-- **What one command leaves behind.** It is what was known, in the light of what the command says. -/
theorem Sound.traceAt_perform (sound : s.Sound) (command : Command) (address : UInt32) :
    (s.perform command).1.traceAt address =
      (s.evidence? address command).toList.foldl Evidence.weigh (s.traceAt address) := by
  cases command with
  | observe accessed kind value =>
    rw [evidence?]
    by_cases hsame : accessed = address
    · rw [if_pos hsame, ← hsame]
      exact s.traceAt_observe accessed kind value
    · rw [if_neg hsame]
      have hframe : (s.observe accessed kind value).traceAt address = s.traceAt address :=
        traceAt_observe_of_ne (Ne.symm hsame)
      exact hframe
  | force forced kind => exact traceAt_forced sound.arranged forced address kind
  | override forced as => exact traceAt_forced sound.arranged forced address as.access
  | reset => exact s.traceAt_reset address
  | eject => exact traceAt_reset { s with memory := s.memory.eject } address
  | insertCartridge image =>
    rcases s.perform_insertCartridge image with ⟨⟨error, hfailed⟩, hsame⟩ | ⟨memory, hinsert, hnext⟩
    · rw [hsame, evidence?, hfailed]
      rfl
    · rw [hnext, evidence?, hinsert]
      exact traceAt_reset { s with memory := memory } address
  | replaceBios image =>
    rcases s.perform_replaceBios image with ⟨-, hsame⟩ | ⟨memory, -, -, hnext⟩
    · rw [hsame]
      rfl
    · rw [hnext]
      rfl
  | render _ | renderNamed _ | rowIndex _ _ | rowIndexAtPc _ _ => exact traceAt_of_asksListing rfl
  | update | subscribe _ | unsubscribe _ | memory _ => rfl

/-! ## Whole runs -/

theorem Sound.traceAt_run (sound : s.Sound) (commands : List Command) (address : UInt32) :
    (s.run commands).1.traceAt address = (s.evidence address commands).foldl Evidence.weigh (s.traceAt address) := by
  induction commands generalizing s with
  | nil => rfl
  | cons command commands ih =>
    rw [run_cons, ih (sound.perform command), sound.traceAt_perform command address, evidence, List.foldl_append]

/-- The only thing that is said about a register, or about an address past the space, is that nothing is known. -/
theorem Sound.evidence?_of_unowned (sound : s.Sound) (h : Address.Unowned address) (command : Command) :
    s.evidence? address command = none ∨ s.evidence? address command = some .forgotten := by
  have hoperator (kind : Access) : s.saidByOperator? address kind = none := by
    rw [saidByOperator?, sound.arranged.covers_of_unowned h, if_neg Bool.false_ne_true]
  have hnewBanks : Evidence.ofNewBanks? address = none ∨ Evidence.ofNewBanks? address = some .forgotten := by
    unfold Evidence.ofNewBanks?
    split
    · exact .inr rfl
    · exact .inl rfl
  cases command with
  | observe accessed kind value => exact .inl (by rw [evidence?, Evidence.ofAccess?_of_unowned h, ite_self])
  | force forced kind => exact .inl (by rw [evidence?, hoperator, ite_self])
  | override forced as => exact .inl (by rw [evidence?, hoperator, ite_self])
  | reset | eject => exact hnewBanks
  | insertCartridge image =>
    rw [evidence?]
    split
    · exact hnewBanks
    · exact .inl rfl
  | _ => exact .inl rfl

theorem Sound.traceAt_run_of_unowned (sound : s.Sound) (h : Address.Unowned address) (hnone : s.traceAt address = .none)
    (commands : List Command) : (s.run commands).1.traceAt address = .none := by
  induction commands generalizing s with
  | nil => exact hnone
  | cons command commands ih =>
    have hnext : (s.perform command).1.traceAt address = .none := by
      rw [sound.traceAt_perform command address]
      rcases sound.evidence?_of_unowned h command with hsilent | hforgotten
      · rw [hsilent]
        exact hnone
      · rw [hforgotten]
        rfl
    rw [run_cons]
    exact ih (sound.perform command) hnext

/-- **What is known about an address is the evidence.** It has no direction, and about a register or an address past the
space nothing is known. -/
theorem Made.traceAt_eq_evidence {start : Tracer} (made : Made start) (commands : List Command) (address : UInt32) :
    (start.run commands).1.traceAt address = (start.evidence address commands).foldl Evidence.weigh .none ∧
      ((start.run commands).1.traceAt address).has .read = false ∧
      ((start.run commands).1.traceAt address).has .write = false ∧
      (Address.Unowned address → (start.run commands).1.traceAt address = .none) := by
  have sound : start.Sound := made.sound_run []
  have hstart : start.traceAt address = .none := by
    obtain ⟨config, rfl⟩ := made.exists_config
    exact Classification.get_empty address
  have hrun := sound.traceAt_run commands address
  rw [hstart] at hrun
  refine ⟨hrun, ?_, ?_, fun h => sound.traceAt_run_of_unowned h hstart commands⟩
  · rw [hrun]
    exact Evidence.not_has_foldl (.inl rfl) (Access.has_none .read) _
  · rw [hrun]
    exact Evidence.not_has_foldl (.inr rfl) (Access.has_none .write) _

/-- An instruction in the RAM is read. The cartridge is removed, an operator says that there is code, and then data is
written over it and read as an operand. -/
def rewritten : List Command :=
  [.observe 0x1040 (.ofFlags [.instruction, .read]) 0, .eject, .override 0x1040 .code,
    .observe 0x1040 (.ofFlags [.data, .write]) 1, .render .ram, .observe 0x1040 (.ofFlags [.immediate, .read]) 1]

theorem evidence_rewritten : new.evidence 0x1040 rewritten =
    [.added (.ofFlags [.instruction, .read]), .forgotten, .replaced (.ofFlags [.instruction]),
      .replaced (.ofFlags [.data, .write]), .added (.ofFlags [.immediate, .read])] := by
  have covers : (new.run (rewritten.take 2)).1.registry.covers 0x1040 = true :=
    (Made.new.sound_run (rewritten.take 2)).arranged.covers_ram (by decide) (by decide)
  have hoverride : (new.run (rewritten.take 2)).1.evidence? 0x1040 (.override 0x1040 .code) =
      some (.replaced (.ofFlags [.instruction])) := by
    rw [evidence?, if_pos rfl, saidByOperator?, covers, if_pos rfl]
    rfl
  have hread : Evidence.ofAccess? 0x1040 (.ofFlags [.instruction, .read]) =
      some (.added (.ofFlags [.instruction, .read])) := by decide
  have hwrite : Evidence.ofAccess? 0x1040 (.ofFlags [.data, .write]) =
      some (.replaced (.ofFlags [.data, .write])) := by decide
  have hreread : Evidence.ofAccess? 0x1040 (.ofFlags [.immediate, .read]) =
      some (.added (.ofFlags [.immediate, .read])) := by decide
  have heject : Evidence.ofNewBanks? 0x1040 = some .forgotten := by decide
  simp only [rewritten, List.take, run] at hoverride
  simp only [rewritten, evidence, hoverride]
  simp only [evidence?, if_pos, hread, hwrite, hreread, heject]
  rfl

theorem traceAt_eq_evidence_rewritten : (new.run rewritten).1.traceAt 0x1040 = .ofFlags [.data, .immediate] := by
  rw [(Made.new.traceAt_eq_evidence rewritten 0x1040).1, evidence_rewritten]
  decide

end Tracer

end TraceDisasm
