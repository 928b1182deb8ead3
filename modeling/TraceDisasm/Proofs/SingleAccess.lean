import TraceDisasm.Proofs.Delivery

/-!
# The effect of one access

An access that the CPU reports may give its address another word, label the address, and mark the bank of the address as
changed. It does nothing else, and nobody is told (`Tracer.Made.observe_touches`).

An access that leaves the word of its address as it is leaves everything as it is. The access alone does not show this: if
it is to a branch target, the address is to be labelled. But then it is known as a branch target already, and such an
address has its label (`Tracer.Sound.contains_of_unchanged`).
-/

namespace TraceDisasm

/-- Whether an access labels its address. It must be to a branch target, and it must be one that tells something: to an
address of the space, not to a register, and not a write to the cartridge. -/
def Access.givesLabel (kind : Access) (address : UInt32) : Bool :=
  kind.has .branchTarget && address < Address.spaceEnd && !Address.isRegister address &&
    !(kind.isWrite && Address.isCartridge address)

theorem Classification.accessEffect_eq_ignored_iff {classification : Classification} {address : UInt32} {kind : Access} :
    classification.accessEffect address kind = .ignored ↔
      Address.isRegister address = true ∨ kind.isWrite = true ∧ Address.isCartridge address = true := by
  have between (previous current : Access) : Effect.between previous current ≠ .ignored := by
    unfold Effect.between
    split <;> nofun
  unfold accessEffect
  split
  · next hregister => simp [hregister]
  · next hregister =>
    split
    · next hwrite =>
      split
      · next hcartridge => simp [hwrite, hcartridge]
      · next hcartridge => simp [between, hregister, hcartridge]
    · next hread => simp [between, hregister, hread]

theorem Registry.banks_invalidateAt (registry : Registry) (address : UInt32) :
    (registry.invalidateAt address).banks =
      registry.banks.map fun bank => if registry.bankFor? address = some bank.id then bank.invalidate else bank := by
  unfold invalidateAt
  split
  · next id hbank => simp only [hbank, modify, Option.some.injEq, eq_comm]
  · next hbank => simp [hbank]

namespace Tracer

variable {s : Tracer} {address : UInt32} {kind : Access} {value : UInt8}

/-! ## Words and labels -/

theorem classification_observe (hspace : ¬ Address.spaceEnd ≤ address) :
    (s.observe address kind value).classification =
      s.classification.apply address (s.classification.accessEffect address kind) := by
  rw [observe, if_neg hspace]
  cases s.classification.accessEffect address kind <;> rfl

/-- An access leaves all words but that of its address. -/
theorem traceAt_observe_of_ne {other : UInt32} (hother : other ≠ address) :
    (s.observe address kind value).traceAt other = s.traceAt other := by
  by_cases hspace : Address.spaceEnd ≤ address
  · rw [observe, if_pos hspace]
  · have hbound : address.toNat < Address.spaceSize := UInt32.lt_iff_toNat_lt.1 (UInt32.not_le.1 hspace)
    rw [traceAt, classification_observe hspace]
    cases s.classification.accessEffect address kind with
    | changed previous current => rw [s.classification.get_apply hbound, if_neg hother]; rfl
    | _ => rfl

theorem symbols_observe (s : Tracer) (address : UInt32) (kind : Access) (value : UInt8) :
    (s.observe address kind value).symbols =
      if kind.givesLabel address = true then s.symbols.insert address else s.symbols := by
  by_cases hspace : Address.spaceEnd ≤ address
  · have hnot : kind.givesLabel address = false := by simp [Access.givesLabel, UInt32.not_lt.2 hspace]
    rw [observe, if_pos hspace, hnot, if_neg Bool.false_ne_true]
  · rw [observe, if_neg hspace]
    by_cases hignored : s.classification.accessEffect address kind = .ignored
    · have hnot : kind.givesLabel address = false := by
        rcases Classification.accessEffect_eq_ignored_iff.1 hignored with hregister | ⟨hwrite, hcartridge⟩
        · simp [Access.givesLabel, hregister]
        · simp [Access.givesLabel, hwrite, hcartridge]
      rw [hignored, hnot, if_neg Bool.false_ne_true]
    · have hgives : kind.givesLabel address = kind.has .branchTarget := by
        rw [Classification.accessEffect_eq_ignored_iff, not_or, not_and] at hignored
        have hlt := UInt32.not_le.1 hspace
        cases hwrite : kind.isWrite <;> simp_all [Access.givesLabel]
      rw [hgives]
      split
      · contradiction
      · rfl
      · rfl

theorem contains_observe (s : Tracer) (accessed : UInt32) (kind : Access) (value : UInt8) (address : UInt32) :
    (s.observe accessed kind value).symbols.contains address =
      (accessed == address && kind.givesLabel address || s.symbols.contains address) := by
  rw [symbols_observe]
  by_cases hsame : accessed = address
  · subst hsame
    split <;> simp_all
  · have hdistinct : (accessed == address) = false := beq_false_of_ne hsame
    split <;> simp [hdistinct]

/-- Nothing happens if the word stays as it is. -/
theorem Sound.observe_eq_self (sound : s.Sound)
    (h : (s.observe address kind value).traceAt address = s.traceAt address) : s.observe address kind value = s := by
  by_cases hspace : Address.spaceEnd ≤ address
  · rw [observe, if_pos hspace]
  · cases heffect : s.classification.accessEffect address kind with
    | ignored => rw [observe, if_neg hspace, heffect]
    | unchanged =>
      have hlabel : label s.symbols address kind = s.symbols := by
        unfold label
        split
        · next htarget => exact Symbols.insert_eq_self (sound.contains_of_unchanged heffect htarget)
        · rfl
      rw [observe, if_neg hspace, heffect]
      simp only [hlabel]
    | changed previous current => exact absurd h (traceAt_observe_ne hspace heffect)

/-! ## The whole state -/

/-- The state `t` is what an access to `address` may make of the state `s`. -/
structure Touches (s t : Tracer) (address : UInt32) (kind : Access) : Prop where
  config : t.config = s.config
  memory : t.memory = s.memory
  subscriptions : t.subscriptions = s.subscriptions
  /-- Other words stay. -/
  word : ∀ other ≠ address, t.traceAt other = s.traceAt other
  stem : t.symbols.stem = s.symbols.stem
  /-- Other labels stay, and so does a label that the address has already. -/
  label : ∀ other, t.labelAt other =
    if other = address ∧ kind.givesLabel address = true then some (s.symbols.name address) else s.labelAt other
  /-- The bank of the address is marked if the word has changed. All other banks stay, and all listings. -/
  banks : t.registry.banks = s.registry.banks.map fun bank =>
    if t.traceAt address ≠ s.traceAt address ∧ s.bankFor? address = some bank.id then
      { bank with dirty := true, pending := true }
    else bank
  /-- Nothing happens if the word stays as it is. -/
  idle : t.traceAt address = s.traceAt address → t = s

theorem Sound.touches (sound : s.Sound) (address : UInt32) (kind : Access) (value : UInt8) :
    s.Touches (s.observe address kind value) address kind where
  config := by
    unfold observe
    split
    · rfl
    · split <;> rfl
  memory := by
    unfold observe
    split
    · rfl
    · split <;> rfl
  subscriptions := s.subscriptions_observe address kind value
  word _ hother := traceAt_observe_of_ne hother
  stem := by
    rw [symbols_observe]
    split <;> rfl
  label other := by
    rw [labelAt, symbols_observe, labelAt]
    by_cases hgives : kind.givesLabel address = true
    · rw [if_pos hgives, Symbols.lookup_insert]
      simp only [hgives, and_true]
    · rw [if_neg hgives, if_neg fun h => hgives h.2]
  banks := by
    rcases s.observe_cases address kind value with ⟨hsame, hregistry⟩ | ⟨hother, hregistry⟩
    · simp [hregistry, hsame]
    · simp only [hregistry, Registry.banks_invalidateAt, ne_eq, hother, not_false_eq_true, true_and]
      rfl
  idle h := sound.observe_eq_self h

/-- **The exact effect of one access.** In every state that commands lead to, an access touches its own address and the bank
of this address, and nobody is told. -/
theorem Made.observe_touches {start : Tracer} (made : Made start) (commands : List Command) (address : UInt32)
    (kind : Access) (value : UInt8) :
    ((start.run commands).1.perform (.observe address kind value)).2.deliveries = [] ∧
      (start.run commands).1.Touches ((start.run commands).1.perform (.observe address kind value)).1 address kind :=
  ⟨rfl, (made.sound_run commands).touches address kind value⟩

/-- An instruction is read that a branch leads to. -/
def targetRead : Access := .ofFlags [.instruction, .branchTarget, .read]

/-- The RAM has been listed and announced. An access to a branch target in it gives the address a label. -/
theorem observe_touches_target : ∃ t, t = ((new.run [.update, .render .ram]).1.perform (.observe 0x1040 targetRead 0)).1 ∧
    (new.run [.update, .render .ram]).1.Touches t 0x1040 targetRead ∧ t.labelAt 0x1040 = some "loc_1040" := by
  obtain ⟨-, touches⟩ := Made.new.observe_touches [.update, .render .ram] 0x1040 targetRead 0
  refine ⟨_, rfl, touches, ?_⟩
  rw [touches.label, if_pos (by decide)]
  rfl

end Tracer

end TraceDisasm
