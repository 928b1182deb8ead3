import TraceDisasm.Proofs.CartridgeSwap
import TraceDisasm.Proofs.Evidence

/-!
# How an address comes by its label

An address has a label if a command of the run has given it one, and no later command has forgotten it
(`Tracer.Labelled`). To forget labels takes a new set of banks, and those of the BIOS are not even forgotten then. A label
thus outlasts what is known about its address: a write takes away the branch target, but not the label.

The label itself does not depend on the run. It is the configured stem with the digits of the address, and since these are
written without leading zeros, no two addresses share a label (`Symbols.name_injective`).
-/

namespace TraceDisasm

/-! ## Hexadecimal digits -/

namespace Hex

theorem digit_lower {value : Nat} (h : value < 16) : digit .lower value = value.digitChar := by
  have all : ∀ v : Fin 16, digit .lower v = Nat.digitChar v := by decide
  exact all ⟨value, h⟩

/-- A digit is told from its text. -/
theorem digitChar_inj {a b : Nat} (ha : a < 16) (hb : b < 16) (h : a.digitChar = b.digitChar) : a = b := by
  have hvalue := congrArg digitValue? h
  rw [← digit_lower ha, ← digit_lower hb, digitValue?_digit .lower ha, digitValue?_digit .lower hb] at hvalue
  exact Option.some.inj hvalue

theorem toDigits_append_ne (n : Nat) (c d : Char) : Nat.toDigits 16 n ++ [c] ≠ [d] := by
  intro h
  have hlength := congrArg List.length h
  simp [Nat.toDigits_ne_nil] at hlength

/-- A number is told from its digits. -/
theorem toDigits_inj {a b : Nat} (h : Nat.toDigits 16 a = Nat.toDigits 16 b) : a = b := by
  induction a using Nat.strongRecOn generalizing b with
  | ind a ih =>
    by_cases ha : a < 16
    · by_cases hb : b < 16
      · rw [Nat.toDigits_of_lt_base ha, Nat.toDigits_of_lt_base hb, List.singleton_inj] at h
        exact digitChar_inj ha hb h
      · rw [Nat.toDigits_of_lt_base ha, Nat.toDigits_of_base_le (by decide) (Nat.le_of_not_lt hb)] at h
        exact absurd h.symm (toDigits_append_ne _ _ _)
    · rw [Nat.toDigits_of_base_le (by decide) (Nat.le_of_not_lt ha)] at h
      by_cases hb : b < 16
      · rw [Nat.toDigits_of_lt_base hb] at h
        exact absurd h (toDigits_append_ne _ _ _)
      · rw [Nat.toDigits_of_base_le (by decide) (Nat.le_of_not_lt hb)] at h
        obtain ⟨hhigh, hlow⟩ := List.append_inj' h rfl
        have hquotient : a / 16 = b / 16 := ih (a / 16) (by omega) hhigh
        have hremainder : a % 16 = b % 16 :=
          digitChar_inj (Nat.mod_lt a (by decide)) (Nat.mod_lt b (by decide)) (List.singleton_inj.1 hlow)
        omega

/-- Zeros are only removed from behind the front digits if these are zeros all of them. -/
theorem dropZeros_append {count : Nat} {front : List Char} (hfront : front.length = count + 1) (rest : List Char) :
    dropZeros (count + 1) (front ++ rest) =
      if dropZeros count front = ['0'] then rest else dropZeros count front ++ rest := by
  induction count generalizing front with
  | zero =>
    obtain ⟨c, rfl⟩ := List.length_eq_one_iff.1 hfront
    by_cases hc : c = '0'
    · subst hc
      rfl
    · simp [dropZeros, hc]
  | succ count ih =>
    obtain ⟨c, front, rfl⟩ := List.exists_cons_of_length_eq_add_one hfront
    have hlength : front.length = count + 1 := Nat.succ.inj hfront
    by_cases hc : c = '0'
    · subst hc
      exact ih hlength
    · simp [dropZeros, hc]

/-- What is left without leading zeros are the digits of the number. -/
theorem dropZeros_fixed (width : Nat) {n : Nat} (h : n < Nat.pow 16 (width + 1)) :
    dropZeros width (fixed .lower (width + 1) n) = Nat.toDigits 16 n := by
  induction width generalizing n with
  | zero =>
    have hn : n < 16 := h
    rw [Nat.toDigits_of_lt_base hn, fixed, fixed, Nat.mod_eq_of_lt hn, digit_lower hn]
    rfl
  | succ width ih =>
    have hquotient : n / 16 < Nat.pow 16 (width + 1) := Nat.div_lt_of_lt_mul (Nat.mul_comm _ 16 ▸ h)
    rw [fixed, dropZeros_append (length_fixed _ _ _), ih hquotient, digit_lower (Nat.mod_lt n (by decide))]
    by_cases hn : n < 16
    · rw [Nat.toDigits_of_lt_base hn, Nat.div_eq_of_lt hn, Nat.mod_eq_of_lt hn]
      rfl
    · rw [Nat.toDigits_of_base_le (by decide) (Nat.le_of_not_lt hn), if_neg]
      intro hzero
      have := toDigits_inj (hzero.trans (Nat.toDigits_zero 16).symm)
      omega

/-- The shortest text of an address are its digits. -/
theorem atLeast_one (n : UInt32) : atLeast .lower 1 n = Nat.toDigits 16 n.toNat :=
  dropZeros_fixed 7 (Nat.lt_of_lt_of_le n.toNat_lt (by decide))

end Hex

theorem Symbols.name_eq (symbols : Symbols) (address : UInt32) :
    symbols.name address = symbols.stem ++ String.ofList (Nat.toDigits 16 address.toNat) := by
  rw [name, Hex.atLeast_one]

/-- Whatever their stem is, labels tell addresses apart. -/
theorem Symbols.name_injective (symbols : Symbols) : Function.Injective symbols.name := by
  intro a b h
  rw [name_eq, name_eq] at h
  have hlists := congrArg String.toList h
  simp only [String.toList_append, String.toList_ofList, List.append_cancel_left_eq] at hlists
  exact UInt32.toNat_inj.1 (Hex.toDigits_inj hlists)

/-! ## One command -/

/-- Whether a command makes new banks. -/
def Command.makesBanks : Command → Bool
  | .reset => true
  | command => command.swapsCartridge

/-- Whether a command forgets the label of an address. -/
def Command.forgets (address : UInt32) (command : Command) : Bool :=
  Address.ramStart ≤ address && command.makesBanks

/-- A cartridge is inserted unless its image is empty. -/
theorem Tracer.isOk_insertCartridge (s : Tracer) (image : List UInt8) :
    (s.insertCartridge image).isOk = !image.isEmpty := by
  unfold Tracer.insertCartridge Memory.insertCartridge
  split <;> simp_all [Except.map, Except.isOk, Except.toBool]

/-- No override says that an address is a branch target. -/
theorem Override.not_has_branchTarget (as : Override) : as.access.has .branchTarget = false := by
  cases as <;> decide

namespace Tracer

/-- Whether a command labels an address: an access to a branch target, if it tells something about the address, or the
word of an operator that there is a branch target, if the address is in a bank. -/
def labels (s : Tracer) (address : UInt32) : Command → Bool
  | .observe accessed kind _ => accessed == address && kind.givesLabel address
  | .force forced kind => forced == address && kind.has .branchTarget && s.registry.covers address
  | _ => false

variable {s : Tracer} {address : UInt32} {commands : List Command} {command : Command}

theorem contains_forced (arranged : s.registry.Arranged) (forced : UInt32) (kind : Access) (address : UInt32) :
    (s.forced forced kind).1.symbols.contains address =
      (forced == address && kind.has .branchTarget && s.registry.covers address || s.symbols.contains address) := by
  rcases s.forced_cases forced kind with ⟨hnone, hforced⟩ | ⟨bank, hcovering, hforced⟩
  · have hnot : s.registry.covers forced = false := by rw [arranged.covers_eq, hnone]; rfl
    rw [hforced]
    by_cases hsame : forced = address
    · simp [← hsame, hnot]
    · simp [hsame]
  · have hcovers : s.registry.covers forced = true := by rw [arranged.covers_eq, hcovering]; rfl
    rw [hforced]
    by_cases hsame : forced = address
    · simp [← hsame, hcovers]
    · have hdistinct : (forced == address) = false := beq_false_of_ne hsame
      simp [hdistinct]

theorem contains_reset (s : Tracer) (address : UInt32) :
    s.reset.symbols.contains address = (s.symbols.contains address && !decide (Address.ramStart ≤ address)) := by
  rw [reset, Symbols.contains_discardFrom]
  simp only [← UInt32.not_le, decide_not]

theorem symbols_of_asksListing (h : command.asksListing = true) : (s.perform command).1.symbols = s.symbols := by
  rcases s.perform_of_asksListing h with hsame | ⟨id, rows, hlisted⟩
  · rw [hsame]
  · rw [hlisted]

/-- **What one command does to a label.** -/
theorem Sound.contains_perform (sound : s.Sound) (command : Command) (address : UInt32) :
    (s.perform command).1.symbols.contains address =
      (s.labels address command || s.symbols.contains address && !command.forgets address) := by
  have hkeeps (h : command.makesBanks = false) : (!command.forgets address) = true := by
    rw [Command.forgets, h, Bool.and_false, Bool.not_false]
  have hforgets (h : command.makesBanks = true) : command.forgets address = decide (Address.ramStart ≤ address) := by
    rw [Command.forgets, h, Bool.and_true]
  cases command with
  | observe accessed kind value =>
    rw [hkeeps rfl, Bool.and_true]
    exact s.contains_observe accessed kind value address
  | force forced kind =>
    rw [hkeeps rfl, Bool.and_true]
    exact contains_forced sound.arranged forced kind address
  | override forced as =>
    rw [hkeeps rfl, Bool.and_true]
    have hforced := contains_forced sound.arranged forced as.access address
    rw [as.not_has_branchTarget, Bool.and_false, Bool.false_and] at hforced
    exact hforced
  | reset =>
    rw [hforgets rfl]
    exact s.contains_reset address
  | eject =>
    rw [hforgets rfl]
    exact contains_reset { s with memory := s.memory.eject } address
  | insertCartridge image =>
    have hok := s.isOk_insertCartridge image
    rcases s.perform_insertCartridge image with ⟨⟨error, hfailed⟩, hsame⟩ | ⟨memory, hinsert, hnext⟩
    · have hempty : (Command.insertCartridge image).makesBanks = false := hok.symm.trans (by rw [hfailed]; rfl)
      rw [hsame, hkeeps hempty, Bool.and_true]
      rfl
    · have hfilled : (Command.insertCartridge image).makesBanks = true := hok.symm.trans (by rw [hinsert]; rfl)
      rw [hnext, hforgets hfilled]
      exact contains_reset { s with memory := memory } address
  | replaceBios image =>
    rw [hkeeps rfl, Bool.and_true]
    rcases s.perform_replaceBios image with ⟨-, hsame⟩ | ⟨memory, -, -, hnext⟩
    · rw [hsame]
      rfl
    · rw [hnext]
      rfl
  | render _ | renderNamed _ | rowIndex _ _ | rowIndexAtPc _ _ =>
    rw [hkeeps rfl, Bool.and_true, symbols_of_asksListing rfl]
    rfl
  | update | subscribe _ | unsubscribe _ | memory _ =>
    rw [hkeeps rfl, Bool.and_true]
    rfl

/-! ## Whole runs -/

/-- A command of a run labels an address, and none of those behind it forgets the label. -/
def Labelled (s : Tracer) (commands : List Command) (address : UInt32) : Prop :=
  ∃ earlier command later, commands = earlier ++ command :: later ∧
    (s.run earlier).1.labels address command = true ∧ ∀ other ∈ later, other.forgets address = false

/-- The last command of a run labels an address, or it does not forget the label that the address has been given. -/
theorem labelled_append_singleton :
    s.Labelled (commands ++ [command]) address ↔
      (s.run commands).1.labels address command = true ∨
        s.Labelled commands address ∧ command.forgets address = false := by
  constructor
  · rintro ⟨earlier, other, later, hsplit, hlabels, hkept⟩
    rcases later.eq_nil_or_concat' with rfl | ⟨later, last, rfl⟩
    · obtain ⟨rfl, hlast⟩ := List.append_inj' hsplit rfl
      obtain rfl := List.singleton_inj.1 hlast
      exact .inl hlabels
    · rw [← List.cons_append, ← List.append_assoc] at hsplit
      obtain ⟨rfl, hlast⟩ := List.append_inj' hsplit rfl
      obtain rfl := List.singleton_inj.1 hlast
      obtain ⟨hbefore, hlast⟩ := List.forall_mem_append.1 hkept
      exact .inr ⟨⟨earlier, other, later, rfl, hlabels, hbefore⟩, hlast command List.mem_cons_self⟩
  · rintro (hlabels | ⟨⟨earlier, other, later, rfl, hlabels, hkept⟩, hlast⟩)
    · exact ⟨commands, command, [], rfl, hlabels, nofun⟩
    · refine ⟨earlier, other, later ++ [command], by simp, hlabels, List.forall_mem_append.2 ⟨hkept, ?_⟩⟩
      simpa using hlast

theorem Sound.contains_run_iff (sound : s.Sound) (commands : List Command) (address : UInt32) :
    (s.run commands).1.symbols.contains address = true ↔
      s.Labelled commands address ∨
        s.symbols.contains address = true ∧ ∀ command ∈ commands, command.forgets address = false := by
  induction commands using List.reverseRecOn with
  | nil => simp [Labelled]
  | append_singleton commands command ih =>
    rw [run_append, run_cons, run_nil, (sound.run commands).contains_perform, labelled_append_singleton]
    simp only [Bool.or_eq_true, Bool.and_eq_true, Bool.not_eq_true', ih, List.forall_mem_append, List.mem_singleton,
      forall_eq]
    tauto

theorem config_run (s : Tracer) (commands : List Command) : (s.run commands).1.config = s.config := by
  induction commands generalizing s with
  | nil => rfl
  | cons command commands ih => rw [run_cons, ih, config_perform]

/-- **How an address comes by its label.** In every state that commands lead to, an address has a label if and only if a
command has labelled it that no later one took back; an address that is known as a branch target has one. The label is the
configured stem with the digits of the address, and it is the label of no other address. -/
theorem Made.label_history {start : Tracer} (made : Made start) (commands : List Command) (address : UInt32) :
    (((start.run commands).1.labelAt address).isSome = true ↔ start.Labelled commands address) ∧
      (∀ label, (start.run commands).1.labelAt address = some label →
        label = start.config.labelStem ++ String.ofList (Nat.toDigits 16 address.toNat)) ∧
      (((start.run commands).1.traceAt address).has .branchTarget = true →
        ((start.run commands).1.labelAt address).isSome = true) ∧
      ∀ other label, (start.run commands).1.labelAt address = some label →
        (start.run commands).1.labelAt other = some label → other = address := by
  have sound : start.Sound := made.sound_run []
  have hstart : start.symbols.contains address = false := by
    obtain ⟨config, rfl⟩ := made.exists_config
    exact Symbols.contains_empty _ _
  refine ⟨?_, fun label hlabel => ?_, fun htarget => ?_, fun other label hlabel hother => ?_⟩
  · rw [labelAt, Symbols.isSome_lookup, sound.contains_run_iff, hstart]
    simp
  · rw [(Symbols.lookup_eq_some_iff.1 hlabel).2, Symbols.name_eq, made.stem_run, config_run]
  · rw [labelAt, Symbols.isSome_lookup]
    exact (made.sound_run commands).named address htarget
  · have hname := (Symbols.lookup_eq_some_iff.1 hlabel).2
    exact Symbols.name_injective _ ((Symbols.lookup_eq_some_iff.1 hother).2.symm.trans hname)

/-- A branch leads into the BIOS. The cartridge is removed, a branch leads into the RAM, and there it is written over. -/
def branches : List Command :=
  [.force 0x10 (.ofFlags [.branchTarget]), .eject, .observe 0x1050 targetRead 0,
    .observe 0x1050 (.ofFlags [.data, .write]) 1]

theorem label_history_branches :
    (new.run branches).1.labelAt 0x10 = some "loc_10" ∧ (new.run branches).1.labelAt 0x1050 = some "loc_1050" := by
  have labelAt_of_labelled (address : UInt32) (h : new.Labelled branches address) :
      (new.run branches).1.labelAt address = some ("loc_" ++ String.ofList (Nat.toDigits 16 address.toNat)) := by
    obtain ⟨hsome, hlabel, -, -⟩ := Made.new.label_history branches address
    obtain ⟨label, hlookup⟩ := Option.isSome_iff_exists.1 (hsome.2 h)
    rw [hlookup, hlabel label hlookup]
    rfl
  exact ⟨labelAt_of_labelled 0x10 ⟨[], _, branches.drop 1, rfl, by decide, by decide⟩,
    labelAt_of_labelled 0x1050 ⟨branches.take 2, _, branches.drop 3, rfl, by decide, by decide⟩⟩

end Tracer

end TraceDisasm
