import TraceDisasm.BankId
import TraceDisasm.Proofs.JsonReading

/-!
# The spellings of bank identifiers

A text names a bank just if it is one of its spellings (`BankId.Spells`): the word for the BIOS or the RAM, or `rom:` and the
number of a page, with any number of zeros in front and perhaps one plus sign. For every other text the error has the text as
it is. The written form of an identifier that was read is one of its spellings (`BankId.ofText_spells`).

The number is read digit by digit in a byte, and reading stops where the byte is too small. A digit more never makes the
number smaller, and zeros in front take no room. So the digits are read to their end just if the whole number fits into a
byte, and this is what the byte then holds (`BankId.foldlM_appendDigit?_eq_some_iff`).
-/

namespace TraceDisasm.BankId

open Json (Digits)

/-- The texts that spell an identifier. -/
inductive Spells : String → BankId → Prop
  | bios : Spells "bios" bios
  | ram : Spells "ram" ram
  | rom {sign : String} {digits : List Char} {page : UInt8} : sign ∈ ["", "+"] → Digits digits →
      Nat.ofDigitChars 10 digits 0 = page.toNat → page.toNat < pageCount →
        Spells ("rom:" ++ (sign ++ String.ofList digits)) (rom page)

/-! ## Numbers -/

theorem toNat_digit {c : Char} (h : c.isDigit = true) :
    (UInt8.ofNat (c.toNat - '0'.toNat)).toNat = c.toNat - '0'.toNat := by
  have hle : c.toNat ≤ '9'.toNat := (Char.isDigit_iff_toNat.1 h).2
  exact UInt8.toNat_ofNat_of_lt' (Nat.lt_of_le_of_lt (Nat.sub_le_sub_right hle _) (by decide))

/-- There is a number behind one more digit just if ten times the number and the digit make a byte. -/
theorem appendDigit?_eq_some_iff {number next : UInt8} {c : Char} :
    appendDigit? number c = some next ↔ c.isDigit = true ∧ 10 * number.toNat + (c.toNat - '0'.toNat) = next.toNat := by
  by_cases hc : c.isDigit = true
  · have htens : (number * 10).toNat = number.toNat * 10 % 256 := UInt8.toNat_mul ..
    have hsum : (number * 10 + UInt8.ofNat (c.toNat - '0'.toNat)).toNat =
        ((number * 10).toNat + (UInt8.ofNat (c.toNat - '0'.toNat)).toNat) % 256 := UInt8.toNat_add ..
    have hnext : next.toNat < 256 := next.toNat_lt
    rw [toNat_digit hc] at hsum
    simp only [appendDigit?, toNat_digit hc, hc, Bool.not_true, Bool.false_or, Bool.or_eq_true, decide_eq_true_eq,
      UInt8.size, true_and]
    split
    · next hlarge => exact ⟨nofun, fun hvalue => by omega⟩
    · next hfits =>
      rw [Option.some.injEq, ← UInt8.toNat_inj]
      omega
  · simp [appendDigit?, hc]

/-- Digits are read to their end just if their number is a byte. -/
theorem foldlM_appendDigit?_eq_some_iff {digits : List Char} {number result : UInt8} :
    digits.foldlM appendDigit? number = some result ↔
      (∀ c ∈ digits, c.isDigit = true) ∧ Nat.ofDigitChars 10 digits number.toNat = result.toNat := by
  induction digits generalizing number with
  | nil => simp [UInt8.toNat_inj]
  | cons c digits ih =>
    rw [List.foldlM_cons, Option.bind_eq_bind, Option.bind_eq_some_iff, List.forall_mem_cons, Nat.ofDigitChars_cons]
    constructor
    · rintro ⟨next, hstep, hrest⟩
      obtain ⟨hc, hnext⟩ := appendDigit?_eq_some_iff.1 hstep
      obtain ⟨hdigits, hresult⟩ := ih.1 hrest
      exact ⟨⟨hc, hdigits⟩, by rw [hnext, hresult]⟩
    · rintro ⟨⟨hc, hdigits⟩, hresult⟩
      -- the number on the way is no larger than the result, so it is a byte as well
      have hle := Json.Numeral.le_ofDigitChars digits (10 * number.toNat + (c.toNat - '0'.toNat))
      have hlt := Nat.lt_of_le_of_lt hle (hresult ▸ result.toNat_lt)
      have hnext := UInt8.toNat_ofNat_of_lt' hlt
      exact ⟨_, appendDigit?_eq_some_iff.2 ⟨hc, hnext.symm⟩, ih.2 ⟨hdigits, by rw [hnext, hresult]⟩⟩

theorem decimal?_eq_some_iff {digits : List Char} {number : UInt8} :
    decimal? digits = some number ↔ Digits digits ∧ Nat.ofDigitChars 10 digits 0 = number.toNat := by
  rw [decimal?]
  cases digits with
  | nil => exact ⟨nofun, fun h => absurd rfl h.1.ne_nil⟩
  | cons c digits =>
    rw [List.isEmpty_cons, if_neg Bool.false_ne_true, foldlM_appendDigit?_eq_some_iff]
    exact ⟨fun h => ⟨⟨List.cons_ne_nil c digits, h.1⟩, h.2⟩, fun h => ⟨h.1.isDigit, h.2⟩⟩

theorem page?_eq_some_iff {number : List Char} {page : UInt8} :
    page? number = some page ↔
      ∃ sign ∈ ["", "+"], ∃ digits, number = sign.toList ++ digits ∧ Digits digits ∧
        Nat.ofDigitChars 10 digits 0 = page.toNat ∧ page.toNat < pageCount := by
  simp only [page?, Option.filter_eq_some_iff, decide_eq_true_eq]
  constructor
  · rintro ⟨hnumber, hpage⟩
    split at hnumber
    · next digits =>
      obtain ⟨hdigits, hvalue⟩ := decimal?_eq_some_iff.1 hnumber
      exact ⟨"+", by decide, digits, rfl, hdigits, hvalue, hpage⟩
    · obtain ⟨hdigits, hvalue⟩ := decimal?_eq_some_iff.1 hnumber
      exact ⟨"", by decide, number, rfl, hdigits, hvalue, hpage⟩
  · rintro ⟨sign, hsign, digits, rfl, hdigits, hvalue, hpage⟩
    simp only [List.mem_cons, List.not_mem_nil, or_false] at hsign
    rcases hsign with rfl | rfl
    · obtain ⟨c, tail, rfl, -, -, hplus⟩ := hdigits.exists_cons
      refine ⟨decimal?_eq_some_iff.2 ?_, hpage⟩
      simp [hplus, hdigits, hvalue]
    · exact ⟨decimal?_eq_some_iff.2 ⟨hdigits, hvalue⟩, hpage⟩

/-! ## Names -/

theorem ofText?_rom (number : List Char) : ofText? ("rom:" ++ String.ofList number) = (page? number).map rom := by
  have hlist : ("rom:" ++ String.ofList number).toList = 'r' :: 'o' :: 'm' :: ':' :: number := by simp
  have hbios : "rom:" ++ String.ofList number ≠ "bios" := fun h => by simpa [hlist] using congrArg String.toList h
  have hram : "rom:" ++ String.ofList number ≠ "ram" := fun h => by simpa [hlist] using congrArg String.toList h
  rw [ofText?, if_neg hbios, if_neg hram, hlist]
  rfl

theorem ofText?_cases {text : String} {id : BankId} (h : ofText? text = some id) :
    text = "bios" ∧ id = bios ∨ text = "ram" ∧ id = ram ∨
      ∃ number page, text = "rom:" ++ String.ofList number ∧ id = rom page ∧ page? number = some page := by
  unfold ofText? at h
  split at h
  · next htext => exact .inl ⟨htext, (Option.some.inj h).symm⟩
  · split at h
    · next htext => exact .inr (.inl ⟨htext, (Option.some.inj h).symm⟩)
    · split at h
      · next number hlist =>
        obtain ⟨page, hpage, rfl⟩ := Option.map_eq_some_iff.1 h
        have htext : text = "rom:" ++ String.ofList number := by
          rw [← String.toList_inj, hlist]
          simp
        exact .inr (.inr ⟨number, page, htext, rfl, hpage⟩)
      · cases h

theorem ofText?_eq_some_iff {text : String} {id : BankId} : ofText? text = some id ↔ Spells text id := by
  constructor
  · intro h
    rcases ofText?_cases h with ⟨rfl, rfl⟩ | ⟨rfl, rfl⟩ | ⟨number, page, rfl, rfl, hpage⟩
    · exact .bios
    · exact .ram
    · obtain ⟨sign, hsign, digits, rfl, hdigits, hvalue, hlt⟩ := page?_eq_some_iff.1 hpage
      rw [String.ofList_append, String.ofList_toList]
      exact .rom hsign hdigits hvalue hlt
  · intro h
    cases h with
    | bios => rfl
    | ram => rfl
    | @rom sign digits page hsign hdigits hvalue hlt =>
      have hpage : page? (sign.toList ++ digits) = some page :=
        page?_eq_some_iff.2 ⟨sign, hsign, digits, rfl, hdigits, hvalue, hlt⟩
      rw [← String.ofList_toList (s := sign), ← String.ofList_append, ofText?_rom, hpage]
      rfl

/-- The written form of an identifier that has a spelling is one of them. -/
theorem Spells.text {text : String} {id : BankId} (h : Spells text id) : Spells id.text id := by
  cases h with
  | bios => exact .bios
  | ram => exact .ram
  | @rom _ _ page _ _ _ hlt =>
    have hwritten : Spells ("rom:" ++ ("" ++ String.ofList (Nat.toDigits 10 page.toNat))) (.rom page) :=
      .rom (by decide) (Json.Numeral.digits_toDigits page.toNat) Nat.ofDigitChars_ten_toDigits hlt
    simpa [BankId.text, Nat.repr_eq_ofList_toDigits] using hwritten

theorem ofText_eq_ok_iff {text : String} {id : BankId} : ofText text = .ok id ↔ Spells text id := by
  rw [← ofText?_eq_some_iff, ofText]
  cases ofText? text <;> simp

theorem ofText_eq_error_iff {text : String} {error : Error} :
    ofText text = .error error ↔ error = .unknownBank text ∧ ∀ id, ¬ Spells text id := by
  simp only [← ofText?_eq_some_iff, ofText]
  cases ofText? text <;> simp [eq_comm]

/-- **Identifiers are read by their spellings.** A text gives an identifier just if it spells it. Every other text gives the
error that no bank has this name, and the name is the text itself. What was read is read again from its written form. -/
theorem ofText_spells (text : String) :
    (∀ id, ofText text = .ok id ↔ Spells text id) ∧
      (∀ error, ofText text = .error error ↔ error = .unknownBank text ∧ ∀ id, ¬ Spells text id) ∧
      ∀ id, ofText text = .ok id → ofText id.text = .ok id :=
  ⟨fun _ => ofText_eq_ok_iff, fun _ => ofText_eq_error_iff,
    fun _ h => ofText_eq_ok_iff.2 (ofText_eq_ok_iff.1 h).text⟩

/-- The last page, behind a sign and more zeros than a byte has bits. -/
theorem ofText_spells_zeros :
    ofText "rom:+0000000000063" = .ok (rom 63) ∧ ofText (rom 63).text = .ok (rom 63) := by
  have hread : ofText "rom:+0000000000063" = .ok (rom 63) := rfl
  exact ⟨hread, (ofText_spells "rom:+0000000000063").2.2 (rom 63) hread⟩

end TraceDisasm.BankId
