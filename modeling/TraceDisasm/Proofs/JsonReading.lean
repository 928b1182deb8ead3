import TraceDisasm.Json.Grammar
import TraceDisasm.Text.Blank

/-!
# Strings and numbers are read as the grammar has them

Every string and every number of the grammar is read to its end and no further, whatever stands behind it. A string ends at
its quote. A number ends only where something else begins, so what stands behind it must not go on with it (`Delimited`).
Strings as they are written (`quote`) and numbers as they are printed belong to the grammar.
-/

namespace TraceDisasm.Json

/-! ## White space -/

theorem space_nil : Space [] := fun _ hc => nomatch hc

theorem Space.isBlank {blanks : List Char} (h : Space blanks) : ∀ c ∈ blanks, isBlank c = true := fun c hc => by
  have hmem := h c hc
  simp only [List.mem_cons, List.not_mem_nil, or_false] at hmem
  rcases hmem with rfl | rfl | rfl | rfl <;> rfl

theorem skipBlanks_space {blanks : List Char} (h : Space blanks) (text : List Char) :
    skipBlanks (blanks ++ text) = skipBlanks text :=
  List.dropWhile_append_of_pos h.isBlank

theorem skipBlanks_cons {c : Char} (h : isBlank c = false) (text : List Char) : skipBlanks (c :: text) = c :: text :=
  List.dropWhile_cons_of_neg (by simp [h])

theorem skipBlanks_space_cons {blanks : List Char} (h : Space blanks) {c : Char} (hc : isBlank c = false)
    (text : List Char) : skipBlanks (blanks ++ c :: text) = c :: text := by
  rw [skipBlanks_space h, skipBlanks_cons hc]

/-! ## Strings -/

theorem unit?_of_unitText {unit : Nat} {digits : List Char} (h : UnitText unit digits) :
    ∃ a b c d, digits = [a, b, c, d] ∧ unit? a b c d = some (unit % 0x10000) := by
  cases h with
  | mk a b c d =>
    refine ⟨_, _, _, _, rfl, ?_⟩
    have hdigit (letters : Hex.Letters) (n : Nat) : Hex.digitValue? (Hex.digit letters (n % 16)) = some (n % 16) :=
      Hex.digitValue?_digit letters (Nat.mod_lt n (by decide))
    rw [unit?, hdigit, hdigit, hdigit, hdigit]
    simp only [Option.some.injEq]
    omega

theorem unescape?_of_mem {letter c : Char} (h : (letter, c) ∈ escapes) : unescape? letter = some c ∧ letter ≠ 'u' := by
  have hall : ∀ entry ∈ escapes, unescape? entry.1 = some entry.2 ∧ entry.1 ≠ 'u' := by decide
  exact hall _ h

/-- No character is half of a pair. -/
theorem not_isSurrogate (c : Char) : isLowSurrogate c.toNat = false ∧ isHighSurrogate c.toNat = false := by
  have hvalid : c.toNat < 0xD800 ∨ 0xDFFF < c.toNat ∧ c.toNat < 0x110000 := c.valid
  simp only [isLowSurrogate, isHighSurrogate, Bool.and_eq_false_iff, decide_eq_false_iff_not]
  omega

section Steps

variable (made rest : List Char)

theorem readString_quote : readString made ('"' :: rest) = .ok (String.ofList made.reverse, rest) := by
  rw [readString.eq_def]
  rfl

theorem readString_plain {c : Char} (hquote : c ≠ '"') (hbackslash : c ≠ '\\') (hcontrol : 0x20 ≤ c.toNat) :
    readString made (c :: rest) = readString (c :: made) rest := by
  rw [readString.eq_def]
  simp only [if_neg hquote, if_neg hbackslash, if_neg (Nat.not_lt.2 hcontrol)]

theorem readString_letter {letter c : Char} (h : (letter, c) ∈ escapes) :
    readString made ('\\' :: letter :: rest) = readString (c :: made) rest := by
  obtain ⟨hescape, hletter⟩ := unescape?_of_mem h
  rw [readString.eq_def]
  simp [hescape, hletter]

theorem readString_unit {c : Char} {digits : List Char} (hlt : c.toNat < 0x10000) (h : UnitText c.toNat digits) :
    readString made ('\\' :: 'u' :: digits ++ rest) = readString (c :: made) rest := by
  obtain ⟨a, b, d, e, rfl, hunit⟩ := unit?_of_unitText h
  obtain ⟨hlow, hhigh⟩ := not_isSurrogate c
  rw [Nat.mod_eq_of_lt hlt] at hunit
  rw [readString.eq_def]
  simp [hunit, hlow, hhigh, Char.ofNat_toNat]

theorem readString_pair {c : Char} {high low : List Char} (hge : 0x10000 ≤ c.toNat)
    (hhigh : UnitText (0xD800 + (c.toNat - 0x10000) / 0x400) high)
    (hlow : UnitText (0xDC00 + (c.toNat - 0x10000) % 0x400) low) :
    readString made ('\\' :: 'u' :: high ++ '\\' :: 'u' :: low ++ rest) = readString (c :: made) rest := by
  have hvalid : c.toNat < 0xD800 ∨ 0xDFFF < c.toNat ∧ c.toNat < 0x110000 := c.valid
  have hfirst : isLowSurrogate (0xD800 + (c.toNat - 0x10000) / 0x400) = false ∧
      isHighSurrogate (0xD800 + (c.toNat - 0x10000) / 0x400) = true := by
    simp only [isLowSurrogate, isHighSurrogate, Bool.and_eq_false_iff, Bool.and_eq_true, decide_eq_false_iff_not,
      decide_eq_true_eq]
    omega
  have hsecond : isLowSurrogate (0xDC00 + (c.toNat - 0x10000) % 0x400) = true := by
    simp only [isLowSurrogate, Bool.and_eq_true, decide_eq_true_eq]
    omega
  have hpair : pairChar (0xD800 + (c.toNat - 0x10000) / 0x400) (0xDC00 + (c.toNat - 0x10000) % 0x400) = c := by
    have hsum : 0x10000 + (0xD800 + (c.toNat - 0x10000) / 0x400 - 0xD800) * 0x400 +
        (0xDC00 + (c.toNat - 0x10000) % 0x400 - 0xDC00) = c.toNat := by
      omega
    rw [pairChar, hsum, Char.ofNat_toNat]
  obtain ⟨a, b, d, e, rfl, hunit⟩ := unit?_of_unitText hhigh
  obtain ⟨a', b', d', e', rfl, hunit'⟩ := unit?_of_unitText hlow
  rw [Nat.mod_eq_of_lt (by omega)] at hunit hunit'
  rw [readString.eq_def]
  simp [hunit, hunit', hfirst, hsecond, hpair]

end Steps

theorem readString_charText {c : Char} {text : List Char} (h : CharText c text) (made rest : List Char) :
    readString made (text ++ rest) = readString (c :: made) rest := by
  cases h with
  | plain hquote hbackslash hcontrol => exact readString_plain made rest hquote hbackslash hcontrol
  | letter hmem => exact readString_letter made rest hmem
  | unit hlt hunit => exact readString_unit made rest hlt hunit
  | pair hge hhigh hlow => exact readString_pair made rest hge hhigh hlow

/-- A string is read up to its quote. -/
theorem readString_stringText {chars body : List Char} (h : StringText chars body) (made rest : List Char) :
    readString made (body ++ '"' :: rest) = .ok (String.ofList (made.reverse ++ chars), rest) := by
  induction h generalizing made with
  | nil => rw [List.nil_append, readString_quote, List.append_nil]
  | cons hchar _ ih => rw [List.append_assoc, readString_charText hchar, ih, List.reverse_cons, List.append_assoc]; rfl

theorem QuotedText.exists_cons {s : String} {text : List Char} (h : QuotedText s text) :
    ∃ tail, text = '"' :: tail ∧ ∀ rest, readString [] (tail ++ rest) = .ok (s, rest) := by
  cases h with
  | @mk body hbody =>
    refine ⟨body ++ ['"'], rfl, fun rest => ?_⟩
    rw [List.append_assoc, List.singleton_append, readString_stringText hbody]
    simp

theorem skipString_anyStringText {body : List Char} (h : AnyStringText body) (rest : List Char) :
    skipString (body ++ '"' :: rest) = .ok rest := by
  induction h with
  | nil =>
    rw [List.nil_append, skipString.eq_def]
    rfl
  | plain hquote hbackslash hcontrol _ ih =>
    rw [List.cons_append, skipString.eq_def]
    simp only [if_neg hquote, if_neg hbackslash, if_neg (Nat.not_lt.2 hcontrol), ih]
  | letter hmem _ ih =>
    obtain ⟨hescape, hletter⟩ := unescape?_of_mem hmem
    rw [List.cons_append, List.cons_append, skipString.eq_def]
    simp [hescape, hletter, ih]
  | unit hunit _ ih =>
    obtain ⟨a, b, c, d, rfl, hvalue⟩ := unit?_of_unitText hunit
    rw [List.append_assoc, List.cons_append, List.cons_append, skipString.eq_def]
    simp [hvalue, ih]

/-! ### Written strings -/

theorem unitText_fixed (unit : Nat) : UnitText unit (Hex.fixed .lower 4 unit) := by
  have h : UnitText unit _ := .mk .lower .lower .lower .lower
  simpa [Hex.fixed, Nat.div_div_eq_div_mul] using h

theorem charText_escape (c : Char) : CharText c (escape c) := by
  fun_cases escape c with
  | case8 c hquote hbackslash _ _ _ _ _ hlt => exact .unit (Nat.lt_trans hlt (by decide)) (unitText_fixed _)
  | case9 c hquote hbackslash _ _ _ _ _ hge => exact .plain hquote hbackslash (Nat.not_lt.1 hge)
  | _ => exact .letter (by decide)

theorem stringText_escape (chars : List Char) : StringText chars (chars.flatMap escape) := by
  induction chars with
  | nil => exact .nil
  | cons c chars ih => exact .cons (charText_escape c) ih

theorem quotedText_quote (s : String) : QuotedText s (quote s) :=
  .mk (stringText_escape s.toList)

/-! ## Numbers -/

/-- The text does not go on with a number in front of it. -/
def Delimited (rest : List Char) : Prop := ∀ c ∈ rest.head?, isBlank c = true ∨ c ∈ [',', ']', '\x7d']

theorem Delimited.space_append {blanks rest : List Char} (h : Space blanks) (hrest : Delimited rest) :
    Delimited (blanks ++ rest) := by
  cases blanks with
  | nil => exact hrest
  | cons c blanks =>
    intro c' hc'
    obtain rfl : c = c' := by simpa using hc'
    exact .inl (h.isBlank c List.mem_cons_self)

theorem Delimited.cons {c : Char} (h : c ∈ [',', ']', '\x7d']) (rest : List Char) : Delimited (c :: rest) := by
  intro c' hc'
  obtain rfl : c = c' := by simpa using hc'
  exact .inr h

/-- The text begins neither with a digit nor with one of some other characters. -/
def Stops (others : List Char) (text : List Char) : Prop := ∀ c ∈ text.head?, c.isDigit = false ∧ c ∉ others

theorem Stops.mono {others fewer text : List Char} (h : Stops others text) (hsub : fewer ⊆ others) : Stops fewer text :=
  fun c hc => ⟨(h c hc).1, fun hmem => (h c hc).2 (hsub hmem)⟩

theorem Stops.append {others text rest : List Char} (h : Stops others text) (hrest : Stops others rest) :
    Stops others (text ++ rest) := by
  cases text with
  | nil => exact hrest
  | cons c text => exact h

theorem Stops.cons {others : List Char} {c : Char} (hdigit : c.isDigit = false) (hmem : c ∉ others) (text : List Char) :
    Stops others (c :: text) := by
  intro c' hc'
  obtain rfl : c = c' := by simpa using hc'
  exact ⟨hdigit, hmem⟩

theorem Delimited.stops {rest : List Char} (h : Delimited rest) : Stops ['.', 'e', 'E'] rest := by
  intro c hc
  rcases h c hc with hblank | hmem
  · simp only [isBlank, Bool.or_eq_true, beq_iff_eq] at hblank
    rcases hblank with ((rfl | rfl) | rfl) | rfl <;> decide
  · simp only [List.mem_cons, List.not_mem_nil, or_false] at hmem
    rcases hmem with rfl | rfl | rfl <;> decide

theorem FractionText.stops {fraction : Option (List Char)} {text : List Char} (h : FractionText fraction text) :
    Stops [] text := by
  cases h with
  | none => exact fun c hc => nomatch hc
  | some => exact .cons (by decide) (by decide) _

theorem ExponentText.stops {exponent : Option (Bool × List Char)} {text : List Char} (h : ExponentText exponent text) :
    Stops ['.'] text := by
  cases h with
  | none => exact fun c hc => nomatch hc
  | some hletter =>
    simp only [List.mem_cons, List.not_mem_nil, or_false] at hletter
    rcases hletter with rfl | rfl <;> exact .cons (by decide) (by decide) _

/-- A sequence of digits begins with a digit, so with no sign. -/
theorem Digits.exists_cons {digits : List Char} (h : Digits digits) :
    ∃ c tail, digits = c :: tail ∧ c.isDigit = true ∧ c ≠ '-' ∧ c ≠ '+' := by
  obtain ⟨c, tail, rfl⟩ := List.exists_cons_of_ne_nil h.ne_nil
  have hc : c.isDigit = true := h.isDigit c List.mem_cons_self
  refine ⟨c, tail, rfl, hc, ?_, ?_⟩ <;> rintro rfl <;> exact absurd hc (by decide)

theorem scanDigits_append (atEnd : Fault) {digits rest : List Char} (h : Digits digits) (hrest : Stops [] rest) :
    scanDigits atEnd (digits ++ rest) = .ok (digits, rest) := by
  obtain ⟨hfront, hback⟩ := Text.span_append h.isDigit rest fun c hc => (hrest c hc).1
  have hne : digits.isEmpty = false := by simpa using h.ne_nil
  rw [scanDigits, hfront, hback, hne]
  rfl

namespace Numeral

theorem scanInteger_append (atEnd : Fault) {digits rest : List Char} (h : Digits digits)
    (hzero : digits.head? = some '0' → digits = ['0']) (hrest : Stops [] rest) :
    scanInteger atEnd (digits ++ rest) = .ok (digits, rest) := by
  have hnot : ¬ (digits.head? = some '0' ∧ 1 < digits.length) := fun ⟨hhead, hlength⟩ => by
    rw [hzero hhead] at hlength
    exact absurd hlength (by decide)
  rw [scanInteger, scanDigits_append atEnd h hrest]
  exact if_neg hnot

theorem scanFraction_append (atEnd : Fault) {fraction : Option (List Char)} {text rest : List Char}
    (h : FractionText fraction text) (hrest : Stops ['.'] rest) :
    scanFraction atEnd (text ++ rest) = .ok (fraction, rest) := by
  cases h with
  | none =>
    rw [List.nil_append]
    cases rest with
    | nil => rfl
    | cons c rest =>
      have hpoint : c ≠ '.' := fun h => (hrest c rfl).2 (by simp [h])
      simp [scanFraction, hpoint]
  | some hdigits =>
    rw [List.cons_append, scanFraction, scanDigits_append atEnd hdigits (hrest.mono (List.nil_subset _))]
    rfl

theorem scanExponent_append (atEnd : Fault) {exponent : Option (Bool × List Char)} {text rest : List Char}
    (h : ExponentText exponent text) (hrest : Stops ['e', 'E'] rest) :
    scanExponent atEnd (text ++ rest) = .ok (exponent, rest) := by
  cases h with
  | none =>
    rw [List.nil_append]
    cases rest with
    | nil => rfl
    | cons c rest =>
      have hletter : ¬ (c = 'e' ∨ c = 'E') := fun h => (hrest c rfl).2 (by simpa using h)
      simp [scanExponent, hletter]
  | @some letter negative sign digits hletter hsign hdigits =>
    have hscan := scanDigits_append atEnd hdigits (hrest.mono (List.nil_subset _))
    have hletter' : letter = 'e' ∨ letter = 'E' := by simpa using hletter
    simp only [List.cons_append, List.append_assoc, scanExponent, if_pos hletter']
    simp only [List.mem_cons, Prod.mk.injEq, List.not_mem_nil, or_false] at hsign
    rcases hsign with ⟨rfl, rfl⟩ | ⟨rfl, rfl⟩ | ⟨rfl, rfl⟩
    · obtain ⟨c, tail, rfl, -, hminus, hplus⟩ := hdigits.exists_cons
      rw [List.cons_append] at hscan
      simp [hscan, hminus, hplus, Except.map]
    · simp [hscan, Except.map]
    · simp [hscan, Except.map]

/-- A number is taken off the front of a text as a whole. -/
theorem scan_append (atEnd : Fault) {numeral : Numeral} {text rest : List Char} (h : NumberText numeral text)
    (hrest : Delimited rest) : scan atEnd (text ++ rest) = .ok (numeral, rest) := by
  cases h with
  | @mk negative sign integer fractionText exponentText fraction exponent hsign hinteger hzero hfraction hexponent =>
    have hbehind : Stops ['.'] (exponentText ++ rest) :=
      hexponent.stops.append (hrest.stops.mono (by decide))
    have hi : scanInteger atEnd (integer ++ (fractionText ++ (exponentText ++ rest))) =
        .ok (integer, fractionText ++ (exponentText ++ rest)) :=
      scanInteger_append atEnd hinteger hzero (hfraction.stops.append (hbehind.mono (List.nil_subset _)))
    have hf := scanFraction_append atEnd hfraction hbehind
    have he := scanExponent_append atEnd hexponent (hrest.stops.mono (by decide))
    simp only [List.append_assoc, scan]
    simp only [List.mem_cons, Prod.mk.injEq, List.not_mem_nil, or_false] at hsign
    rcases hsign with ⟨rfl, rfl⟩ | ⟨rfl, rfl⟩
    · obtain ⟨c, tail, rfl, -, hminus, -⟩ := hinteger.exists_cons
      rw [List.cons_append] at hi
      simp [hi, hf, he, hminus, bind, Except.bind]
    · simp [hi, hf, he, bind, Except.bind]

/-! ### Unsigned numbers -/

/-- An unsigned number without needless zeros. -/
def natural (n : Nat) : Numeral := ⟨false, Nat.toDigits 10 n, none, none⟩

theorem digits_toDigits (n : Nat) : Digits (Nat.toDigits 10 n) :=
  ⟨Nat.toDigits_ne_nil, fun _ hc => Nat.isDigit_of_mem_toDigits (by decide) (by decide) hc⟩

theorem toDigits_of_head_zero {n : Nat} (h : (Nat.toDigits 10 n).head? = some '0') : Nat.toDigits 10 n = ['0'] := by
  induction n using Nat.strongRecOn with
  | ind n ih =>
    rcases Nat.lt_or_ge n 10 with hlt | hge
    · rw [Nat.toDigits_of_lt_base hlt] at h ⊢
      simpa using h
    · obtain ⟨c, tail, hcons, -⟩ := (digits_toDigits (n / 10)).exists_cons
      rw [Nat.toDigits_of_base_le (by decide) hge, hcons] at h
      have hvalue := congrArg (Nat.ofDigitChars 10 · 0) (ih (n / 10) (by omega) (by rw [hcons]; exact h))
      rw [Nat.ofDigitChars_ten_toDigits] at hvalue
      have hzero : n / 10 = 0 := hvalue
      omega

theorem numberText_natural (n : Nat) : NumberText (natural n) (Nat.toDigits 10 n) := by
  have h := NumberText.mk (List.mem_cons_self : (false, []) ∈ [(false, []), (true, ['-'])]) (digits_toDigits n)
    toDigits_of_head_zero .none .none
  simpa [natural] using h

theorem natural?_natural {n : Nat} (h : n < UInt64.size) : (natural n).natural? = some n := by
  simp [natural?, natural, digitsValue, Nat.ofDigitChars_ten_toDigits, h]

/-- More digits make a number no smaller. -/
theorem le_ofDigitChars (digits : List Char) (value : Nat) : value ≤ Nat.ofDigitChars 10 digits value := by
  have hpow : 0 < 10 ^ digits.length := Nat.pow_pos (by decide)
  rw [Nat.ofDigitChars_eq_ofDigitChars_zero]
  exact Nat.le_trans (Nat.le_mul_of_pos_left _ hpow) (Nat.le_add_right _ _)

/-- Digits are added as long as the number stays below the bound. -/
theorem absorb_of_lt {digits : List Char} {value : Nat} (h : Nat.ofDigitChars 10 digits value < UInt64.size) :
    absorb value digits = (Nat.ofDigitChars 10 digits value, []) := by
  induction digits generalizing value with
  | nil => rfl
  | cons c digits ih =>
    rw [Nat.ofDigitChars_cons, Nat.mul_comm] at h ⊢
    have hnext : value * 10 + (c.toNat - 48) < UInt64.size := Nat.lt_of_le_of_lt (le_ofDigitChars digits _) h
    rw [absorb, if_pos hnext]
    exact ih h

/-- Rounding gives no more than the next power of two. -/
theorem roundSignificand_le {n : Nat} (h : n ≠ 0) : roundSignificand n ≤ 2 * n := by
  have hunit : 1 <<< (n.log2 - 52) ≤ n := by
    rw [Nat.one_shiftLeft]
    exact Nat.le_trans (Nat.pow_le_pow_right (by decide) (Nat.sub_le _ _)) (Nat.log2_self_le h)
  have hdiv := Nat.div_mul_le_self n (1 <<< (n.log2 - 52))
  simp only [roundSignificand]
  split
  · rw [Nat.succ_mul]
    omega
  · omega

theorem inRange_natural {n : Nat} (h : n < UInt64.size) : (natural n).inRange = true := by
  have habsorb : absorb 0 (Nat.toDigits 10 n) = (n, []) := by
    have hvalue : Nat.ofDigitChars 10 (Nat.toDigits 10 n) 0 = n := Nat.ofDigitChars_ten_toDigits
    rw [absorb_of_lt (by rw [hvalue]; exact h), hvalue]
  have hscaled : scaledInRange n 0 = true := by
    rw [scaledInRange]
    split
    · rfl
    · next hne =>
      have hle := roundSignificand_le fun hzero => hne (.inl hzero)
      have hone : roundSignificand (Nat.pow 10 (0 : Int).toNat) = 1 := by decide
      have hthreshold : 2 * UInt64.size ≤ infinityThreshold := by decide
      simp only [Int.reduceLT, if_false, hone, decide_eq_true_eq]
      omega
  simpa [inRange, natural, habsorb, absorb] using hscaled

end Numeral

/-- A number begins with a minus sign or a digit. -/
theorem NumberText.exists_cons {numeral : Numeral} {text : List Char} (h : NumberText numeral text) :
    ∃ c tail, text = c :: tail ∧ (c = '-' ∨ c.isDigit = true) := by
  cases h with
  | mk hsign hinteger =>
    simp only [List.mem_cons, Prod.mk.injEq, List.not_mem_nil, or_false] at hsign
    rcases hsign with ⟨-, rfl⟩ | ⟨-, rfl⟩
    · obtain ⟨c, tail, rfl, hc, -⟩ := hinteger.exists_cons
      exact ⟨c, _, rfl, .inr hc⟩
    · exact ⟨'-', _, rfl, .inl rfl⟩

theorem isBlank_of_numberHead {c : Char} (h : c = '-' ∨ c.isDigit = true) : isBlank c = false := by
  rcases h with rfl | hdigit
  · rfl
  · simp only [isBlank, Bool.or_eq_false_iff, beq_eq_false_iff_ne]
    refine ⟨⟨⟨?_, ?_⟩, ?_⟩, ?_⟩ <;> rintro rfl <;> exact absurd hdigit (by decide)

end TraceDisasm.Json
