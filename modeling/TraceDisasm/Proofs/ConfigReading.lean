import Mathlib.Algebra.Group.Nat.Defs
import TraceDisasm.Config.Json
import TraceDisasm.Proofs.JsonSkipping

/-!
# Configurations are read by name

An object is told by its members (`Entry`): the limits and the stem that it gives, and the names of what else stands in it.
`ObjectText` says how an object with given members may be written, with the members in their order, other values of any
depth, and white space wherever it may stand.

* `readMembers_append`: the members of an object are read in their order, each as what it gives.
* `ofJson_of_objectText`: an object is read as the options that it gives, with the standard ones for what it lacks.
* `objectText_toJson`: the written form of a configuration is such an object.
* `ofJson_toJson`: so it is read as the configuration itself.
-/

namespace TraceDisasm

/-! ## Values -/

namespace Json

theorem readNatural_append {n : Nat} {before rest : List Char} (h : n < 2 ^ 64) (hbefore : Space before)
    (hrest : Delimited rest) : readNatural (before ++ (Nat.toDigits 10 n ++ rest)) = .ok (n, rest) := by
  have hread : readNumber (Nat.toDigits 10 n ++ rest) = .ok (Numeral.natural n, rest) := by
    rw [readNumber, Numeral.scan_append .ended (Numeral.numberText_natural n) hrest]
    exact if_pos (Numeral.inRange_natural h)
  obtain ⟨c, tail, hcons, hc, -⟩ := (Numeral.digits_toDigits n).exists_cons
  rw [hcons, List.cons_append] at hread ⊢
  rw [readNatural, skipBlanks_space_cons hbefore (isBlank_of_numberHead (.inr hc))]
  simp [hc, hread, Numeral.natural?_natural h]

theorem readQuoted_append {s : String} {before text : List Char} (hbefore : Space before) (h : QuotedText s text)
    (rest : List Char) : readQuoted (before ++ (text ++ rest)) = .ok (s, rest) := by
  obtain ⟨tail, rfl, hread⟩ := h.exists_cons
  rw [List.cons_append, readQuoted, skipBlanks_space_cons hbefore rfl]
  exact hread rest

theorem readColon_append {between : List Char} (h : Space between) (rest : List Char) :
    readColon (between ++ ':' :: rest) = .ok rest := by
  rw [readColon, skipBlanks_space_cons h rfl]
  rfl

end Json

open Json

namespace Config

theorem readName_append {name : String} {before text : List Char} (hbefore : Space before) (h : QuotedText name text)
    (rest : List Char) : readName (before ++ (text ++ rest)) = .ok (.member name rest) := by
  obtain ⟨tail, rfl, hread⟩ := h.exists_cons
  rw [List.cons_append, readName, skipBlanks_space_cons hbefore rfl]
  simp [hread, Except.map]

/-! ## Members -/

/-- A member of an object. -/
inductive Entry
  /-- A limit. -/
  | limit (kind : Limit) (value : Nat)
  /-- What labels begin with. -/
  | stem (s : String)
  /-- A member of another name. -/
  | other (name : String)

namespace Entry

def name : Entry → String
  | limit kind _ => kind.name
  | stem _ => stemName
  | other name => name

/-- The value that a member gives to a limit. -/
def limit? (asked : Limit) : Entry → Option Nat
  | limit kind value => if kind = asked then some value else none
  | stem _ => none
  | other _ => none

/-- The stem that a member gives. -/
def stem? : Entry → Option String
  | limit _ _ => none
  | stem s => some s
  | other _ => none

end Entry

/-- The names of the options. -/
def optionNames : List String := [Limit.words.name, Limit.bytes.name, stemName]

/-- How the value of a member may be written. -/
inductive ValueText : Entry → List Char → Prop
  | limit (kind : Limit) {value : Nat} : value < 2 ^ 64 → ValueText (.limit kind value) (Nat.toDigits 10 value)
  | stem {s : String} {text : List Char} : QuotedText s text → ValueText (.stem s) text
  | other {name : String} {text : List Char} : name ∉ optionNames → Derives .value text → ValueText (.other name) text

/-- How a member may be written. -/
inductive MemberText (entry : Entry) : List Char → Prop
  | mk {before name between gap value behind : List Char} : Space before → QuotedText entry.name name → Space between →
      Space gap → ValueText entry value → Space behind →
        MemberText entry (before ++ (name ++ (between ++ ':' :: (gap ++ (value ++ behind)))))

/-- How members may be written one behind the other. -/
inductive MembersText : List Entry → List Char → Prop
  | last {entry : Entry} {text : List Char} : MemberText entry text → MembersText [entry] text
  | next {entry : Entry} {entries : List Entry} {text more : List Char} : MemberText entry text →
      MembersText entries more → MembersText (entry :: entries) (text ++ ',' :: more)

/-- How an object may be written. -/
inductive ObjectText : List Entry → List Char → Prop
  | empty {before blanks behind : List Char} : Space before → Space blanks → Space behind →
      ObjectText [] (before ++ '\x7b' :: (blanks ++ '\x7d' :: behind))
  | filled {entries : List Entry} {before members behind : List Char} : Space before → MembersText entries members →
      Space behind → ObjectText entries (before ++ '\x7b' :: (members ++ '\x7d' :: behind))

/-- No option is given twice. -/
def Distinct (entries : List Entry) : Prop :=
  entries.Pairwise fun first second => first.name = second.name → first.name ∉ optionNames

instance (entries : List Entry) : Decidable (Distinct entries) :=
  inferInstanceAs (Decidable (entries.Pairwise fun first second => first.name = second.name → first.name ∉ optionNames))

/-! ## What members give -/

/-- The options that are given by members. -/
def given (entries : List Entry) : Members where
  maxWords := entries.findSome? (Entry.limit? .words)
  maxBytes := entries.findSome? (Entry.limit? .bytes)
  labelStem := entries.findSome? Entry.stem?

namespace Members

/-- The options of one record, completed by those of another. -/
def or (first second : Members) : Members where
  maxWords := first.maxWords.or second.maxWords
  maxBytes := first.maxBytes.or second.maxBytes
  labelStem := first.labelStem.or second.labelStem

/-- The option of a member has not been read. -/
def Lacks (members : Members) : Entry → Prop
  | .limit .words _ => members.maxWords = Option.none
  | .limit .bytes _ => members.maxBytes = Option.none
  | .stem _ => members.labelStem = Option.none
  | .other _ => True

theorem none_or (members : Members) : none.or members = members := by
  simp [or, none]

theorem or_assoc (first second third : Members) : (first.or second).or third = first.or (second.or third) := by
  simp [or, Option.or_assoc]

theorem none_lacks (entry : Entry) : none.Lacks entry := by
  rcases entry with ⟨_ | _, _⟩ | _ | _ <;> simp [Lacks, none]

theorem Lacks.or_given {members : Members} {entry other : Entry} (h : members.Lacks entry)
    (hname : other.name = entry.name → other.name ∉ optionNames) : (members.or (given [other])).Lacks entry := by
  rcases entry with ⟨_ | _, value⟩ | s | name <;> rcases other with ⟨_ | _, value'⟩ | s' | name' <;>
    simp_all [Lacks, or, given, Entry.limit?, Entry.stem?, Entry.name, optionNames]

end Members

theorem given_cons (entry : Entry) (entries : List Entry) :
    given (entry :: entries) = (given [entry]).or (given entries) := by
  simp only [given, Members.or, List.findSome?_cons, List.findSome?_nil]
  congr 1 <;> split <;> simp_all

/-! ## Reading -/

theorem readOnce_none {α : Type} (read : List Char → Except Fault (α × List Char)) {between : List Char}
    (h : Space between) (rest : List Char) : readOnce none read (between ++ ':' :: rest) = read rest := by
  simp [readOnce, readColon_append h, bind, Except.bind]

/-- One member is read as what it gives. -/
theorem readMember_append {members : Members} {entry : Entry} {between gap value rest : List Char}
    (hbetween : Space between) (hgap : Space gap) (hvalue : ValueText entry value) (hrest : Delimited rest)
    (hlacks : members.Lacks entry) :
    readMember members entry.name (between ++ ':' :: (gap ++ (value ++ rest))) =
      .ok (members.or (given [entry]), rest) := by
  cases hvalue with
  | limit kind hn =>
    have hread := readNatural_append hn hgap hrest
    cases kind with
    | words =>
      have hknown : members.maxWords = none := hlacks
      simp [readMember, Entry.name, hknown, readOnce_none, hbetween, hread, Except.map, Members.or, given,
        Entry.limit?, Entry.stem?]
    | bytes =>
      have hknown : members.maxBytes = none := hlacks
      simp [readMember, Entry.name, hknown, readOnce_none, hbetween, hread, Except.map, Members.or, given,
        Entry.limit?, Entry.stem?, Limit.name]
  | stem hquoted =>
    have hread := readQuoted_append hgap hquoted rest
    have hknown : members.labelStem = none := hlacks
    simp [readMember, Entry.name, hknown, readOnce_none, hbetween, hread, Except.map, Members.or, given,
      Entry.limit?, Entry.stem?, Limit.name, stemName]
  | @other name value hname hvalue =>
    have hskip : skipValue (gap ++ (value ++ rest)) = .ok rest := by
      rw [skipValue, skipIn_congr (skipBlanks_space hgap _)]
      exact skipValue_append hvalue hrest
    simp only [optionNames, List.mem_cons, List.not_mem_nil, or_false, not_or] at hname
    simp [readMember, Entry.name, hname, readColon_append, hbetween, hskip, bind, Except.bind, Except.map, Members.or,
      given, Entry.limit?, Entry.stem?]

theorem MemberText.exists_head {entry : Entry} {text : List Char} (h : MemberText entry text) (rest : List Char) :
    ∃ tail, skipBlanks (text ++ rest) = '"' :: tail := by
  obtain ⟨hbefore, hname⟩ := h
  obtain ⟨tail, rfl, -⟩ := hname.exists_cons
  rw [List.append_assoc, skipBlanks_space hbefore]
  exact ⟨_, skipBlanks_cons rfl _⟩

theorem MembersText.exists_head {entries : List Entry} {text : List Char} (h : MembersText entries text)
    (rest : List Char) : ∃ tail, skipBlanks (text ++ rest) = '"' :: tail := by
  cases h with
  | last hmember => exact hmember.exists_head rest
  | next hmember =>
    rw [List.append_assoc]
    exact hmember.exists_head _

/-- A member is read up to the white space behind it. -/
theorem MemberText.exists_read {entry : Entry} {text rest : List Char} (h : MemberText entry text)
    (hrest : Delimited rest) {members : Members} (hlacks : members.Lacks entry) :
    ∃ value behind, readName (text ++ rest) = .ok (.member entry.name value) ∧ Space behind ∧
      readMember members entry.name value = .ok (members.or (given [entry]), behind ++ rest) := by
  obtain ⟨hbefore, hname, hbetween, hgap, hvalue, hbehind⟩ := h
  refine ⟨_, _, ?_, hbehind, readMember_append hbetween hgap hvalue (hrest.space_append hbehind) hlacks⟩
  simpa using readName_append hbefore hname _

/-- The first member of an object is found as any other. -/
theorem readPart_first {text tail : List Char} (h : skipBlanks text = '"' :: tail) :
    readPart true text = readName text := by
  have hname : readName ('"' :: tail) = readName text := by
    rw [readName, readName, h, skipBlanks_cons rfl]
  rw [← hname, readPart, h]
  rfl

theorem readPart_closing {blanks : List Char} (h : Space blanks) (isFirst : Bool) (rest : List Char) :
    readPart isFirst (blanks ++ '\x7d' :: rest) = .ok (.closed rest) := by
  rw [readPart, skipBlanks_space_cons h rfl]
  rfl

theorem readPart_comma {blanks : List Char} (h : Space blanks) (rest : List Char) :
    readPart false (blanks ++ ',' :: rest) = readName rest := by
  rw [readPart, skipBlanks_space_cons h rfl]
  rfl

theorem readMembers_closed {isFirst : Bool} {members : Members} {text rest : List Char}
    (h : readPart isFirst text = .ok (.closed rest)) : readMembers isFirst members text = .ok (members, rest) := by
  rw [readMembers]
  split <;> simp_all

theorem readMembers_member {isFirst : Bool} {members after : Members} {name : String} {text value rest : List Char}
    (hpart : readPart isFirst text = .ok (.member name value))
    (hmember : readMember members name value = .ok (after, rest)) :
    readMembers isFirst members text = readMembers false after rest := by
  rw [readMembers]
  split
  · next heq => simp [hpart] at heq
  · next heq => simp [hpart] at heq
  · next heq =>
    rw [hpart] at heq
    cases heq
    split <;> simp_all

/-- Members are read in their order, each as what it gives. The first member of an object and a later one are found in
different ways, so the text begins where the name of a member is looked for. -/
theorem readMembers_append {entries : List Entry} {text : List Char} (h : MembersText entries text)
    (hdistinct : Distinct entries) {members : Members} (hlacks : ∀ entry ∈ entries, members.Lacks entry)
    {isFirst : Bool} {start rest : List Char} (hstart : readPart isFirst start = readName (text ++ '\x7d' :: rest)) :
    readMembers isFirst members start = .ok (members.or (given entries), rest) := by
  induction h generalizing members isFirst start with
  | @last entry text hmember =>
    have hdelimited : Delimited ('\x7d' :: rest) := .cons (by decide) rest
    obtain ⟨value, behind, hname, hbehind, hread⟩ := hmember.exists_read hdelimited (hlacks entry List.mem_cons_self)
    rw [readMembers_member (hstart.trans hname) hread, readMembers_closed (readPart_closing hbehind false rest)]
  | @next entry entries text more hmember _ ih =>
    rw [List.append_assoc, List.cons_append] at hstart
    obtain ⟨hfirst, hdistinct⟩ := List.pairwise_cons.1 hdistinct
    have hdelimited : Delimited (',' :: (more ++ '\x7d' :: rest)) := .cons (by decide) _
    obtain ⟨value, behind, hname, hbehind, hread⟩ := hmember.exists_read hdelimited (hlacks entry List.mem_cons_self)
    -- No option ahead becomes known, since this member has another name or gives no option.
    have hlacks' : ∀ later ∈ entries, (members.or (given [entry])).Lacks later := fun later hmem =>
      (hlacks later (List.mem_cons_of_mem _ hmem)).or_given (hfirst later hmem)
    rw [readMembers_member (hstart.trans hname) hread, ih hdistinct hlacks' (readPart_comma hbehind _),
      Members.or_assoc, ← given_cons]

theorem readMembersOrList_append {entries : List Entry} {text : List Char} (h : ObjectText entries text)
    (hdistinct : Distinct entries) :
    ∃ rest, readMembersOrList text = .ok (given entries, rest) ∧ Space rest := by
  cases h with
  | empty hbefore hblanks hbehind =>
    refine ⟨_, ?_, hbehind⟩
    rw [readMembersOrList, skipBlanks_space_cons hbefore rfl]
    exact readMembers_closed (readPart_closing hblanks true _)
  | @filled _ before members behind hbefore hmembers hbehind =>
    obtain ⟨tail, hhead⟩ := hmembers.exists_head ('\x7d' :: behind)
    refine ⟨behind, ?_, hbehind⟩
    rw [readMembersOrList, skipBlanks_space_cons hbefore rfl, ← Members.none_or (given entries)]
    exact readMembers_append hmembers hdistinct (fun entry _ => Members.none_lacks entry) (readPart_first hhead)

/-- An object gives its options, and the standard ones for those that it lacks. -/
theorem ofJson_eq_validate {entries : List Entry} {text : String} (h : ObjectText entries text.toList)
    (hdistinct : Distinct entries) :
    ofJson text = (given entries).complete.validate.mapError .zeroLimit := by
  obtain ⟨rest, hread, hrest⟩ := readMembersOrList_append h hdistinct
  have hnothing : skipBlanks rest = [] := by
    rw [← List.append_nil rest, skipBlanks_space hrest]
    rfl
  rw [ofJson, hread]
  simp [hnothing]

theorem memberText_compact {entry : Entry} {value : List Char} (h : ValueText entry value) :
    MemberText entry (quote entry.name ++ ':' :: value) := by
  simpa using MemberText.mk space_nil (quotedText_quote entry.name) space_nil space_nil h space_nil

/-- The members of a written configuration. -/
def entries (config : Config) : List Entry :=
  [.limit .words config.maxWords, .limit .bytes config.maxBytes, .stem config.labelStem]

theorem distinct_entries (config : Config) : Distinct config.entries := by
  simp [Distinct, entries, Entry.name, Limit.name, stemName]

theorem objectText_toJson {config : Config} (hwords : config.maxWords < 2 ^ 64) (hbytes : config.maxBytes < 2 ^ 64) :
    ObjectText config.entries config.toJson.toList := by
  have hmembers : MembersText config.entries _ :=
    .next (memberText_compact (.limit .words hwords)) (.next (memberText_compact (.limit .bytes hbytes))
      (.last (memberText_compact (.stem (quotedText_quote config.labelStem)))))
  have hquoted : quote Limit.words.name = '"' :: Limit.words.name.toList ++ ['"'] ∧
      quote Limit.bytes.name = '"' :: Limit.bytes.name.toList ++ ['"'] ∧
      quote stemName = '"' :: stemName.toList ++ ['"'] := by
    decide
  have htext := ObjectText.filled space_nil hmembers space_nil
  simp only [Entry.name, hquoted] at htext
  unfold toJson
  simpa [Nat.repr_eq_ofList_toDigits] using htext

/-- A usable configuration is read back from its written form. -/
theorem ofJson_toJson {config : Config} (hwords : 1 ≤ config.maxWords ∧ config.maxWords < 2 ^ 64)
    (hbytes : 1 ≤ config.maxBytes ∧ config.maxBytes < 2 ^ 64) : ofJson config.toJson = .ok config := by
  have hgiven : (given config.entries).complete = config := rfl
  rw [ofJson_eq_validate (objectText_toJson hwords.2 hbytes.2) (distinct_entries config), hgiven, validate,
    zeroLimit?, if_neg (Nat.ne_of_gt hwords.1), if_neg (Nat.ne_of_gt hbytes.1)]
  rfl

theorem ofJson_toJson_escaped : ofJson (toJson ⟨18446744073709551615, 1, "\"\\\x01😀"⟩) =
    .ok ⟨18446744073709551615, 1, "\"\\\x01😀"⟩ :=
  ofJson_toJson (by decide) (by decide)

end Config

end TraceDisasm
