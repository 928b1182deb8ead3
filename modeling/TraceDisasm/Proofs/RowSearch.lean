import TraceDisasm.Proofs.KeptTiling

/-!
# Finding the row of an address

The row that covers an address is looked for by halving. This asks for rows that lie one behind the other, for only then do
the rows that end at the address or before it come first (`Walk.Covers.indexOf?_eq_some_iff`). It does not ask for rows that
are up to date: every listing that a bank keeps covers the addresses of the bank, also after memory has changed behind the
back of the tracer. So every address of a bank is found, in the one row that covers it, and no other address is
(`Tracer.Made.findsRows`).
-/

namespace TraceDisasm

/-! ## Rows that lie one behind the other -/

theorem Row.contains_iff {row : Row} {address : UInt32} :
    row.contains address = true ↔ row.address.toNat ≤ address.toNat ∧ address.toNat < row.stop.toNat := by
  simp [contains, UInt32.le_iff_toNat_le, UInt32.lt_iff_toNat_lt]

/-- Whatever the rows are, a position that is found is that of a row that covers the address. -/
theorem Row.exists_contains_of_indexOf? {rows : List Row} {address : UInt32} {i : Nat}
    (h : indexOf? rows address = some i) : ∃ row, rows[i]? = some row ∧ row.contains address = true := by
  simp only [indexOf?, Option.map_eq_some_iff, Option.filter_eq_some_iff] at h
  obtain ⟨row, ⟨hget, hcontains⟩, rfl⟩ := h
  exact ⟨row, hget, hcontains⟩

namespace Walk.Covers

variable {start address : UInt32} {bytes : List UInt8} {rows : List Row}

theorem pairwise (h : Covers start bytes rows) (bound : start.toNat + bytes.length < 2 ^ 32) :
    rows.Pairwise fun row later => row.stop.toNat ≤ later.address.toNat := by
  induction h with
  | nil => exact .nil
  | @cons bytes row rows hne hrest ih =>
    have hstop := stop_toNat (.cons hne hrest) bound row List.mem_cons_self
    rw [List.length_append] at bound
    rw [Row.length] at hstop
    have hbound : row.stop.toNat + bytes.length < 2 ^ 32 := by omega
    exact List.pairwise_cons.2 ⟨fun later hlater => (hrest.bounds hbound later hlater).1, ih hbound⟩

/-- The addresses of the bytes are those that a row covers. -/
theorem exists_contains_iff (h : Covers start bytes rows) (bound : start.toNat + bytes.length < 2 ^ 32) :
    (∃ row ∈ rows, row.contains address = true) ↔
      start.toNat ≤ address.toNat ∧ address.toNat < start.toNat + bytes.length := by
  constructor
  · rintro ⟨row, hmem, hcontains⟩
    have hbounds := h.bounds bound row hmem
    rw [Row.contains_iff] at hcontains
    omega
  · induction h with
    | nil =>
      rw [List.length_nil]
      omega
    | @cons bytes row rows hne hrest ih =>
      have hstop := stop_toNat (.cons hne hrest) bound row List.mem_cons_self
      rw [List.length_append] at bound ⊢
      rw [Row.length] at hstop
      rintro ⟨hlo, hhi⟩
      by_cases hfirst : address.toNat < row.stop.toNat
      · exact ⟨row, List.mem_cons_self, Row.contains_iff.2 ⟨hlo, hfirst⟩⟩
      · obtain ⟨later, hlater, hcontains⟩ := ih (by omega) ⟨by omega, by omega⟩
        exact ⟨later, List.mem_cons_of_mem row hlater, hcontains⟩

/-- The position of a row that covers an address is found, for the rows before it end at the address or before it, and those
behind it end later. -/
theorem indexOf?_eq_some_iff (h : Covers start bytes rows) (bound : start.toNat + bytes.length < 2 ^ 32) {i : Nat} :
    Row.indexOf? rows address = some i ↔ ∃ row, rows[i]? = some row ∧ row.contains address = true := by
  refine ⟨Row.exists_contains_of_indexOf?, ?_⟩
  rintro ⟨row, hget, hcontains⟩
  have hstops : ∀ later ∈ rows, later.address.toNat < later.stop.toNat := fun later hlater =>
    (h.bounds bound later hlater).2.1
  have hpairwise := h.pairwise bound
  obtain ⟨front, back, rfl, rfl⟩ : ∃ front back, rows = front ++ row :: back ∧ front.length = i := by
    obtain ⟨hi, rfl⟩ := List.getElem?_eq_some_iff.1 hget
    exact ⟨rows.take i, rows.drop (i + 1), by simp, List.length_take_of_le hi.le⟩
  obtain ⟨hlo, hhi⟩ := Row.contains_iff.1 hcontains
  obtain ⟨-, hback, hfront⟩ := List.pairwise_append.1 hpairwise
  have hplace : partitionPoint (fun row => row.stop ≤ address) (front ++ row :: back) = front.length := by
    refine partitionPoint_append ?_ (List.forall_mem_cons.2 ⟨?_, ?_⟩)
    · intro earlier hearlier
      have hbefore := hfront earlier hearlier row List.mem_cons_self
      rw [decide_eq_true_eq, UInt32.le_iff_toNat_le]
      omega
    · rw [decide_eq_false_iff_not, UInt32.le_iff_toNat_le]
      omega
    · intro later hlater
      have hafter := (List.pairwise_cons.1 hback).1 later hlater
      have hstop := hstops later (List.mem_append_right front (List.mem_cons_of_mem row hlater))
      rw [decide_eq_false_iff_not, UInt32.le_iff_toNat_le]
      omega
  simp only [Row.indexOf?, hplace, hget, Option.filter_some, hcontains, if_true, Option.map_some]

theorem isSome_indexOf?_iff (h : Covers start bytes rows) (bound : start.toNat + bytes.length < 2 ^ 32) :
    (Row.indexOf? rows address).isSome = true ↔
      start.toNat ≤ address.toNat ∧ address.toNat < start.toNat + bytes.length := by
  rw [← h.exists_contains_iff bound, Option.isSome_iff_exists]
  simp only [h.indexOf?_eq_some_iff bound]
  constructor
  · rintro ⟨i, row, hget, hcontains⟩
    exact ⟨row, List.mem_of_getElem? hget, hcontains⟩
  · rintro ⟨row, hmem, hcontains⟩
    obtain ⟨i, hget⟩ := List.mem_iff_getElem?.1 hmem
    exact ⟨i, row, hget, hcontains⟩

/-- Halving finds what looking at one row after the other finds. -/
theorem indexOf?_eq_findIdx? (h : Covers start bytes rows) (bound : start.toNat + bytes.length < 2 ^ 32) :
    Row.indexOf? rows address = rows.findIdx? fun row => row.contains address := by
  cases hfound : rows.findIdx? fun row => row.contains address with
  | none =>
    rw [List.findIdx?_eq_none_iff] at hfound
    refine Option.eq_none_iff_forall_ne_some.2 fun i hindex => ?_
    obtain ⟨row, hget, hcontains⟩ := Row.exists_contains_of_indexOf? hindex
    rw [hfound row (List.mem_of_getElem? hget)] at hcontains
    cases hcontains
  | some i =>
    obtain ⟨hi, hcontains, -⟩ := List.findIdx?_eq_some_iff_getElem.1 hfound
    exact (h.indexOf?_eq_some_iff bound).2 ⟨rows[i], List.getElem?_eq_getElem hi, hcontains⟩

end Walk.Covers

/-! ## Rows of the banks -/

/-- No address of a bank is close to the end of the address arithmetic. -/
theorem Bank.Placed.start_add_size_lt {bank : Bank} (placed : bank.Placed) : bank.start.toNat + bank.size < 2 ^ 32 := by
  have hle := placed.start_le
  have hspace := placed.stop_le
  rw [Address.spaceSize] at hspace
  rw [size]
  omega

namespace Tracer

variable {s t : Tracer} {start : Tracer}

/-- A listing covers the addresses of its bank, whether it is made anew or was kept. -/
theorem render_covers (sound : s.Sound) (tiled : s.Tiled) {id : BankId} {rows : List Row}
    (h : s.render id = .ok (t, rows)) : ∃ bank ∈ s.registry.banks, bank.id = id ∧
      ∃ bytes, bank.start.toNat + bytes.length < 2 ^ 32 ∧ bytes.length = bank.size ∧ Walk.Covers bank.start bytes rows := by
  obtain ⟨bank, hget, hrows⟩ := render_eq_ok_iff.1 h
  obtain ⟨hmem, hid⟩ := sound.arranged.get?_eq_some_iff.1 hget
  have placed := sound.arranged.placed hmem
  obtain ⟨bytes, hlength, covers⟩ : ∃ bytes, bytes.length = bank.size ∧ Walk.Covers bank.start bytes rows := by
    rcases hrows with ⟨hcurrent, -⟩ | ⟨-, rfl, -⟩
    · exact tiled bank hmem rows (Bank.current?_eq_some_iff.1 hcurrent).2
    · exact s.tiled_list placed _ rfl
  exact ⟨bank, hmem, hid, bytes, hlength ▸ placed.start_add_size_lt, hlength, covers⟩

/-- What the search for the row of a bank that covers an address comes to: the listing of the bank, the state behind, and the
position in the listing. -/
structure FindsRow (s : Tracer) (bank : Bank) (address : UInt32) (t : Tracer) (rows : List Row) (index : Option Nat) :
    Prop where
  renders : s.render bank.id = .ok (t, rows)
  answers : s.rowIndex bank.id address = .ok (t, index)
  /-- There is a position just for the addresses of the bank. -/
  isSome_iff : index.isSome = true ↔ bank.contains address = true
  /-- The row at the position covers the address, and no other row does. -/
  eq_some_iff : ∀ i, index = some i ↔ ∃ row, rows[i]? = some row ∧ row.contains address = true

/-- If all kept listings cover their banks, a search comes to its end. -/
theorem exists_findsRow (sound : s.Sound) (tiled : s.Tiled) {bank : Bank} (hmem : bank ∈ s.registry.banks)
    (address : UInt32) : ∃ t rows index, s.FindsRow bank address t rows index := by
  obtain ⟨t, rows, hrender⟩ := exists_render sound.arranged hmem
  obtain ⟨found, hfound, hid, bytes, bound, hlength, covers⟩ := render_covers sound tiled hrender
  obtain rfl := sound.arranged.eq_of_id_eq hfound hmem hid
  refine ⟨t, rows, Row.indexOf? rows address, hrender, ?_, ?_, fun i => covers.indexOf?_eq_some_iff bound⟩
  · rw [rowIndex, hrender]
    rfl
  · have hle := (sound.arranged.placed hmem).start_le
    rw [covers.isSome_indexOf?_iff bound, Bank.contains_iff, hlength, Bank.size, Nat.add_sub_cancel' hle]

/-- Every search finds the row that is asked for. -/
structure FindsRows (s : Tracer) : Prop where
  row : ∀ bank ∈ s.registry.banks, ∀ address, ∃ t rows index, s.FindsRow bank address t rows index
  /-- The row of a program counter is one of the bank that its address lies in. -/
  place : ∀ pc codeBank, ∀ bank ∈ s.registry.banks, bank.contains (Address.physical pc codeBank) = true →
    s.bankFor? (Address.physical pc codeBank) = some bank.id ∧
      ∃ t rows i, s.FindsRow bank (Address.physical pc codeBank) t rows (some i) ∧
        s.rowIndexAtPc pc codeBank = .ok (t, some (bank.id, i))
  noPlace : ∀ pc codeBank, (∀ bank ∈ s.registry.banks, bank.contains (Address.physical pc codeBank) = false) →
    s.rowIndexAtPc pc codeBank = .ok (s, none)

/-- **Finding the row of an address.** At any time, also after memory has changed behind the back of the tracer, a search
finds the one row of the listing that covers an address, and finds none just if the address is not one of the bank. -/
theorem Made.findsRows (made : Made start) (commands : List Command) : (start.run commands).1.FindsRows := by
  have sound := made.sound_run commands
  have tiled := made.tiled_run commands
  generalize (start.run commands).1 = s at sound tiled
  refine ⟨fun bank hmem address => exists_findsRow sound tiled hmem address, ?_, ?_⟩
  · intro pc codeBank bank hmem hcontains
    have hbank : s.bankFor? (Address.physical pc codeBank) = some bank.id :=
      sound.arranged.bankFor?_eq_some_iff.2 ⟨bank, hmem, rfl, hcontains⟩
    obtain ⟨t, rows, index, finds⟩ := exists_findsRow sound tiled hmem (Address.physical pc codeBank)
    obtain ⟨i, rfl⟩ := Option.isSome_iff_exists.1 (finds.isSome_iff.2 hcontains)
    refine ⟨hbank, t, rows, i, finds, ?_⟩
    simp only [rowIndexAtPc, hbank, finds.answers]
    rfl
  · intro pc codeBank hnone
    have hbank : s.bankFor? (Address.physical pc codeBank) = none := by
      refine Option.eq_none_iff_forall_ne_some.2 fun id hid => ?_
      obtain ⟨bank, hmem, -, hcontains⟩ := sound.arranged.bankFor?_eq_some_iff.1 hid
      rw [hnone bank hmem] at hcontains
      cases hcontains
    simp only [rowIndexAtPc, hbank]

/-- The RAM is listed, and changes behind the back of the tracer. -/
def staleRam : List Command := [.render .ram, .memory (.write 0x1005 0x42)]

theorem findsRows_staleRam : Made .new ∧ (Tracer.new.run staleRam).1.FindsRows :=
  ⟨.new, Made.findsRows .new staleRam⟩

end Tracer

end TraceDisasm
