import Mathlib.Algebra.Group.Nat.Defs
import Mathlib.Data.List.Chain
import TraceDisasm.Proofs.Reading
import TraceDisasm.Proofs.RowByRow

/-!
# The rows of a listing tile its bytes

A walk through a view makes one row after the other. Each of the three kinds of row takes a number of bytes off the
front, at least one and never more than there are, and shows exactly these (`Walk.step_reads`); the walk goes on behind
them. Hence the rows cover the bytes of the view without a gap and without an overlap (`Walk.listing_covers`), whatever
the classification, the labels and the limits are. A limit of zero is no exception: a row of data keeps the byte or word
it starts with.

`View.rows_tiles` spells this out in addresses, for a view that ends inside the address arithmetic.

So every byte is shown by one row (`RowAt.exists_covering`, `RowAt.eq_of_covering`), and this row is made by a walk that
stands at its first byte (`View.exists_walk_of_rowAt`).
-/

namespace TraceDisasm

namespace Walk

variable (symbols : Symbols) (config : Config)

/-! ## What a step takes -/

theorem byteRun_le (limit count : Nat) (address : UInt32) (rest : List UInt8) (trace : List Access) :
    byteRun symbols limit count address rest trace ≤ count + rest.length := by
  induction rest generalizing count address trace with
  | nil => simp [byteRun]
  | cons b rest ih =>
    simp only [byteRun, List.length_cons]
    split
    · omega
    · have := ih (count + 1) (address + 1) trace.tail
      omega

theorem wordRun_le (limit count : Nat) (address : UInt32) (rest : List UInt8) (trace : List Access) :
    2 * wordRun symbols limit count address rest trace ≤ 2 * count + rest.length := by
  fun_induction wordRun symbols limit count address rest trace with
  | case1 => omega
  | case2 count address a b rest trace h ih => simp only [List.length_cons]; omega
  | case3 => omega

theorem wordRun_of_le {symbols : Symbols} {limit count : Nat} (h : limit ≤ count) (address : UInt32) (rest : List UInt8)
    (trace : List Access) : wordRun symbols limit count address rest trace = count := by
  unfold wordRun
  split
  · simp [h]
  · rfl

theorem byteRun_of_le {symbols : Symbols} {limit count : Nat} (h : limit ≤ count) (address : UInt32) (rest : List UInt8)
    (trace : List Access) : byteRun symbols limit count address rest trace = count := by
  unfold byteRun
  split
  · rfl
  · simp [h]

/-- The number of bytes that a step takes. -/
def Reads (walk : Walk) (next : Row × Walk) (count : Nat) : Prop :=
  1 ≤ count ∧ count ≤ walk.cursor.remaining ∧ next.1.address = walk.cursor.address ∧
    next.1.raw = walk.cursor.rest.take count ∧ next.2.cursor = walk.cursor.skip count ∧
    next.2.trace = walk.trace.drop count

theorem Reads.length {walk : Walk} {next : Row × Walk} {count : Nat} (h : Reads walk next count) :
    next.1.length = count := by
  obtain ⟨-, hle, -, hraw, -, -⟩ := h
  rw [Row.length, hraw, List.length_take]
  exact Nat.min_eq_left hle

/-- The walk goes on where the row ends. -/
theorem Reads.stop {walk : Walk} {next : Row × Walk} {count : Nat} (h : Reads walk next count) :
    next.1.stop = next.2.cursor.address := by
  have hlen := h.length
  obtain ⟨-, -, haddress, -, hcursor, -⟩ := h
  rw [Row.stop, hlen, haddress, hcursor, Cursor.address_skip]

theorem instructionRow_reads (walk : Walk) (h : walk.cursor.rest ≠ []) :
    ∃ count, Reads walk (walk.instructionRow symbols) count := by
  obtain ⟨count, hpos, hle, hafter, hraw⟩ := Instruction.decode_reads symbols walk.jumpPage walk.cursor h
  refine ⟨count, hpos, hle, Instruction.decode_row_address .., hraw, hafter, ?_⟩
  -- the classification is dropped by the length of the row, which is what was read
  have hlen : (Instruction.decode symbols walk.jumpPage walk.cursor).row.length = count := by
    rw [Row.length, hraw, List.length_take]
    exact Nat.min_eq_left hle
  simp only [instructionRow, hlen]

theorem wordsRow_reads (walk : Walk) (h : walk.cursor.hasWord = true) :
    ∃ count, Reads walk (walk.wordsRow symbols config) count := by
  have h2 := (Cursor.hasWord_eq_true_iff walk.cursor).1 h
  have hge := le_wordRun symbols config.maxWords 1 (walk.cursor.address + 2) (walk.cursor.rest.drop 2)
    (walk.trace.drop 2)
  have hle := wordRun_le symbols config.maxWords 1 (walk.cursor.address + 2) (walk.cursor.rest.drop 2)
    (walk.trace.drop 2)
  rw [List.length_drop] at hle
  simp only [Cursor.remaining] at h2
  refine ⟨_, ?_, ?_, rfl, rfl, rfl, rfl⟩
  · omega
  · simp only [Cursor.remaining]; omega

theorem bytesRow_reads (walk : Walk) (h : walk.cursor.rest ≠ []) :
    ∃ count, Reads walk (walk.bytesRow symbols config) count := by
  have hpos : 0 < walk.cursor.rest.length := List.length_pos_iff.2 h
  have hge := le_byteRun symbols config.maxBytes 1 (walk.cursor.address + 1) (walk.cursor.rest.drop 1)
    (walk.trace.drop 1)
  have hle := byteRun_le symbols config.maxBytes 1 (walk.cursor.address + 1) (walk.cursor.rest.drop 1)
    (walk.trace.drop 1)
  rw [List.length_drop] at hle
  refine ⟨_, ?_, ?_, rfl, rfl, rfl, rfl⟩
  · omega
  · simp only [Cursor.remaining]; omega

/-- Every row takes some bytes off the front and shows just these. -/
theorem step_reads (walk : Walk) (h : walk.cursor.rest ≠ []) : ∃ count, Reads walk (walk.step symbols config) count := by
  suffices ∃ count, Reads walk (walk.bareRow symbols config) count by
    obtain ⟨count, hr⟩ := this
    exact ⟨count, hr⟩
  simp only [bareRow]
  split
  · exact instructionRow_reads symbols walk h
  · split
    · next hw => exact wordsRow_reads symbols config walk (by simp only [Bool.and_eq_true] at hw; exact hw.1)
    · exact bytesRow_reads symbols config walk h

/-! ## Where a walk stands in its view -/

/-- The walk has `index` bytes of the view behind it. -/
structure IsAt (view : View) (index : Nat) (walk : Walk) : Prop where
  le : index ≤ view.bytes.length
  cursor : walk.cursor = (Cursor.ofBytes view.start view.bytes).skip index
  trace : walk.trace = view.trace.drop index

namespace IsAt

variable {symbols config} {view : View} {index : Nat} {walk : Walk}

theorem ofView (view : View) : IsAt view 0 (Walk.ofView view) :=
  ⟨Nat.zero_le _, by simp [Walk.ofView], by simp [Walk.ofView]⟩

theorem rest (h : IsAt view index walk) : walk.cursor.rest = view.bytes.drop index := by
  rw [h.cursor]; rfl

theorem remaining (h : IsAt view index walk) : walk.cursor.remaining = view.bytes.length - index := by
  rw [Cursor.remaining, h.rest, List.length_drop]

theorem address (h : IsAt view index walk) : walk.cursor.address = view.start + UInt32.ofNat index := by
  rw [h.cursor, Cursor.address_skip]
  simp [Cursor.address, Cursor.ofBytes]

theorem address_add (h : IsAt view index walk) (n : Nat) :
    walk.cursor.address + UInt32.ofNat n = view.start + UInt32.ofNat (index + n) := by
  rw [h.address, Address.add_ofNat_add]

theorem toNat_address (h : IsAt view index walk) (bound : view.start.toNat + view.bytes.length < 2 ^ 32) :
    walk.cursor.address.toNat = view.start.toNat + index := by
  have hle := h.le
  rw [h.address, UInt32.toNat_add, UInt32.toNat_ofNat']
  omega

theorem index_lt (h : IsAt view index walk) (hr : walk.cursor.rest ≠ []) : index < view.bytes.length := by
  have hne : view.bytes.drop index ≠ [] := h.rest ▸ hr
  rw [ne_eq, List.drop_eq_nil_iff] at hne
  omega

theorem step {next : Row × Walk} {count : Nat} (h : IsAt view index walk) (hr : Reads walk next count) :
    IsAt view (index + count) next.2 := by
  obtain ⟨-, hle, -, -, hcursor, htrace⟩ := hr
  have hrem := h.remaining
  refine ⟨by have := h.le; omega, ?_, ?_⟩
  · rw [hcursor, h.cursor, Cursor.skip_skip]
  · rw [htrace, h.trace, List.drop_drop]

end IsAt

/-! ## Tiling -/

/-- Rows that cover some bytes one behind the other, from an address on. -/
inductive Covers : UInt32 → List UInt8 → List Row → Prop
  | nil (start : UInt32) : Covers start [] []
  | cons {bytes : List UInt8} {row : Row} {rows : List Row} :
      row.raw ≠ [] → Covers row.stop bytes rows → Covers row.address (row.raw ++ bytes) (row :: rows)

theorem listing_covers (walk : Walk) :
    Covers walk.cursor.address walk.cursor.rest (walk.listing symbols config) := by
  refine listing_induct symbols config (P := fun walk rows => Covers walk.cursor.address walk.cursor.rest rows)
    ?_ ?_ walk
  · intro walk h
    rw [h]
    exact .nil _
  · intro walk h ih
    obtain ⟨count, hreads⟩ := step_reads symbols config walk h
    have hlen := hreads.length
    have hstop := hreads.stop
    obtain ⟨hpos, -, haddress, hraw, hcursor, -⟩ := hreads
    have hrest : walk.cursor.rest = (walk.step symbols config).1.raw ++ (walk.step symbols config).2.cursor.rest := by
      rw [hraw, hcursor, Cursor.rest_skip, List.take_append_drop]
    rw [← haddress, hrest]
    refine .cons ?_ (hstop ▸ ih)
    intro hnil
    rw [Row.length, hnil, List.length_nil] at hlen
    omega

namespace Covers

variable {start : UInt32} {bytes : List UInt8} {rows : List Row}

theorem flatMap_raw (h : Covers start bytes rows) : rows.flatMap Row.raw = bytes := by
  induction h with
  | nil => rfl
  | cons _ _ ih => rw [List.flatMap_cons, ih]

theorem raw_ne_nil (h : Covers start bytes rows) : ∀ row ∈ rows, row.raw ≠ [] := by
  induction h with
  | nil => simp
  | cons hne _ ih => exact List.forall_mem_cons.2 ⟨hne, ih⟩

theorem eq_nil_iff (h : Covers start bytes rows) : rows = [] ↔ bytes = [] := by
  cases h with
  | nil => simp
  | cons hne _ => simp [hne]

theorem address_head (h : Covers start bytes rows) : ∀ row, rows.head? = some row → row.address = start := by
  cases h with
  | nil => simp
  | cons _ _ => simp

theorem isChain (h : Covers start bytes rows) : rows.IsChain fun row next => next.address = row.stop := by
  induction h with
  | nil => exact .nil
  | cons _ hrest ih => exact List.isChain_cons.2 ⟨fun next hnext => hrest.address_head next hnext, ih⟩

/-- Ends of rows are exact as long as the bytes end before the last address. -/
theorem stop_toNat (h : Covers start bytes rows) (bound : start.toNat + bytes.length < 2 ^ 32) :
    ∀ row ∈ rows, row.stop.toNat = row.address.toNat + row.length := by
  induction h with
  | nil => simp
  | @cons bytes row rows hne hrest ih =>
    rw [List.length_append] at bound
    have hstop : row.stop.toNat = row.address.toNat + row.length := by
      rw [Row.stop, UInt32.toNat_add, UInt32.toNat_ofNat', Row.length]
      omega
    refine List.forall_mem_cons.2 ⟨hstop, ih ?_⟩
    rw [hstop, Row.length]
    omega

theorem stop_getLast (h : Covers start bytes rows) (bound : start.toNat + bytes.length < 2 ^ 32) :
    ∀ row, rows.getLast? = some row → row.stop.toNat = start.toNat + bytes.length := by
  induction h with
  | nil => simp
  | @cons bytes row rows hne hrest ih =>
    have hstop := stop_toNat (.cons hne hrest) bound row List.mem_cons_self
    rw [List.length_append] at bound ⊢
    rw [Row.length] at hstop
    intro last hlast
    cases rows with
    | nil =>
      have hb := hrest.eq_nil_iff.1 rfl
      obtain rfl : row = last := by simpa using hlast
      simp [hb, hstop]
    | cons next rows =>
      rw [List.getLast?_cons_cons] at hlast
      rw [ih (by omega) last hlast, hstop]
      omega

/-- A row lies within the bytes that the rows cover. -/
theorem bounds (h : Covers start bytes rows) (bound : start.toNat + bytes.length < 2 ^ 32) : ∀ row ∈ rows,
    start.toNat ≤ row.address.toNat ∧ row.address.toNat < row.stop.toNat ∧
      row.stop.toNat ≤ start.toNat + bytes.length := by
  induction h with
  | nil => simp
  | @cons bytes row rows hne hrest ih =>
    have hstop := stop_toNat (.cons hne hrest) bound row List.mem_cons_self
    have hpos : 0 < row.raw.length := List.length_pos_iff.2 hne
    rw [List.length_append] at bound ⊢
    rw [Row.length] at hstop
    refine List.forall_mem_cons.2 ⟨by omega, ?_⟩
    intro later hlater
    have hbounds := ih (by omega) later hlater
    omega

end Covers

end Walk

theorem View.rows_covers (view : View) (symbols : Symbols) (config : Config) :
    Walk.Covers view.start view.bytes (view.rows symbols config) := by
  have hat := Walk.IsAt.ofView view
  have covers := Walk.listing_covers symbols config (Walk.ofView view)
  rw [hat.address, hat.rest] at covers
  simpa [View.rows_eq_listing] using covers

/-- Rows that show every byte exactly once, in order, from an address on. -/
structure Tiles (start : UInt32) (bytes : List UInt8) (rows : List Row) : Prop where
  nonempty : ∀ row ∈ rows, row.raw ≠ []
  /-- The first row starts at the address. -/
  first : ∀ row, rows.head? = some row → row.address = start
  /-- Every other row starts where the one before it ends. -/
  next : rows.IsChain fun row next => next.address = row.stop
  /-- No end of a row is wrapped around. -/
  stop : ∀ row ∈ rows, row.stop.toNat = row.address.toNat + row.length
  /-- The last row ends with the bytes. -/
  last : ∀ row, rows.getLast? = some row → row.stop.toNat = start.toNat + bytes.length
  raw : rows.flatMap Row.raw = bytes
  empty : rows = [] ↔ bytes = []

/-- **Rows for every byte, exactly once.** The walk through a view ends, and its rows tile the bytes of the view. -/
theorem View.rows_tiles (view : View) (symbols : Symbols) (config : Config)
    (bound : view.start.toNat + view.bytes.length < 2 ^ 32) :
    Tiles view.start view.bytes (view.rows symbols config) := by
  have covers := view.rows_covers symbols config
  exact
    { nonempty := covers.raw_ne_nil
      first := covers.address_head
      next := covers.isChain
      stop := covers.stop_toNat bound
      last := covers.stop_getLast bound
      raw := covers.flatMap_raw
      empty := covers.eq_nil_iff }

/-- Limits of zero, a word of data, and an instruction that the end of the view cuts off in its operand. -/
theorem View.rows_tiles_cut_off :
    (0x1000 : UInt32).toNat + [0x34, 0x12, 0xB0, 0x05, 0xC4, 0x01].length < 2 ^ 32 ∧
      Tiles 0x1000 [0x34, 0x12, 0xB0, 0x05, 0xC4, 0x01]
        (View.rows ⟨0x1000, [0x34, 0x12, 0xB0, 0x05, 0xC4, 0x01],
          [.ofFlags [.wordLo], .none, .ofFlags [.instruction]]⟩ (.empty defaultStem) ⟨0, 0, defaultStem⟩) :=
  ⟨by decide, View.rows_tiles ⟨0x1000, [0x34, 0x12, 0xB0, 0x05, 0xC4, 0x01],
    [.ofFlags [.wordLo], .none, .ofFlags [.instruction]]⟩ (.empty defaultStem) ⟨0, 0, defaultStem⟩ (by decide)⟩

/-! ## Where a row stands -/

/-- The row is in the list, and the rows before it show `offset` bytes. -/
inductive RowAt : List Row → Nat → Row → Prop
  | head (row : Row) (rows : List Row) : RowAt (row :: rows) 0 row
  | tail (first : Row) {rows : List Row} {offset : Nat} {row : Row} :
      RowAt rows offset row → RowAt (first :: rows) (first.length + offset) row

namespace RowAt

variable {rows : List Row} {offset offset' : Nat} {row row' : Row}

theorem mem (h : RowAt rows offset row) : row ∈ rows := by
  induction h with
  | head row rows => exact List.mem_cons_self
  | tail first _ ih => exact List.mem_cons_of_mem first ih

theorem exists_of_mem (h : row ∈ rows) : ∃ offset, RowAt rows offset row := by
  induction rows with
  | nil => cases h
  | cons first rows ih =>
    rcases List.mem_cons.1 h with rfl | h
    · exact ⟨0, .head row rows⟩
    · obtain ⟨offset, hat⟩ := ih h
      exact ⟨first.length + offset, .tail first hat⟩

theorem stop_le (h : RowAt rows offset row) : offset + row.length ≤ (rows.flatMap Row.raw).length := by
  induction h with
  | head row rows =>
    rw [List.flatMap_cons, List.length_append, Row.length]
    omega
  | tail first _ ih =>
    rw [List.flatMap_cons, List.length_append, Row.length]
    omega

/-- Every byte is shown by a row. -/
theorem exists_covering {index : Nat} (h : index < (rows.flatMap Row.raw).length) :
    ∃ offset row, RowAt rows offset row ∧ offset ≤ index ∧ index < offset + row.length := by
  induction rows generalizing index with
  | nil => simp at h
  | cons first rows ih =>
    rw [List.flatMap_cons, List.length_append] at h
    by_cases hfirst : index < first.length
    · exact ⟨0, first, .head first rows, Nat.zero_le index, by rwa [Nat.zero_add]⟩
    · have hlength : first.length = first.raw.length := rfl
      have hrest : index - first.length < (rows.flatMap Row.raw).length := by omega
      obtain ⟨offset, row, hat, hle, hlt⟩ := ih hrest
      exact ⟨first.length + offset, row, .tail first hat, by omega, by omega⟩

/-- No two rows show the same byte. -/
theorem eq_of_covering (h : RowAt rows offset row) (h' : RowAt rows offset' row') {index : Nat} (hle : offset ≤ index)
    (hlt : index < offset + row.length) (hle' : offset' ≤ index) (hlt' : index < offset' + row'.length) : row = row' := by
  induction h generalizing offset' index with
  | head row rows =>
    cases h' with
    | head => rfl
    | tail => omega
  | @tail first rows offset row hat ih =>
    cases h' with
    | head => omega
    | @tail _ _ offset' _ hat' =>
      have hle : offset ≤ index - first.length := by omega
      exact ih hat' hle (by omega) (by omega) (by omega)

end RowAt

/-- The row behind `offset` bytes is the next row of a walk that has these behind it. -/
theorem Walk.exists_of_rowAt {symbols : Symbols} {config : Config} {view : View} {row : Row} (walk : Walk) :
    ∀ index offset, IsAt view index walk → RowAt (walk.listing symbols config) offset row →
      ∃ walk, IsAt view (index + offset) walk ∧ walk.cursor.rest ≠ [] ∧ row = (walk.step symbols config).1 := by
  refine listing_induct symbols config (P := fun walk rows => ∀ index offset, IsAt view index walk →
    RowAt rows offset row →
      ∃ walk, IsAt view (index + offset) walk ∧ walk.cursor.rest ≠ [] ∧ row = (walk.step symbols config).1) ?_ ?_ walk
  · intro walk _ index offset _ hrow
    cases hrow
  · intro walk hrest ih index offset hat hrow
    cases hrow with
    | head => exact ⟨walk, hat, hrest, rfl⟩
    | tail _ hrow =>
      obtain ⟨count, hreads⟩ := step_reads symbols config walk hrest
      rw [hreads.length, ← Nat.add_assoc]
      exact ih (index + count) _ (hat.step hreads) hrow

namespace View

variable {view : View} {symbols : Symbols} {config : Config} {row : Row}

theorem exists_walk_of_rowAt {offset : Nat} (h : RowAt (view.rows symbols config) offset row) :
    ∃ walk, Walk.IsAt view offset walk ∧ walk.cursor.rest ≠ [] ∧ row = (walk.step symbols config).1 := by
  rw [rows_eq_listing] at h
  have hwalk := Walk.exists_of_rowAt (Walk.ofView view) 0 offset (.ofView view) h
  rwa [Nat.zero_add] at hwalk

/-- Every row of a listing is the next row of a walk that stands somewhere in the view. -/
theorem exists_walk_of_mem (h : row ∈ view.rows symbols config) :
    ∃ index walk, Walk.IsAt view index walk ∧ walk.cursor.rest ≠ [] ∧ row = (walk.step symbols config).1 := by
  obtain ⟨offset, hrow⟩ := RowAt.exists_of_mem h
  exact ⟨offset, exists_walk_of_rowAt hrow⟩

end View

end TraceDisasm
