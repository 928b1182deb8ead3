import TraceDisasm.Listing

/-!
# A listing row by row

A listing runs through each run of code in a loop of its own, and labels its rows when all of them are there. Proofs go from
one row to the next. For them the same rows are made one at a time, with their labels (`Walk.step`). Whether the next row
belongs to a run of code is then told by the mark that the row before has left (`Walk.inCode`), which stands for the place
inside the inner loop.

Both ways lead to the same listing (`View.rows_eq_listing`). A run of code ends with a row that does not run on, or with the
bytes (`Walk.codeRun_listing`), so wherever the outer loop decides, the mark is not set or has nothing to tell.
-/

namespace TraceDisasm

namespace Walk

/-! ## One row at a time -/

/-- The next row, without its label. -/
def bareRow (symbols : Symbols) (config : Config) (walk : Walk) : Row × Walk :=
  let known := walk.trace.headD .none
  if walk.inCode || known.has .instruction then walk.instructionRow symbols
  else if walk.cursor.hasWord && known.has .wordLo then walk.wordsRow symbols config
  else walk.bytesRow symbols config

/-- The next row, and the walk behind it. -/
def step (symbols : Symbols) (config : Config) (walk : Walk) : Row × Walk :=
  let (row, after) := walk.bareRow symbols config
  (row.withLabel symbols, after)

/-- Every row takes at least one byte. -/
theorem step_remaining_lt (symbols : Symbols) (config : Config) (walk : Walk) (h : walk.cursor.rest ≠ []) :
    (walk.step symbols config).2.cursor.remaining < walk.cursor.remaining := by
  simp only [step, bareRow]
  split
  · exact instructionRow_remaining_lt symbols walk h
  · split
    · exact wordsRow_remaining_lt symbols config walk h
    · exact bytesRow_remaining_lt symbols config walk h

/-- The rows from here to the end. -/
def listing (symbols : Symbols) (config : Config) (walk : Walk) : List Row :=
  if walk.cursor.rest = [] then []
  else
    let next := walk.step symbols config
    next.1 :: next.2.listing symbols config
termination_by walk.cursor.remaining
decreasing_by exact step_remaining_lt symbols config walk ‹_›

variable (symbols : Symbols) (config : Config)

theorem listing_nil (walk : Walk) (h : walk.cursor.rest = []) : walk.listing symbols config = [] := by
  rw [listing, if_pos h]

theorem listing_cons (walk : Walk) (h : walk.cursor.rest ≠ []) :
    walk.listing symbols config =
      (walk.step symbols config).1 :: (walk.step symbols config).2.listing symbols config := by
  rw [listing, if_neg h]

/-- What holds at the end of the bytes, and at a walk whenever it holds behind its next row, holds everywhere. -/
theorem listing_induct {P : Walk → List Row → Prop} (done : ∀ walk, walk.cursor.rest = [] → P walk [])
    (next : ∀ walk, walk.cursor.rest ≠ [] →
      P (walk.step symbols config).2 ((walk.step symbols config).2.listing symbols config) →
      P walk ((walk.step symbols config).1 :: (walk.step symbols config).2.listing symbols config))
    (walk : Walk) : P walk (walk.listing symbols config) := by
  by_cases h : walk.cursor.rest = []
  · rw [listing_nil symbols config walk h]
    exact done walk h
  · rw [listing_cons symbols config walk h]
    exact next walk h (listing_induct done next (walk.step symbols config).2)
termination_by walk.cursor.remaining
decreasing_by exact step_remaining_lt symbols config walk h

/-! ## The same rows, block by block -/

/-- The outer loop may decide what comes next: the row before does not run on, or there is nothing left. -/
def Settled (walk : Walk) : Prop := walk.inCode = false ∨ walk.cursor.rest = []

/-- A step at code, told by the row of the instruction. -/
theorem listing_of_code {walk : Walk} (h : walk.cursor.rest ≠ [])
    (hcode : (walk.inCode || (walk.trace.headD .none).has .instruction) = true) :
    walk.listing symbols config = (walk.instructionRow symbols).1.withLabel symbols ::
      (walk.instructionRow symbols).2.listing symbols config := by
  rw [listing_cons symbols config walk h, step, bareRow, if_pos hcode]

/-- A run of code has the rows that come one at a time, and leaves the decision to the outer loop. -/
theorem codeRun_listing (walk : Walk) (made : List Row)
    (hcode : (walk.inCode || (walk.trace.headD .none).has .instruction) = true) :
    (walk.codeRun symbols made).2.Settled ∧
      (walk.codeRun symbols made).1.reverse.map (Row.withLabel symbols) ++
          (walk.codeRun symbols made).2.listing symbols config =
        made.reverse.map (Row.withLabel symbols) ++ walk.listing symbols config := by
  fun_induction codeRun symbols walk made with
  | case1 walk made h => exact ⟨.inr h, rfl⟩
  | case2 walk made h next hruns ih =>
    obtain ⟨settled, hrows⟩ := ih (by rw [hruns, Bool.true_or])
    refine ⟨settled, ?_⟩
    rw [hrows, listing_of_code symbols config h hcode, List.reverse_cons, List.map_append, List.append_assoc]
    rfl
  | case3 walk made h next hends =>
    refine ⟨.inl (Bool.eq_false_iff.2 hends), ?_⟩
    rw [listing_of_code symbols config h hcode, List.reverse_cons, List.map_append, List.append_assoc]
    rfl

/-- So has whatever comes next. -/
theorem block_listing (walk : Walk) (made : List Row) (h : walk.cursor.rest ≠ []) (settled : walk.Settled) :
    (walk.block symbols config made).2.Settled ∧
      (walk.block symbols config made).1.reverse.map (Row.withLabel symbols) ++
          (walk.block symbols config made).2.listing symbols config =
        made.reverse.map (Row.withLabel symbols) ++ walk.listing symbols config := by
  have hmark : walk.inCode = false := settled.resolve_right h
  rw [block]
  dsimp only
  split
  · next hcode => exact codeRun_listing symbols config walk made (by rw [hcode, Bool.or_true])
  · next hcode =>
    have hdata : ¬ (walk.inCode || (walk.trace.headD .none).has .instruction) = true := by simpa [hmark] using hcode
    rw [listing_cons symbols config walk h, step, bareRow, if_neg hdata]
    split
    · exact ⟨.inl rfl, by simp⟩
    · exact ⟨.inl rfl, by simp⟩

theorem rows_listing (walk : Walk) (made : List Row) (settled : walk.Settled) :
    (walk.rows symbols config made).map (Row.withLabel symbols) =
      made.reverse.map (Row.withLabel symbols) ++ walk.listing symbols config := by
  fun_induction rows symbols config walk made with
  | case1 walk made h => rw [listing_nil symbols config walk h, List.append_nil]
  | case2 walk made h next ih =>
    obtain ⟨hnext, hrows⟩ := block_listing symbols config walk made h settled
    rw [ih hnext, hrows]

end Walk

/-- **A listing is made row by row.** -/
theorem View.rows_eq_listing (view : View) (symbols : Symbols) (config : Config) :
    view.rows symbols config = (Walk.ofView view).listing symbols config :=
  Walk.rows_listing symbols config (Walk.ofView view) [] (.inl rfl)

end TraceDisasm
