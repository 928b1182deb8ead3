import TraceDisasm.Proofs.KeptListings

/-!
# Listing and announcing are independent

A bank has two marks. It is dirty until it is listed, and pending until it is announced; the two are set together, but each
has a reader of its own. To list a bank does not take the other mark away, nor does an update list anything. So a rendering
and an update may change places, and so may two renderings: the state behind them is the same, and each has the answer that
it would have had alone (`Tracer.Swappable`).

All of this follows from one fact. Where banks are changed in a way that says nothing about the listing of some bank, this
one is listed as it would have been, and the change is found behind the listing as well (`Tracer.perform_render_mapBanks`).
An update is such a change for every bank, and a rendering is one for all banks but its own.
-/

namespace TraceDisasm

/-! ## Changes to all banks -/

/-- A change says nothing about the listing of a bank, whether it is made before the listing or behind it. -/
structure Bank.Spares (change : Bank → Bank) (bank : Bank) : Prop where
  extent : (change bank).extent = bank.extent
  current : (change bank).current? = bank.current?
  listed : ∀ rows, change (bank.listed rows) = (change bank).listed rows

namespace Registry

/-- The banks, each of them changed. -/
def mapBanks (registry : Registry) (change : Bank → Bank) : Registry := ⟨registry.banks.map change⟩

theorem get?_mapBanks {registry : Registry} {id : BankId} {change : Bank → Bank}
    (hid : ∀ bank, (change bank).id = bank.id) :
    (registry.mapBanks change).get? id = (registry.get? id).map change := by
  simp only [mapBanks, get?, List.find?_map, Function.comp_def, hid]

end Registry

namespace Tracer

/-- The state with its banks changed. -/
def mapBanks (s : Tracer) (change : Bank → Bank) : Tracer := { s with registry := s.registry.mapBanks change }

/-- Two commands may change places. The state behind them is the same, and so is the answer to each of them. -/
def Swappable (s : Tracer) (first second : Command) : Prop :=
  ∃ t answer answer', s.run [first, second] = (t, [answer, answer']) ∧ s.run [second, first] = (t, [answer', answer])

/-- The change that a new listing makes to the banks. -/
def keep (id : BankId) (rows : List Row) (bank : Bank) : Bank := if bank.id = id then bank.listed rows else bank

variable {s : Tracer} {id other : BankId} {change change' : Bank → Bank} {bank : Bank}

theorem mapBanks_mapBanks : (s.mapBanks change).mapBanks change' = s.mapBanks (change' ∘ change) := by
  simp only [mapBanks, Registry.mapBanks, List.map_map]

theorem mapBanks_congr (h : ∀ bank, change bank = change' bank) : s.mapBanks change = s.mapBanks change' := by
  rw [funext h]

theorem extent_keep (rows : List Row) (bank : Bank) : (keep id rows bank).extent = bank.extent := by
  unfold keep
  split <;> rfl

/-! ## One rendering -/

theorem perform_render_of_none (h : s.registry.get? id = none) :
    s.perform (.render id) = (s, .quiet (.failed (.unknownBank id.text))) := by
  simp only [perform, render, h, settled]

theorem perform_render_of_current {rows : List Row} (h : s.registry.get? id = some bank)
    (hcurrent : bank.current? = some rows) : s.perform (.render id) = (s, .quiet (.listing rows)) := by
  simp only [perform, render, h, hcurrent, settled]

theorem perform_render_of_stale (h : s.registry.get? id = some bank) (hcurrent : bank.current? = none) :
    s.perform (.render id) = (s.mapBanks (keep id (s.list bank)), .quiet (.listing (s.list bank))) := by
  simp only [perform, render, h, hcurrent, settled]
  rfl

/-- A change to the bank with an identifier, and only to its listing. -/
structure ListsOnly (id : BankId) (change : Bank → Bank) : Prop where
  extent : ∀ bank, (change bank).extent = bank.extent
  pending : ∀ bank, (change bank).pending = bank.pending
  other : ∀ bank : Bank, bank.id ≠ id → change bank = bank

theorem listsOnly_keep (rows : List Row) : ListsOnly id (keep id rows) := by
  refine ⟨extent_keep rows, fun bank => ?_, fun bank hother => ?_⟩
  · unfold keep
    split <;> rfl
  · unfold keep
    rw [if_neg hother]

/-- A rendering changes the listing of its bank, or nothing. -/
theorem exists_perform_render (s : Tracer) (id : BankId) :
    ∃ change, (s.perform (.render id)).1 = s.mapBanks change ∧ ListsOnly id change := by
  have idle : s = s.mapBanks fun bank => bank := by simp [mapBanks, Registry.mapBanks]
  have nothing : ListsOnly id fun bank => bank := ⟨fun _ => rfl, fun _ => rfl, fun _ _ => rfl⟩
  rcases hget : s.registry.get? id with _ | bank
  · rw [perform_render_of_none hget]
    exact ⟨_, idle, nothing⟩
  · rcases hcurrent : bank.current? with _ | rows
    · rw [perform_render_of_stale hget hcurrent]
      exact ⟨_, rfl, listsOnly_keep _⟩
    · rw [perform_render_of_current hget hcurrent]
      exact ⟨_, idle, nothing⟩

/-- **A listing does not notice changes that spare its bank**, and the changes are found behind it. -/
theorem perform_render_mapBanks (hid : ∀ bank, (change bank).id = bank.id)
    (hspares : ∀ bank : Bank, bank.id = id → bank.Spares change) :
    (s.mapBanks change).perform (.render id) =
      ((s.perform (.render id)).1.mapBanks change, (s.perform (.render id)).2) := by
  have hmapped : (s.mapBanks change).registry.get? id = (s.registry.get? id).map change := Registry.get?_mapBanks hid
  rcases hget : s.registry.get? id with _ | bank
  · rw [hget, Option.map_none] at hmapped
    rw [perform_render_of_none hget, perform_render_of_none hmapped]
  · have hbank : bank.id = id := by simpa using List.find?_some hget
    have spares := hspares bank hbank
    rw [hget, Option.map_some] at hmapped
    rcases hcurrent : bank.current? with _ | rows
    · have hrows : (s.mapBanks change).list (change bank) = s.list bank := list_congr spares.extent s
      rw [perform_render_of_stale hget hcurrent, perform_render_of_stale hmapped (spares.current.trans hcurrent), hrows]
      refine Prod.ext ?_ rfl
      rw [mapBanks_mapBanks, mapBanks_mapBanks]
      refine mapBanks_congr fun other => ?_
      unfold keep
      simp only [Function.comp, hid]
      split
      · next hother => exact ((hspares other hother).listed _).symm
      · rfl
    · rw [perform_render_of_current hget hcurrent, perform_render_of_current hmapped (spares.current.trans hcurrent)]

/-! ## Two commands -/

/-- Two commands may change places if neither is answered otherwise behind the other, and they lead to the same state. -/
theorem swappable_of {first second : Command} (hfirst : ((s.perform second).1.perform first).2 = (s.perform first).2)
    (hsecond : ((s.perform first).1.perform second).2 = (s.perform second).2)
    (hstate : ((s.perform first).1.perform second).1 = ((s.perform second).1.perform first).1) :
    s.Swappable first second := by
  have run_two (a b : Command) : s.run [a, b] =
      (((s.perform a).1.perform b).1, [(s.perform a).2, ((s.perform a).1.perform b).2]) := rfl
  refine ⟨_, _, _, run_two first second, ?_⟩
  rw [run_two, hfirst, hsecond, hstate]

/-- What is announced is settled by the marks of the banks and by what is shown of them. -/
theorem perform_update_mapBanks (hpending : ∀ bank, (change bank).pending = bank.pending)
    (hextent : ∀ bank, (change bank).extent = bank.extent) :
    ((s.mapBanks change).perform .update).2 = (s.perform .update).2 := by
  have hsummary (bank : Bank) : (change bank).summary = bank.summary := by
    obtain ⟨hid, hstop⟩ := Bank.extent_eq_iff.1 (hextent bank)
    simp only [Bank.summary, Bank.start, hid, hstop]
  have hpending : Bank.pending ∘ change = Bank.pending := funext hpending
  simp only [perform, update, mapBanks, Registry.mapBanks, Registry.pending, List.filter_map, List.flatMap_map,
    List.foldl_map, hpending, hsummary]

theorem swappable_update (s : Tracer) (id : BankId) : s.Swappable (.render id) .update := by
  obtain ⟨change, hchange, lists⟩ := s.exists_perform_render id
  have behind : (s.perform .update).1.perform (.render id) =
      ((s.perform (.render id)).1.mapBanks Bank.settle, (s.perform (.render id)).2) :=
    perform_render_mapBanks (fun _ => rfl) fun _ _ => ⟨rfl, rfl, fun _ => rfl⟩
  refine swappable_of ?_ ?_ ?_
  · rw [behind]
  · rw [hchange]
    exact perform_update_mapBanks lists.pending lists.extent
  · rw [behind]
    rfl

/-- A listing of another bank is not noticed. -/
theorem ListsOnly.perform_render (lists : ListsOnly other change) (h : id ≠ other) :
    (s.mapBanks change).perform (.render id) =
      ((s.perform (.render id)).1.mapBanks change, (s.perform (.render id)).2) := by
  refine perform_render_mapBanks (fun bank => (Bank.extent_eq_iff.1 (lists.extent bank)).1) fun bank hbank => ?_
  have untouched (rows : List Row) : change (bank.listed rows) = bank.listed rows := lists.other _ (hbank ▸ h)
  have hsame : change bank = bank := lists.other bank (hbank ▸ h)
  refine ⟨lists.extent bank, ?_, fun rows => ?_⟩
  · rw [hsame]
  · rw [hsame, untouched]

theorem ListsOnly.comm (lists : ListsOnly id change) (lists' : ListsOnly other change') (h : id ≠ other) (bank : Bank) :
    change (change' bank) = change' (change bank) := by
  have hid : (change bank).id = bank.id := (Bank.extent_eq_iff.1 (lists.extent bank)).1
  have hid' : (change' bank).id = bank.id := (Bank.extent_eq_iff.1 (lists'.extent bank)).1
  by_cases hbank : bank.id = id
  · have hne : bank.id ≠ other := hbank ▸ h
    rw [lists'.other bank hne, lists'.other (change bank) (hid.symm ▸ hne)]
  · rw [lists.other bank hbank, lists.other (change' bank) (hid'.symm ▸ hbank)]

/-- A bank that has just been listed is shown as it stands. -/
theorem perform_render_render (s : Tracer) (id : BankId) :
    (s.perform (.render id)).1.perform (.render id) = s.perform (.render id) := by
  rcases hget : s.registry.get? id with _ | bank
  · rw [perform_render_of_none hget]
    exact perform_render_of_none hget
  · rcases hcurrent : bank.current? with _ | rows
    · have hbank : bank.id = id := by simpa using List.find?_some hget
      have hlisted : (s.mapBanks (keep id (s.list bank))).registry.get? id = some (bank.listed (s.list bank)) := by
        show (s.registry.mapBanks _).get? id = _
        rw [Registry.get?_mapBanks fun other => (Bank.extent_eq_iff.1 (extent_keep _ other)).1, hget, Option.map_some,
          keep, if_pos hbank]
      rw [perform_render_of_stale hget hcurrent]
      exact perform_render_of_current hlisted rfl
    · rw [perform_render_of_current hget hcurrent]
      exact perform_render_of_current hget hcurrent

theorem swappable_render (s : Tracer) (id other : BankId) : s.Swappable (.render id) (.render other) := by
  by_cases h : id = other
  · subst h
    have again := s.perform_render_render id
    exact swappable_of (by rw [again]) (by rw [again]) rfl
  · obtain ⟨change, hchange, lists⟩ := s.exists_perform_render id
    obtain ⟨change', hchange', lists'⟩ := s.exists_perform_render other
    have hfirst := lists'.perform_render (s := s) h
    have hsecond := lists.perform_render (s := s) (Ne.symm h)
    rw [← hchange'] at hfirst
    rw [← hchange] at hsecond
    refine swappable_of (by rw [hfirst]) (by rw [hsecond]) ?_
    rw [hfirst, hsecond, hchange, hchange', mapBanks_mapBanks, mapBanks_mapBanks]
    exact mapBanks_congr (lists.comm lists' h)

/-- **Listing and announcing are independent.** In every state, a rendering and an update may change places, and so may two
renderings. Nothing is announced by a rendering, and to repeat it changes nothing and gives the same answer. -/
theorem render_independent (s : Tracer) (id other : BankId) :
    (s.perform (.render id)).2.deliveries = [] ∧ s.Swappable (.render id) .update ∧
      s.Swappable (.render id) (.render other) ∧
      (s.perform (.render id)).1.perform (.render id) = s.perform (.render id) := by
  refine ⟨?_, s.swappable_update id, s.swappable_render id other, s.perform_render_render id⟩
  show (s.settled (s.render id) .listing).2.deliveries = []
  unfold settled
  split <;> rfl

end Tracer

end TraceDisasm
