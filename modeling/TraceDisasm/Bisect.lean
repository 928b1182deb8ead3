/-!
# Search by halving

Where does a test start to fail, if it holds in front and fails from some place on? The middle of the places that are left
tells in which half to go on looking. Only a few places are looked at, so nothing is found out about a test that changes to
and fro.
-/

namespace TraceDisasm

/-- The place from `low` up to `high` where a test starts to fail. -/
def bisect (test : Nat → Bool) (low high : Nat) : Nat :=
  if low < high then
    let middle := low + (high - low) / 2
    if test middle then bisect test (middle + 1) high else bisect test low middle
  else low
termination_by high - low

/-- The position in a list where a test starts to fail. -/
def partitionPoint {α : Type} (test : α → Bool) (list : List α) : Nat :=
  bisect (fun i => list[i]?.any test) 0 list.length

/-- The place is found if the test holds everywhere before it, and nowhere from it on. -/
theorem bisect_eq {test : Nat → Bool} {low high place : Nat} (hlow : low ≤ place) (hhigh : place ≤ high)
    (before : ∀ i < place, test i = true) (after : ∀ i, place ≤ i → i < high → test i = false) :
    bisect test low high = place := by
  fun_induction bisect test low high with
  | case1 low high hlt middle hholds ih =>
    have hmiddle : middle < place := Nat.lt_of_not_le fun hle => by
      rw [after middle hle (by omega)] at hholds
      cases hholds
    exact ih hmiddle hhigh after
  | case2 low high hlt middle hfails ih =>
    have hmiddle : place ≤ middle := Nat.le_of_not_lt fun hlt => hfails (before middle hlt)
    exact ih hlow hmiddle fun i hle hi => after i hle (by omega)
  | case3 low high hge => omega

theorem partitionPoint_append {α : Type} {test : α → Bool} {front back : List α} (hfront : ∀ a ∈ front, test a = true)
    (hback : ∀ a ∈ back, test a = false) : partitionPoint test (front ++ back) = front.length := by
  refine bisect_eq (Nat.zero_le _) (by simp) ?_ ?_
  · intro i hi
    rw [List.getElem?_append_left hi, List.getElem?_eq_getElem hi]
    exact hfront _ (List.getElem_mem hi)
  · intro i hle hi
    have hlt : i - front.length < back.length := by
      rw [List.length_append] at hi
      omega
    rw [List.getElem?_append_right hle, List.getElem?_eq_getElem hlt]
    exact hback _ (List.getElem_mem hlt)

end TraceDisasm
