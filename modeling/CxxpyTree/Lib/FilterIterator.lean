import Mathlib.Data.List.Basic

/-! Iterators that pass over the elements which fail a test, and the loops they drive. -/

/-- `op_node_iterator`: a place and the end of the range. -/
structure OpIterator where
  ptr : Nat
  last : Nat
  deriving DecidableEq, Repr

namespace OpIterator

variable {α : Type} (xs : List α) (op : α → Bool)

/-- `std::find_if` over the places from `first` to `last`: the first one that passes, or `last`. -/
def findIf (first last : Nat) : Nat :=
  first + ((xs.take last).drop first).findIdx op

/-- The constructor from a range goes on to the first place that passes. -/
def start (first last : Nat) : OpIterator := { ptr := findIf xs op first last, last }

def stop (last : Nat) : OpIterator := { ptr := last, last }

def advance (it : OpIterator) : OpIterator := { it with ptr := findIf xs op (it.ptr + 1) it.last }

/-- What the loop `for (; it != stop; ++ it)` finds behind `it`, round by round. -/
inductive Visits (stop : OpIterator) : OpIterator → List α → Prop where
  | done {it} (same : it.ptr = stop.ptr) : Visits stop it []
  | round {it x ys} (other : it.ptr ≠ stop.ptr) (here : xs[it.ptr]? = some x)
      (rest : Visits stop (it.advance xs op) ys) : Visits stop it (x :: ys)

section Facts
variable {xs op}

/-- The search stops at the first element that the filter keeps, or at the end if it keeps none. -/
theorem findIf_cases {first : Nat} (inside : first ≤ xs.length) :
    (findIf xs op first xs.length = xs.length ∧ (xs.drop first).filter op = []) ∨
    ∃ x, xs[findIf xs op first xs.length]? = some x ∧ first ≤ findIf xs op first xs.length ∧
      (xs.drop first).filter op = x :: (xs.drop (findIf xs op first xs.length + 1)).filter op := by
  simp only [findIf, List.take_length]
  generalize rest : xs.drop first = ys
  have length : ys.length = xs.length - first := by rw [← rest, List.length_drop]
  rcases Nat.lt_or_ge (ys.findIdx op) ys.length with found | missed
  · refine .inr ⟨ys[ys.findIdx op], ?_, Nat.le_add_right _ _, ?_⟩
    · rw [← List.getElem?_drop, rest]
      exact List.getElem?_eq_getElem found
    · have passed : ∀ y ∈ ys.take (ys.findIdx op), ¬ op y = true := by
        intro y member
        obtain ⟨i, bound, rfl⟩ := List.mem_iff_getElem.mp member
        rw [List.getElem_take]
        exact Bool.not_eq_true _ ▸ List.not_of_lt_findIdx (by rw [List.length_take] at bound; omega)
      have split : ys = ys.take (ys.findIdx op) ++ ys[ys.findIdx op] :: ys.drop (ys.findIdx op + 1) := by
        rw [← List.drop_eq_getElem_cons found, List.take_append_drop]
      have onward : ys.drop (ys.findIdx op + 1) = xs.drop (first + ys.findIdx op + 1) := by
        rw [← rest, List.drop_drop, Nat.add_assoc]
      rw [← onward]
      conv_lhs => rw [split]
      rw [List.filter_append, List.filter_eq_nil_iff.mpr passed, List.nil_append,
        List.filter_cons_of_pos List.findIdx_getElem]
  · have none := List.findIdx_eq_length.mp (Nat.le_antisymm List.findIdx_le_length missed)
    have ends : ys.findIdx op = ys.length := Nat.le_antisymm List.findIdx_le_length missed
    refine .inl ⟨by omega, ?_⟩
    rw [List.filter_eq_nil_iff]
    exact fun y member passes => by simp [none y member] at passes

/-- Wherever the loop starts, it passes through what the filter keeps from there on. -/
theorem visits_start (first : Nat) (inside : first ≤ xs.length) :
    Visits xs op (stop xs.length) (start xs op first xs.length) ((xs.drop first).filter op) := by
  rcases @findIf_cases _ xs op first inside with ⟨ended, none⟩ | ⟨x, here, forward, split⟩
  · rw [none]
    exact .done ended
  · have bound : findIf xs op first xs.length < xs.length := by
      obtain ⟨bound, -⟩ := List.getElem?_eq_some_iff.mp here
      exact bound
    rw [split]
    apply Visits.round (Nat.ne_of_lt bound) here
    exact visits_start (findIf xs op first xs.length + 1) bound
  termination_by xs.length - first

end Facts

end OpIterator
