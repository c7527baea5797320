import CxxpyTree.Lib.Walk
import Mathlib.Logic.Relation
import Mathlib.Order.WellFounded

/-! Unfolding a point into the points it refers to, those into theirs, and so on. The unfolding is
finite unless a cycle can be reached, and over finitely many points it is then no deeper than there
are points. -/

namespace Unfold

variable {ι : Type} (refs : ι → List ι)

/-- `i` unfolds within `n` levels, its own included. -/
def Within : Nat → ι → Prop
  | 0, _ => False
  | n + 1, i => ∀ j ∈ refs i, Within n j

def Refers (i j : ι) : Prop := j ∈ refs i

/-- A cycle can be reached from `i`. -/
def Cyclic (i : ι) : Prop := ∃ j, Relation.ReflTransGen (Refers refs) i j ∧ Relation.TransGen (Refers refs) j j

section Facts
variable {refs} {i j : ι} {m n : Nat}

/-- What unfolds stays clear of the cycles. -/
theorem Within.not_cyclic (within : Within refs n i) : ¬ Cyclic refs i := by
  induction n generalizing i with
  | zero => exact within.elim
  | succ n ih =>
    rintro ⟨j, reached, cycle⟩
    rcases Relation.ReflTransGen.cases_head reached with rfl | ⟨k, step, rest⟩
    · -- the cycle leads through one of the references
      obtain ⟨k, step, back⟩ := Relation.TransGen.head'_iff.mp cycle
      exact ih (within k step) ⟨i, back, cycle⟩
    · exact ih (within k step) ⟨j, rest, cycle⟩

/-- A path of `n` steps from a point that does not unfold within `n` levels. -/
theorem exists_path (deep : ¬ Within refs n i) : ∃ path : Nat → ι, path 0 = i ∧
    ∀ k < n, Refers refs (path k) (path (k + 1)) := by
  induction n generalizing i with
  | zero => exact ⟨fun _ => i, rfl, fun k inside => absurd inside (Nat.not_lt_zero k)⟩
  | succ n ih =>
    obtain ⟨j, member, deeper⟩ : ∃ j ∈ refs i, ¬ Within refs n j := by
      by_contra none
      exact deep fun j member => by_contra fun deeper => none ⟨j, member, deeper⟩
    obtain ⟨path, start, steps⟩ := ih deeper
    refine ⟨fun k => Nat.casesOn k i path, rfl, ?_⟩
    rintro (_ | k) inside
    · change Refers refs i (path 0)
      rw [start]
      exact member
    · exact steps k (Nat.lt_of_succ_lt_succ inside)

theorem reaches_along {path : Nat → ι} (steps : ∀ k < n, Refers refs (path k) (path (k + 1))) {a b : Nat}
    (before : a ≤ b) (inside : b ≤ n) : Relation.ReflTransGen (Refers refs) (path a) (path b) := by
  induction before with
  | refl => exact .refl
  | @step b _ ih => exact (ih (Nat.le_of_succ_le inside)).tail (steps b inside)

/-- A path that is longer than there are points meets one of them twice. -/
theorem cyclic_of_deep {points : List ι} (all : ∀ i, i ∈ points) (deep : ¬ Within refs points.length i) :
    Cyclic refs i := by
  obtain ⟨path, rfl, steps⟩ := exists_path deep
  by_contra clear
  have bound : points.length + 1 ≤ points.length := by
    apply Walk.distinct_le all path
    intro a b before inside same
    have inside' : b ≤ points.length := Nat.le_of_lt_succ inside
    apply clear
    refine ⟨path a, reaches_along steps (Nat.zero_le a) (by omega), ?_⟩
    have onward := reaches_along steps before inside'
    rw [← same] at onward
    exact .head' (steps a (by omega)) onward
  omega

theorem within_iff {points : List ι} (all : ∀ i, i ∈ points) : Within refs points.length i ↔ ¬ Cyclic refs i :=
  ⟨Within.not_cyclic, fun clear => by_contra fun deep => clear (cyclic_of_deep all deep)⟩

/-- A rank that falls with every reference rules cycles out. -/
theorem not_cyclic_of_rank (rank : ι → Nat) (falls : ∀ i, ∀ j ∈ refs i, rank j < rank i) (i : ι) : ¬ Cyclic refs i := by
  have below : ∀ n i, rank i < n → Within refs n i := by
    intro n
    induction n with
    | zero => exact fun i small => absurd small (Nat.not_lt_zero _)
    | succ n ih => exact fun i small j member => ih j (by have := falls i j member; omega)
  exact (below (rank i + 1) i (Nat.lt_succ_self _)).not_cyclic

end Facts

end Unfold
