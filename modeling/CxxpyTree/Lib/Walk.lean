import Mathlib.Data.List.Perm.Subperm
import Mathlib.Data.List.Nodup
import Mathlib.Data.Nat.Find
import Mathlib.Tactic.Common

/-! Walks along a partial function: from a point to its image, until there is none. Over
finitely many points a walk has shown within that many steps everything it will ever show. -/

namespace Walk

variable {ι : Type} (next : ι → Option ι)

/-- The point after `n` steps. -/
def after : Nat → ι → Option ι
  | 0, i => some i
  | n + 1, i => (next i).bind (after n)

/-- `j` lies on the walk from `i`, which includes `i`. -/
def Meets (i j : ι) : Prop := ∃ n, after next n i = some j

/-- The walk from `i` comes back to `i`. -/
def Returns (i : ι) : Prop := ∃ n, after next (n + 1) i = some i

def Endless (i : ι) : Prop := ∀ n, after next n i ≠ none

def Acyclic : Prop := ∀ i, ¬ Returns next i

section Steps
variable {next : ι → Option ι} {i j k : ι} {m n : Nat}

@[simp] theorem after_zero : after next 0 i = some i := rfl

theorem after_succ : after next (n + 1) i = (next i).bind (after next n) := rfl

theorem after_add : after next (m + n) i = (after next m i).bind (after next n) := by
  induction m generalizing i with
  | zero => simp
  | succ m ih =>
    rw [Nat.succ_add, after_succ, after_succ]
    cases next i with
    | none => rfl
    | some j => exact ih

/-- A map that takes steps to steps takes walks to walks. -/
theorem after_map {κ : Type} {next' : κ → Option κ} {f : ι → κ} (steps : ∀ i, next' (f i) = (next i).map f) :
    after next' n (f i) = (after next n i).map f := by
  induction n generalizing i with
  | zero => rfl
  | succ n ih =>
    rw [after_succ, after_succ, steps]
    cases next i with
    | none => rfl
    | some j => exact ih

theorem meets_map_iff {κ : Type} {next' : κ → Option κ} {f : ι → κ} (steps : ∀ i, next' (f i) = (next i).map f)
    (distinct : ∀ i j, f i = f j → i = j) : Meets next' (f i) (f j) ↔ Meets next i j := by
  refine exists_congr fun n => ?_
  rw [after_map steps, Option.map_eq_some_iff]
  refine ⟨?_, fun reached => ⟨j, reached, rfl⟩⟩
  rintro ⟨k, reached, same⟩
  exact distinct k j same ▸ reached

theorem Meets.refl : Meets next i i := ⟨0, rfl⟩

theorem Meets.trans (first : Meets next i j) (second : Meets next j k) : Meets next i k := by
  obtain ⟨m, reached⟩ := first
  obtain ⟨n, met⟩ := second
  exact ⟨m + n, by rw [after_add, reached]; exact met⟩

theorem Meets.cases_head (met : Meets next i k) : i = k ∨ ∃ j, next i = some j ∧ Meets next j k := by
  obtain ⟨n, reached⟩ := met
  cases n with
  | zero => exact .inl (Option.some.inj reached)
  | succ n =>
    obtain ⟨j, step, rest⟩ := Option.bind_eq_some_iff.mp reached
    exact .inr ⟨j, step, n, rest⟩

/-- A walk that has met its start again goes round for ever and meets nothing new. -/
theorem after_loop (same : after next m i = after next n i) (l : Nat) :
    after next (m + l) i = after next (n + l) i := by
  rw [after_add, after_add, same]

/-- Once round the cycle a walk has met all that it will ever meet. -/
theorem Meets.within_round (back : after next (n + 1) i = some i) (met : Meets next i j) : ∃ m ≤ n, after next m i = some j := by
  classical
  have found := Nat.find_spec met
  refine ⟨Nat.find met, ?_, found⟩
  by_contra later
  rw [show Nat.find met = n + 1 + (Nat.find met - (n + 1)) by omega, after_add, back] at found
  exact Nat.find_min met (by omega) found

theorem Returns.endless (returns : Returns next i) : Endless next i := by
  obtain ⟨n, back⟩ := returns
  intro m
  induction m using Nat.strong_induction_on with
  | _ m ih =>
    intro ended
    rcases Nat.lt_or_ge n m with later | early
    · rw [show m = n + 1 + (m - (n + 1)) by omega, after_add, back] at ended
      exact ih (m - (n + 1)) (by omega) ended
    · rw [show n + 1 = m + (n + 1 - m) by omega, after_add, ended] at back
      cases back

theorem Acyclic.antisymm (acyclic : Acyclic next) (there : Meets next i j) (back : Meets next j i) : i = j := by
  obtain ⟨m, reached⟩ := there
  obtain ⟨n, returned⟩ := back
  cases m with
  | zero => exact Option.some.inj reached
  | succ m =>
    have round : after next (m + 1 + n) i = some i := by rw [after_add, reached]; exact returned
    rw [show m + 1 + n = m + n + 1 by omega] at round
    exact absurd ⟨m + n, round⟩ (acyclic i)

/-- A rank that falls with every step rules cycles out. -/
theorem acyclic_of_rank (rank : ι → Nat) (falls : ∀ i j, next i = some j → rank j < rank i) : Acyclic next := by
  have below : ∀ n i j, after next n i = some j → rank j ≤ rank i := by
    intro n
    induction n with
    | zero =>
      rintro i j ⟨⟩
      exact Nat.le_refl _
    | succ n ih =>
      intro i j reached
      obtain ⟨k, step, rest⟩ := Option.bind_eq_some_iff.mp reached
      exact Nat.le_trans (ih k j rest) (Nat.le_of_lt (falls i k step))
  rintro i ⟨n, back⟩
  obtain ⟨j, step, rest⟩ := Option.bind_eq_some_iff.mp back
  exact Nat.lt_irrefl _ (Nat.lt_of_lt_of_le (falls i j step) (below n j i rest))

end Steps

section Finite
variable {next : ι → Option ι} {points : List ι} {i j : ι} {n : Nat} {target : Option ι}

theorem distinct_le (all : ∀ i, i ∈ points) (f : Nat → ι)
    (distinct : ∀ a b, a < b → b < n → f a ≠ f b) : n ≤ points.length := by
  have nodup : ((List.range n).map f).Nodup := by
    rw [List.Nodup, List.pairwise_map]
    refine List.Pairwise.imp_of_mem ?_ List.pairwise_lt_range
    intro a b _ inside before
    exact distinct a b before (List.mem_range.mp inside)
  simpa using (List.subperm_of_subset nodup (fun i _ => all i)).length_le

theorem points_le (all : ∀ i, i ∈ points) (going : ∀ m < n, after next m i ≠ none)
    (distinct : ∀ a b, a < b → b < n → after next a i ≠ after next b i) : n ≤ points.length := by
  refine distinct_le all (fun m => (after next m i).getD i) ?_
  intro a b before inside same
  obtain ⟨j, atA⟩ := Option.ne_none_iff_exists'.mp (going a (by omega))
  obtain ⟨k, atB⟩ := Option.ne_none_iff_exists'.mp (going b inside)
  simp only [atA, atB, Option.getD_some] at same
  subst same
  exact distinct a b before inside (atA.trans atB.symm)

/-- What is met behind a point that came twice is met earlier. -/
theorem shortcut {a b : Nat} (before : a < b) (inside : b ≤ n) (same : after next a i = after next b i) :
    ∃ m < n, after next m i = after next n i := by
  have onward := after_loop same (n - b)
  rw [show b + (n - b) = n by omega] at onward
  exact ⟨a + (n - b), by omega, onward⟩

theorem ends_early (all : ∀ i, i ∈ points) (ends : ∃ n, after next n i = none) :
    ∃ n, n ≤ points.length ∧ after next n i = none := by
  classical
  have first := fun m (before : m < Nat.find ends) => Nat.find_min ends before
  refine ⟨Nat.find ends, points_le all first ?_, Nat.find_spec ends⟩
  intro a b before inside same
  obtain ⟨m, early, ended⟩ := shortcut before (Nat.le_of_lt inside) same
  exact first m early (ended.trans (Nat.find_spec ends))

theorem going_before (reached : after next n i = some j) {m : Nat} (before : m ≤ n) : after next m i ≠ none := by
  intro ended
  rw [show n = m + (n - m) by omega, after_add, ended] at reached
  cases reached

theorem meets_early (all : ∀ i, i ∈ points) (met : Meets next i j) :
    ∃ n, n < points.length ∧ after next n i = some j := by
  classical
  have found := Nat.find_spec met
  refine ⟨Nat.find met, ?_, found⟩
  -- the point itself is one more than the distinct points before it
  apply points_le all fun m inside => going_before found (Nat.le_of_lt_succ inside)
  intro a b before inside same
  obtain ⟨m, early, reached⟩ := shortcut before (Nat.le_of_lt_succ inside) same
  exact Nat.find_min met early (reached.trans found)

theorem returns_early (all : ∀ i, i ∈ points) (returns : Returns next i) :
    ∃ n, n < points.length ∧ after next (n + 1) i = some i := by
  obtain ⟨n, back⟩ := returns
  obtain ⟨j, step, rest⟩ := Option.bind_eq_some_iff.mp back
  obtain ⟨m, early, reached⟩ := meets_early all ⟨n, rest⟩
  exact ⟨m, early, by rw [after_succ, step]; exact reached⟩

/-- Over finitely many points only a cycle lets a walk go on for ever. -/
theorem Acyclic.ends (acyclic : Acyclic next) (all : ∀ i, i ∈ points) (i : ι) : ¬ Endless next i := by
  intro endless
  have bound : points.length + 1 ≤ points.length := by
    apply points_le all fun m _ => endless m
    intro a b before _ same
    obtain ⟨k, atA⟩ := Option.ne_none_iff_exists'.mp (endless a)
    refine acyclic k ⟨b - a - 1, ?_⟩
    have onward : after next (a + (b - a)) i = some k := by
      rw [show a + (b - a) = b by omega, ← same, atA]
    rw [after_add, atA] at onward
    rw [show b - a - 1 + 1 = b - a by omega]
    exact onward
  omega

end Finite

end Walk
