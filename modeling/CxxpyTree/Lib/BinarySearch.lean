import Mathlib.Data.List.Chain
import Mathlib.Tactic.Common

/-! Binary search as `std::lower_bound`, `std::upper_bound` and `std::equal_range` do it: on a
range that a predicate cuts into a part where it holds and a part where it does not. -/

namespace BinarySearch

variable {α : Type}

/-- The loop on the range of `count` items from `first`, halved in each turn. -/
def partitionLoop (below : α → Bool) (items : List α) : (fuel first count : Nat) → Nat
  | 0, first, _ => first
  | fuel + 1, first, count =>
    if count = 0 then first
    else
      match items[first + count / 2]? with
      | none => first
      | some item =>
        if below item then partitionLoop below items fuel (first + count / 2 + 1) (count - count / 2 - 1)
        else partitionLoop below items fuel first (count / 2)

/-- The first position where `below` no longer holds. -/
def partitionPoint (below : α → Bool) (items : List α) : Nat :=
  partitionLoop below items items.length 0 items.length

def equalRange {β : Type} (less : α → β → Bool) (greater : β → α → Bool) (items : List α) (key : β) : Nat × Nat :=
  (partitionPoint (fun item => less item key) items, partitionPoint (fun item => !greater key item) items)

/-- What the loop has seen at both ends of its range, on any list. -/
structure Cut (below : α → Bool) (items : List α) (n : Nat) : Prop where
  inside : n ≤ items.length
  before : ∀ m item, n = m + 1 → items[m]? = some item → below item = true
  behind : ∀ item, items[n]? = some item → below item = false

theorem partitionLoop_cut (below : α → Bool) (items : List α) : ∀ (fuel first count : Nat),
    count ≤ fuel → first + count ≤ items.length →
    (∀ m item, first = m + 1 → items[m]? = some item → below item = true) →
    (∀ item, items[first + count]? = some item → below item = false) →
    Cut below items (partitionLoop below items fuel first count) := by
  intro fuel
  induction fuel with
  | zero =>
    intro first count small fits before behind
    obtain rfl : count = 0 := by omega
    exact ⟨fits, before, behind⟩
  | succ fuel ih =>
    intro first count small fits before behind
    unfold partitionLoop
    split
    next empty =>
      subst empty
      exact ⟨fits, before, behind⟩
    next nonempty =>
      have middle : first + count / 2 < items.length := by omega
      rw [List.getElem?_eq_getElem middle]
      dsimp only
      split
      next holds =>
        refine ih _ _ (by omega) (by omega) ?_ ?_
        · intro m item same found
          obtain rfl : m = first + count / 2 := by omega
          rw [List.getElem?_eq_getElem middle] at found
          cases found
          exact holds
        · intro item found
          rw [show first + count / 2 + 1 + (count - count / 2 - 1) = first + count by omega] at found
          exact behind item found
      next fails =>
        refine ih _ _ (by omega) (by omega) before ?_
        intro item found
        rw [List.getElem?_eq_getElem middle] at found
        cases found
        simpa using fails

theorem partitionPoint_cut (below : α → Bool) (items : List α) : Cut below items (partitionPoint below items) := by
  refine partitionLoop_cut below items _ _ _ (Nat.le_refl _) (by omega) ?_ ?_
  · intro m item same
    omega
  · intro item found
    rw [List.getElem?_eq_none (by omega)] at found
    cases found

/-- Every item where `below` holds stands before every item where it does not. -/
def Partitioned (below : α → Bool) (items : List α) : Prop :=
  ∀ (m n : Nat) (a b : α), m ≤ n → items[m]? = some a → items[n]? = some b → below b = true → below a = true

theorem Cut.below_iff {below : α → Bool} {items : List α} {n : Nat} (cut : Cut below items n)
    (partitioned : Partitioned below items) {m : Nat} {item : α} (found : items[m]? = some item) :
    below item = true ↔ m < n := by
  have inside : m < items.length := (List.getElem?_eq_some_iff.mp found).1
  constructor
  · intro holds
    by_contra later
    have short : n < items.length := by omega
    have fails := cut.behind items[n] (List.getElem?_eq_getElem short)
    have kept := partitioned n m _ _ (by omega) (List.getElem?_eq_getElem short) found holds
    rw [fails] at kept
    cases kept
  · intro earlier
    have last : n - 1 < items.length := by have := cut.inside; omega
    exact partitioned m (n - 1) _ _ (by omega) found (List.getElem?_eq_getElem last)
      (cut.before (n - 1) items[n - 1] (by omega) (List.getElem?_eq_getElem last))

section Keys
variable {β : Type} (key : α → β) (less : β → β → Bool)

/-- A comparison that tells any two keys apart. -/
structure StrictTotal : Prop where
  irrefl : ∀ a, less a a = false
  trans : ∀ a b c, less a b = true → less b c = true → less a c = true
  connected : ∀ a b, less a b = false → less b a = false → a = b

/-- `std::equal_range` where items are compared by their keys. -/
def keyRange (items : List α) (k : β) : Nat × Nat :=
  equalRange (fun a k => less (key a) k) (fun k a => less k (key a)) items k

def Ascending (items : List α) : Prop := items.Pairwise fun a b => less (key a) (key b) = true

variable {key less} {items : List α} {k : β} {a b : α} {m n : Nat}

/-- On any list: the only item of a range bears the key, both searches having stopped at it. -/
theorem StrictTotal.key_of_range (total : StrictTotal less) (single : (keyRange key less items k).2 =
    (keyRange key less items k).1 + 1) (found : items[(keyRange key less items k).1]? = some a) : key a = k := by
  have low := partitionPoint_cut (fun a => less (key a) k) items
  have high := partitionPoint_cut (fun a => !less k (key a)) items
  have notGreater := high.before _ a single found
  exact total.connected _ _ (low.behind a found) (by simpa using notGreater)

theorem Ascending.lt (ascending : Ascending key less items) (before : m < n)
    (first : items[m]? = some a) (second : items[n]? = some b) : less (key a) (key b) = true := by
  obtain ⟨insideA, rfl⟩ := List.getElem?_eq_some_iff.mp first
  obtain ⟨insideB, rfl⟩ := List.getElem?_eq_some_iff.mp second
  exact List.pairwise_iff_getElem.mp ascending m n insideA insideB before

/-- Neighbours in order are enough. -/
theorem StrictTotal.ascending (total : StrictTotal less) (chain : items.IsChain fun a b => less (key a) (key b) = true) :
    Ascending key less items :=
  have : Trans (fun a b : α => less (key a) (key b) = true) (fun a b => less (key a) (key b) = true)
      (fun a b => less (key a) (key b) = true) := ⟨total.trans _ _ _⟩
  chain.pairwise

theorem StrictTotal.asymm (total : StrictTotal less) {c d : β} (below : less c d = true) : less d c = false := by
  cases above : less d c with
  | false => rfl
  | true =>
    have circle := total.trans _ _ _ below above
    rw [total.irrefl] at circle
    cases circle

section Sorted
variable (total : StrictTotal less) (ascending : Ascending key less items)
include total ascending

theorem lower_iff (found : items[m]? = some a) : less (key a) k = true ↔ m < (keyRange key less items k).1 := by
  refine (partitionPoint_cut (fun a => less (key a) k) items).below_iff ?_ found
  intro m n a b order first second below
  rcases Nat.lt_or_eq_of_le order with before | rfl
  · exact total.trans _ _ _ (ascending.lt before first second) below
  · rw [first] at second
    cases second
    exact below

theorem upper_iff (found : items[m]? = some a) : less k (key a) = false ↔ m < (keyRange key less items k).2 := by
  have partitioned : Partitioned (fun a => !less k (key a)) items := by
    intro m n a b order first second below
    simp only [Bool.not_eq_true'] at below ⊢
    rcases Nat.lt_or_eq_of_le order with before | rfl
    · cases above : less k (key a) with
      | false => rfl
      | true =>
        rw [total.trans _ _ _ above (ascending.lt before first second)] at below
        cases below
    · rw [first] at second
      cases second
      exact below
  have iff := (partitionPoint_cut (fun a => !less k (key a)) items).below_iff partitioned found
  rwa [Bool.not_eq_true'] at iff

theorem range_of_mem (found : items[n]? = some a) : keyRange key less items (key a) = (n, n + 1) := by
  have inside : n < items.length := (List.getElem?_eq_some_iff.mp found).1
  have lower := (partitionPoint_cut (fun b => less (key b) (key a)) items).inside
  have upper := (partitionPoint_cut (fun b => !less (key a) (key b)) items).inside
  refine Prod.ext ?_ ?_
  · -- the items before `n` are below the key and that at `n` is not
    have here := lower_iff total ascending (k := key a) found
    rw [total.irrefl] at here
    by_contra other
    have earlier : (keyRange key less items (key a)).1 < n := by simp at here; omega
    have at_ : items[(keyRange key less items (key a)).1]? = some _ := List.getElem?_eq_getElem (by omega)
    exact Nat.lt_irrefl _ ((lower_iff total ascending at_).mp (ascending.lt earlier at_ found))
  · have here := (upper_iff total ascending (k := key a) found).mp (total.irrefl _)
    by_contra other
    have next : n + 1 < items.length := by
      have bound : (keyRange key less items (key a)).2 ≤ items.length := upper
      omega
    have at_ : items[n + 1]? = some items[n + 1] := List.getElem?_eq_getElem next
    have above := (upper_iff total ascending (k := key a) at_).mpr (by omega)
    rw [ascending.lt (Nat.lt_succ_self n) found at_] at above
    cases above

theorem range_of_absent (absent : ∀ a ∈ items, key a ≠ k) :
    (keyRange key less items k).2 = (keyRange key less items k).1 := by
  have same : ∀ (m : Nat) (a : α), items[m]? = some a → (less (key a) k = true ↔ less k (key a) = false) := by
    intro m a found
    refine ⟨total.asymm, fun notAbove => ?_⟩
    cases below : less (key a) k with
    | true => rfl
    | false => exact absurd (total.connected _ _ below notAbove) (absent a (List.mem_of_getElem? found))
  have lower : (keyRange key less items k).1 ≤ items.length := (partitionPoint_cut _ items).inside
  have upper : (keyRange key less items k).2 ≤ items.length := (partitionPoint_cut _ items).inside
  rcases Nat.lt_trichotomy (keyRange key less items k).2 (keyRange key less items k).1 with fewer | same' | more
  · have at_ := List.getElem?_eq_getElem (show (keyRange key less items k).2 < items.length by omega)
    have below := (same _ _ at_).mp ((lower_iff total ascending at_).mpr fewer)
    exact absurd ((upper_iff total ascending at_).mp below) (Nat.lt_irrefl _)
  · exact same'
  · have at_ := List.getElem?_eq_getElem (show (keyRange key less items k).1 < items.length by omega)
    have below := (same _ _ at_).mpr ((upper_iff total ascending at_).mpr more)
    exact absurd ((lower_iff total ascending at_).mp below) (Nat.lt_irrefl _)

end Sorted

end Keys

end BinarySearch
