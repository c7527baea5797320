import CxxpyTree.Lib.BinarySearch
import CxxpyTree.Lib.Machine
import Mathlib.Algebra.Group.Nat.Defs

/-! `PoolAllocator` of grammar/ast-base.cpp: blocks cut one after the other from a pool, and the
pointers to them. A pointer is its address; sizes and addresses are 64 bits wide. -/

namespace CxxpyTree
open Machine

def wordSize : Nat := 2 ^ 64

def sizeMax : Nat := wordSize - 1

inductive AllocError where
  | badAlloc (what : String)
  | badRollback (obj : Nat)
  | assertFailed
  deriving DecidableEq, Repr

/-- `ptrs` holds the `nptrs` recorded pointers. `wrapped` is no member of the source: it is raised
when a computation of a size or an address leaves the range of its type. -/
structure PoolAllocator where
  nobjs : Nat
  poolSz : Nat
  pool : Nat
  ptr : Nat
  ptrs : List Nat := []
  wrapped : Bool := false
  deriving DecidableEq, Repr

structure Pools where
  nodes : PoolAllocator
  raw : PoolAllocator

/-- The memory behind `mem_t::realloc` on a new object: for no bytes there is none, and a block is
not null and does not reach the end of the address space. -/
structure Heap where
  realloc : Nat → Option Nat
  empty : realloc 0 = none
  inside : ∀ n p, realloc n = some p → 0 < p ∧ p + n < wordSize

abbrev AllocM := EStateM AllocError PoolAllocator

section Sizes
variable (a b : Nat)

def sizeAdd : AllocM Nat := fun s =>
  .ok ((a + b) % wordSize) (if wordSize ≤ a + b then { s with wrapped := true } else s)

def sizeSub : AllocM Nat := fun s =>
  .ok ((a + wordSize - b) % wordSize) (if a < b then { s with wrapped := true } else s)

end Sizes

namespace PoolAllocator

def ptrSize : Nat := 8

/-- The constructor; without memory it ends the program. -/
def new (heap : Heap) (nobjs poolSz : UInt64) : Option PoolAllocator :=
  let n := nobjs.toNat * ptrSize % wordSize
  match heap.realloc ((n + poolSz.toNat) % wordSize) with
  | none => none
  | some p => some {
      nobjs := nobjs.toNat
      poolSz := poolSz.toNat
      pool := (p + n) % wordSize
      ptr := (p + n) % wordSize
      wrapped := decide (wordSize ≤ nobjs.toNat * ptrSize ∨ wordSize ≤ n + poolSz.toNat) }

def allocate (nbytes align : Nat) : AllocM Nat := do
  let nbytes := if nbytes = 0 then 1 else nbytes
  let s ← get
  if s.ptrs.length ≥ s.nobjs then throw (.badAlloc "nobjs")
  else
    let align ← sizeSub align (s.ptr % align)
    -- the three parts of one condition, from left to right
    if (← sizeSub sizeMax align) < nbytes then throw (.badAlloc "pool_sz")
    else
      let sum ← sizeAdd nbytes align
      if sum > s.poolSz then throw (.badAlloc "pool_sz")
      else
        let used ← sizeSub s.ptr s.pool
        if used > (← sizeSub s.poolSz sum) then throw (.badAlloc "pool_sz")
        else
          let r ← sizeAdd s.ptr align
          let ptr ← sizeAdd r nbytes
          modify fun s => { s with ptr, ptrs := s.ptrs ++ [r] }
          return r

def rollback (obj : Nat) : AllocM Unit := do
  let s ← get
  if s.ptrs.getLast? ≠ some obj then throw (.badRollback obj)
  else set { s with ptr := obj, ptrs := s.ptrs.dropLast }

def isLinearFind (nptrs : Nat) : Bool := nptrs < 10

/-- `equal_range` on the addresses. -/
def equalRange (ptrs : List Nat) (what : Nat) : Nat × Nat := BinarySearch.keyRange id (fun p q => decide (p < q)) ptrs what

/-- `find_if` on the addresses. -/
def findIf (ptrs : List Nat) (what : Nat) : Nat := ptrs.findIdx fun p => p == what

/-- The assertion on a range of equal addresses. -/
def atMostOne (rng : Nat × Nat) : Prop := rng.2 = rng.1 ∨ rng.2 = rng.1 + 1

instance (rng : Nat × Nat) : Decidable (atMostOne rng) := inferInstanceAs (Decidable (_ ∨ _))

def findIndex (s : PoolAllocator) (what : Nat) : Except AllocError (Option Nat) :=
  if isLinearFind s.ptrs.length then
    if findIf s.ptrs what = s.ptrs.length then .ok none else .ok (some (findIf s.ptrs what))
  else if ¬ atMostOne (equalRange s.ptrs what) then .error .assertFailed
  else if (equalRange s.ptrs what).2 = (equalRange s.ptrs what).1 then .ok none
  else .ok (some (equalRange s.ptrs what).1)

def find (s : PoolAllocator) (what : Nat) : Except AllocError Bool :=
  if isLinearFind s.ptrs.length then .ok (findIf s.ptrs what ≠ s.ptrs.length)
  else if ¬ atMostOne (equalRange s.ptrs what) then .error .assertFailed
  else .ok ((equalRange s.ptrs what).1 ≠ (equalRange s.ptrs what).2)

section Find
variable {s : PoolAllocator} {what : Nat}

theorem lt_total : BinarySearch.StrictTotal fun p q : Nat => decide (p < q) where
  irrefl := by simp
  trans a b c := by
    simp only [decide_eq_true_eq]
    exact Nat.lt_trans
  connected a b := by
    simp only [decide_eq_false_iff_not]
    omega

theorem findIf_lt_iff {ptrs : List Nat} : findIf ptrs what < ptrs.length ↔ what ∈ ptrs := by
  rw [findIf, List.findIdx_lt_length]
  simp

theorem getElem?_findIf {ptrs : List Nat} (member : what ∈ ptrs) : ptrs[findIf ptrs what]? = some what := by
  have found := findIf_lt_iff.mpr member
  rw [List.getElem?_eq_getElem found]
  have here : (ptrs[findIf ptrs what] == what) = true := @List.findIdx_getElem _ (fun p => p == what) ptrs found
  exact congrArg some (beq_iff_eq.mp here)

/-- On sorted addresses both searches find a pointer where it is recorded. -/
theorem findIndex_sorted (sorted : s.ptrs.Pairwise (· < ·)) :
    (what ∈ s.ptrs → ∃ i, s.findIndex what = .ok (some i) ∧ s.ptrs[i]? = some what) ∧
      (what ∉ s.ptrs → s.findIndex what = .ok none) := by
  have ascending : BinarySearch.Ascending id (fun p q : Nat => decide (p < q)) s.ptrs :=
    sorted.imp fun less => decide_eq_true less
  unfold findIndex
  split
  next =>
    constructor
    · intro member
      rw [if_neg (Nat.ne_of_lt (findIf_lt_iff.mpr member))]
      exact ⟨_, rfl, getElem?_findIf member⟩
    · intro absent
      have missed : s.ptrs.length ≤ findIf s.ptrs what := Nat.not_lt.mp fun found => absent (findIf_lt_iff.mp found)
      have ended : findIf s.ptrs what = s.ptrs.length := Nat.le_antisymm List.findIdx_le_length missed
      rw [if_pos ended]
  next =>
    constructor
    · intro member
      obtain ⟨i, inside, same⟩ := List.getElem_of_mem member
      have found : s.ptrs[i]? = some what := by rw [List.getElem?_eq_getElem inside, same]
      have range : equalRange s.ptrs what = (i, i + 1) := BinarySearch.range_of_mem lt_total ascending found
      refine ⟨i, ?_, found⟩
      simp [range, atMostOne]
    · intro absent
      have range : (equalRange s.ptrs what).2 = (equalRange s.ptrs what).1 :=
        BinarySearch.range_of_absent lt_total ascending fun p member same => absent (same ▸ member)
      simp [range, atMostOne]

theorem find_eq_findIndex : s.find what = (s.findIndex what).map Option.isSome := by
  unfold find findIndex
  split
  next => by_cases ended : findIf s.ptrs what = s.ptrs.length <;> simp [ended, Except.map]
  next =>
    split
    next => rfl
    next =>
      by_cases empty : (equalRange s.ptrs what).2 = (equalRange s.ptrs what).1
      · simp [empty, Except.map]
      · simp [empty, Ne.symm empty, Except.map]

theorem find_sorted (sorted : s.ptrs.Pairwise (· < ·)) : s.find what = .ok (decide (what ∈ s.ptrs)) := by
  obtain ⟨present, absent⟩ := @findIndex_sorted s what sorted
  rw [find_eq_findIndex]
  by_cases member : what ∈ s.ptrs
  · obtain ⟨i, found, -⟩ := present member
    simp [found, member, Except.map]
  · simp [absent member, member, Except.map]

end Find

end PoolAllocator

end CxxpyTree
