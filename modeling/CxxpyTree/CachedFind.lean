import CxxpyTree.Lib.TwoRuns
import CxxpyTree.ValueChecks

/-! The lookup of type names with its cache against a search without one. -/

namespace CxxpyTree.Obj
open Machine

variable {ι : Type} {t : TypeTable ι}

namespace TypeTable

/-- What `find` is for: the first entry with the name, or the error. -/
def linearFind (t : TypeTable ι) (name : CStr) : Except (Stop ι) (NewFuncs ι) :=
  match t.newFuncs.find? (fun entry => entry.name = name) with
  | some entry => .ok entry
  | none => .error (.error (.unknownType name))

/-- One call of `find` after the other, with what each returns or throws. -/
def findCalls (t : TypeTable ι) : List CStr → MakerState ι → List (Except (Stop ι) (NewFuncs ι)) × MakerState ι
  | [], m => ([], m)
  | name :: names, m =>
    let run := t.find name m
    let rest := findCalls t names (finalState run)
    (outcome run :: rest.1, rest.2)

section Calls
variable {name : CStr} {m : MakerState ι} {stop : Stop ι}

theorem lookup_eq_linearFind (sorted : t.Sorted) : t.lookup name = t.linearFind name := by
  unfold linearFind
  cases found : t.newFuncs.find? (fun entry => entry.name = name) with
  | some entry =>
    have same := List.find?_some found
    rw [decide_eq_true_eq] at same
    rw [← same]
    exact lookup_mem sorted (List.mem_of_find?_eq_some found)
  | none =>
    apply lookup_absent sorted
    intro entry member same
    exact List.find?_eq_none.mp found entry member (decide_eq_true same)

theorem linearFind_error (failed : t.linearFind name = .error stop) : stop = .error (.unknownType name) := by
  unfold linearFind at failed
  split at failed <;> cases failed
  rfl

/-- One call with a valid cache: it answers as the search does and leaves the cache valid. -/
theorem find_step (sorted : t.Sorted) (valid : t.CacheValid m) (name : CStr) :
    outcome (t.find name m) = t.linearFind name ∧ t.CacheValid (finalState (t.find name m)) := by
  have run : t.find name m = _ := find_eq valid
  rw [lookup_eq_linearFind sorted] at run
  cases found : t.linearFind name with
  | ok entry =>
    rw [found] at run
    exact ⟨congrArg outcome run, by rw [run]; exact (find_valid valid run).2⟩
  | error stop =>
    rw [found] at run
    exact ⟨congrArg outcome run, by rw [run]; exact valid⟩

/-- The run lemma: from a valid cache every call answers as the search does. -/
theorem findCalls_run (sorted : t.Sorted) : ∀ (names : List CStr) {m : MakerState ι}, t.CacheValid m →
    (t.findCalls names m).1 = names.map t.linearFind ∧ t.CacheValid (t.findCalls names m).2
  | [], _, valid => ⟨rfl, valid⟩
  | name :: names, m, valid => by
    obtain ⟨answer, kept⟩ := find_step sorted valid name
    obtain ⟨answers, after⟩ := findCalls_run sorted names kept
    exact ⟨congrArg₂ List.cons answer answers, after⟩

end Calls

/-- Over a sorted table any calls of `find` from an empty cache answer as searches without a cache
do, none ends in a failed assertion, and one that throws leaves the cache as it was. -/
theorem cached_find_linear (sorted : t.Sorted) {m : MakerState ι} (empty : m.cache = none) (names : List CStr) :
    (t.findCalls names m).1 = names.map t.linearFind ∧
    (∀ answer ∈ (t.findCalls names m).1, answer ≠ .error .assertFailed) ∧
    ∀ before name after, names = before ++ name :: after → ∀ stop s',
      t.find name (t.findCalls before m).2 = .error stop s' →
      stop = .error (.unknownType name) ∧ s'.cache = (t.findCalls before m).2.cache := by
  have valid : t.CacheValid m := fun entry cached => nomatch empty.symm.trans cached
  obtain ⟨answers, -⟩ := findCalls_run sorted names valid
  refine ⟨answers, ?_, ?_⟩
  · rw [answers]
    intro answer member
    obtain ⟨name, -, rfl⟩ := List.mem_map.mp member
    intro failed
    cases linearFind_error failed
  · rintro before name after - stop s' failed
    obtain ⟨answer, -⟩ := find_step sorted (findCalls_run sorted before valid).2 name
    rw [failed] at answer
    exact ⟨linearFind_error answer.symm, by rw [find_error failed]⟩

end TypeTable

def twoNames : TypeTable Bool where
  types := [false, true]
  complete := mem_false_true
  astType
    | false => ⟨"A".toList, none, []⟩
    | true => ⟨"B".toList, none, []⟩
  newFuncs := [⟨"A".toList, false⟩, ⟨"B".toList, true⟩]

/-- A name that is looked up, the same again from the cache, an unknown name, and another one. -/
theorem cached_find_twoNames :
    (twoNames.findCalls ["B".toList, "B".toList, "C".toList, "A".toList] {}).1 =
      [.ok ⟨"B".toList, true⟩, .ok ⟨"B".toList, true⟩, .error (.error (.unknownType "C".toList)), .ok ⟨"A".toList, false⟩] := by
  have sorted : twoNames.Sorted := List.pairwise_pair.mpr (by decide)
  exact (TypeTable.cached_find_linear sorted rfl _).1.trans (by rfl)

end CxxpyTree.Obj
