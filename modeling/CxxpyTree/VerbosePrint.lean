import CxxpyTree.Abc
import CxxpyTree.Cxxpy
import CxxpyTree.ObjPrint

/-! When a verbose print comes to its end: it follows the declarations wherever they lead. -/

namespace CxxpyTree.Obj

variable {ι : Type}

/-- The declaration that the print of an object goes into. -/
def ObjType.astType? : ObjType ι → Option ι
  | .node astType | .list astType => some astType
  | .cptr _ => none

/-- The types that a declaration points at. -/
def TypeTable.refs (t : TypeTable ι) (i : ι) : List ι :=
  (t.astType i).base.toList ++ (t.astType i).args.filterMap (·.argType.astType?)

section Ends
variable {t : TypeTable ι} {verbose : Bool} {astText astText' : ι → Option (List Char)} {fuel : Nat} {i : ι}

theorem option_bind_isSome {α β : Type} {x : Option α} {f : α → Option β} {P : Prop} (same : ∀ a, (f a).isSome ↔ P) :
    (x >>= f).isSome ↔ x.isSome ∧ P := by
  cases x with
  | none => exact iff_of_false (by simp) (by simp)
  | some a => exact (same a).trans (and_iff_right rfl).symm

theorem printObjType_isSome {obj : ObjType ι} :
    (printObjType verbose astText obj).isSome ↔ ∀ j ∈ obj.astType?, (astText j).isSome := by
  cases obj with
  | node astType | list astType =>
    rw [printObjType, option_bind_isSome fun _ => iff_of_true rfl trivial]
    simp [ObjType.astType?]
  | cptr cptrType => exact iff_of_true rfl (by simp [ObjType.astType?])

theorem printArgDef_isSome {arg : ArgDef ι} :
    (printArgDef verbose astText arg).isSome ↔ ∀ j ∈ arg.argType.astType?, (astText j).isSome := by
  rw [printArgDef, option_bind_isSome fun _ => iff_of_true rfl trivial, and_true, printObjType_isSome]

theorem printArgDefs_isSome {args : List (ArgDef ι)} {n : Nat} :
    (printArgDefs verbose astText args n).isSome ↔
      ∀ j ∈ args.filterMap (·.argType.astType?), (astText j).isSome := by
  induction args generalizing n with
  | nil => exact iff_of_true rfl (by simp)
  | cons arg args ih =>
    rw [printArgDefs, option_bind_isSome fun _ => option_bind_isSome fun _ => iff_of_true rfl trivial, and_true, ih,
      printArgDef_isSome, List.filterMap_cons]
    cases arg.argType.astType? with
    | none => simp
    | some j => simp

theorem printBase_isSome {base : Option ι} : (printBase astText base).isSome ↔ ∀ j ∈ base.toList, (astText j).isSome := by
  cases base with
  | none => exact iff_of_true rfl (by simp)
  | some base => simp [printBase]

/-- A print ends within a depth of calls just when the declarations unfold within it. -/
theorem printVerbose_isSome : (printVerbose t fuel i).isSome ↔ Unfold.Within t.refs fuel i := by
  induction fuel generalizing i with
  | zero => exact iff_of_false (by simp [printVerbose]) id
  | succ fuel ih =>
    rw [printVerbose, option_bind_isSome fun _ => option_bind_isSome fun _ => iff_of_true rfl trivial, and_true,
      printBase_isSome, printArgDefs_isSome, ← List.forall_mem_append]
    simp only [ih]
    exact Iff.rfl

/-! A deeper print changes no text that was there before. -/

/-- `astText'` has every text that `astText` has. -/
def Prolongs (astText astText' : ι → Option (List Char)) : Prop := ∀ j text, astText j = some text → astText' j = some text

variable (more : Prolongs astText astText')
include more

theorem printObjType_prolongs {obj : ObjType ι} {text : List Char}
    (printed : printObjType verbose astText obj = some text) : printObjType verbose astText' obj = some text := by
  cases obj with
  | node astType | list astType =>
    obtain ⟨ast, found, rest⟩ := Option.bind_eq_some_iff.mp printed
    exact Option.bind_eq_some_iff.mpr ⟨ast, more _ _ found, rest⟩
  | cptr cptrType => exact printed

theorem printArgDef_prolongs {arg : ArgDef ι} {text : List Char}
    (printed : printArgDef verbose astText arg = some text) : printArgDef verbose astText' arg = some text := by
  obtain ⟨type, found, rest⟩ := Option.bind_eq_some_iff.mp printed
  exact Option.bind_eq_some_iff.mpr ⟨type, printObjType_prolongs more found, rest⟩

theorem printArgDefs_prolongs {args : List (ArgDef ι)} {n : Nat} {text : List Char}
    (printed : printArgDefs verbose astText args n = some text) : printArgDefs verbose astText' args n = some text := by
  induction args generalizing n text with
  | nil => exact printed
  | cons arg args ih =>
    obtain ⟨first, found, printed⟩ := Option.bind_eq_some_iff.mp printed
    obtain ⟨rest, later, printed⟩ := Option.bind_eq_some_iff.mp printed
    exact Option.bind_eq_some_iff.mpr ⟨first, printArgDef_prolongs more found,
      Option.bind_eq_some_iff.mpr ⟨rest, ih later, printed⟩⟩

omit more in
theorem printVerbose_succ {text : List Char} (printed : printVerbose t fuel i = some text) :
    printVerbose t (fuel + 1) i = some text := by
  induction fuel generalizing i text with
  | zero => cases printed
  | succ fuel ih =>
    have more : Prolongs (printVerbose t fuel) (printVerbose t (fuel + 1)) := fun _ _ => ih
    obtain ⟨base, found, printed⟩ := Option.bind_eq_some_iff.mp printed
    obtain ⟨args, later, printed⟩ := Option.bind_eq_some_iff.mp printed
    have found : printBase (printVerbose t (fuel + 1)) (t.astType i).base = some base := by
      cases isBase : (t.astType i).base with
      | none => rwa [isBase] at found
      | some j =>
        rw [isBase] at found
        exact more j base found
    exact Option.bind_eq_some_iff.mpr ⟨base, found,
      Option.bind_eq_some_iff.mpr ⟨args, printArgDefs_prolongs more later, printed⟩⟩

omit more in
theorem printVerbose_mono {fuel' : Nat} {text : List Char} (printed : printVerbose t fuel i = some text)
    (le : fuel ≤ fuel') : printVerbose t fuel' i = some text := by
  induction le with
  | refl => exact printed
  | step _ ih => exact printVerbose_succ ih

end Ends

section Result
variable (t : TypeTable ι) (verbose : Bool) (obj : ObjType ι)

theorem printAstType_isSome {fuel : Nat} {i : ι} : (printAstType t verbose fuel i).isSome ↔
    (verbose = true → Unfold.Within t.refs fuel i) := by
  cases verbose with
  | false => exact iff_of_true rfl (by simp)
  | true => exact printVerbose_isSome.trans (by simp)

/-- The print of an object comes to an end unless it is verbose and goes into a declaration from which a
cycle of bases and arguments can be reached. It is then nested no deeper than there are types. -/
theorem print_ends_iff :
    ((∃ fuel text, obj.print t verbose fuel = some text) ↔
      (verbose = true → ∀ i ∈ obj.astType?, ¬ Unfold.Cyclic t.refs i)) ∧
    ∀ fuel text, obj.print t verbose fuel = some text → obj.print t verbose t.types.length = some text := by
  have ends : ∀ fuel, (obj.print t verbose fuel).isSome ↔
      (verbose = true → ∀ i ∈ obj.astType?, Unfold.Within t.refs fuel i) := by
    intro fuel
    simp only [ObjType.print, printObjType_isSome, printAstType_isSome]
    exact ⟨fun all isVerbose i member => all i member isVerbose, fun all i member isVerbose => all isVerbose i member⟩
  have within : ∀ i, Unfold.Within t.refs t.types.length i ↔ ¬ Unfold.Cyclic t.refs i :=
    fun i => Unfold.within_iff t.complete
  constructor
  · constructor
    · rintro ⟨fuel, text, printed⟩ isVerbose i member
      exact ((ends fuel).mp (by rw [printed]; rfl) isVerbose i member).not_cyclic
    · intro clear
      have printed := (ends t.types.length).mpr fun isVerbose i member => (within i).mpr (clear isVerbose i member)
      exact ⟨t.types.length, Option.isSome_iff_exists.mp printed⟩
  · intro fuel text printed
    have deep : (obj.print t verbose t.types.length).isSome := by
      rw [ends]
      intro isVerbose i member
      exact (within i).mpr ((ends fuel).mp (by rw [printed]; rfl) isVerbose i member).not_cyclic
    obtain ⟨text', printed'⟩ := Option.isSome_iff_exists.mp deep
    -- both are the text of one deeper print
    have more : ∀ n, n ≤ max fuel t.types.length → Prolongs (printAstType t verbose n)
        (printAstType t verbose (max fuel t.types.length)) := by
      intro n le j text found
      cases verbose with
      | false => exact found
      | true => exact printVerbose_mono found le
    have one := printObjType_prolongs (more fuel (Nat.le_max_left ..)) printed
    have two := printObjType_prolongs (more t.types.length (Nat.le_max_right ..)) printed'
    rw [printed', ← one.symm.trans two]

end Result

/-! The declarations of the two libraries point at others that stand before them, one apart. -/

theorem Abc.refs_not_cyclic (i : Abc.NodeType) : ¬ Unfold.Cyclic Abc.table.refs i :=
  Unfold.not_cyclic_of_rank (fun type => Abc.types.idxOf type) (fun i => by cases i <;> decide) i

theorem Cxxpy.refs_not_cyclic (i : Cxxpy.NodeType) : ¬ Unfold.Cyclic Cxxpy.table.refs i :=
  Unfold.not_cyclic_of_rank (fun type => if type = .keyDatumDictExpr then 44 else Cxxpy.types.idxOf type)
    (fun i => by cases i <;> decide) i

end CxxpyTree.Obj
