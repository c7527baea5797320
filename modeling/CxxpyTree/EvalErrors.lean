import CxxpyTree.EvaluatorRefinement
import CxxpyTree.LeftmostArg

/-! Over sorted tables without cycles an evaluation that does not return throws an error that a caller can catch. -/

namespace CxxpyTree.Obj

open Machine

variable {ι : Type}

def Stop.Thrown (stop : Stop ι) : Prop := ∃ err, stop = .error err

variable [DecidableEq ι] {t : TypeTable ι} {strict : Bool} {V : Type} {e : Stop ι} {m m' : MakerState ι}

omit [DecidableEq ι] in
theorem find_throws (sorted : t.Sorted) {name : CStr} (failed : t.find name m = .error e m') : e.Thrown := by
  rw [find_run] at failed
  split at failed
  next => cases failed
  next =>
    split at failed
    next => cases failed
    next stop missed =>
      cases failed
      by_cases known : ∃ entry ∈ t.newFuncs, entry.name = name
      · obtain ⟨entry, member, rfl⟩ := known
        cases (lookup_mem sorted member).symm.trans missed
      · have absent : ∀ entry ∈ t.newFuncs, entry.name ≠ name := fun entry member same => known ⟨entry, member, same⟩
        cases (lookup_absent sorted absent).symm.trans missed
        exact ⟨_, rfl⟩

omit [DecidableEq ι] in
theorem answer_throws {result : CastResult} {src dst : ObjType ι} {err : ObjError} (ends : result = .yes ∨ result = .no)
    (failed : (result.answer src dst >>= fun cast => if !cast then throw (.error err) else pure PUnit.unit) = .error e) :
    e.Thrown := by
  rcases ends with rfl | rfl
  · cases failed
  · cases failed
    exact ⟨_, rfl⟩

omit [DecidableEq ι] in
theorem cptrCast_throws {c : CptrType} {arg : CStr} (failed : (cptrCast c arg : Except (Stop ι) _) = .error e) :
    e.Thrown := by
  cases c with
  | charPtr => cases failed
  | bool =>
    simp only [cptrCast] at failed
    split at failed <;> cases failed
    exact ⟨_, rfl⟩
  | compOp =>
    simp only [cptrCast] at failed
    split at failed <;> cases failed
    exact ⟨_, rfl⟩

omit [DecidableEq ι] in
theorem argField_throws {argType : ObjType ι} {value : ObjValue ι} (failed : argField argType value = .error e) :
    e.Thrown := by
  cases argType with
  | cptr c =>
    cases value with
    | cptr ptr => exact cptrCast_throws failed
    | _ => cases failed; exact ⟨_, rfl⟩
  | node i =>
    cases value with
    | node j ptr => cases failed
    | _ => cases failed; exact ⟨_, rfl⟩
  | list i =>
    cases value with
    | list j elems => cases failed
    | _ => cases failed; exact ⟨_, rfl⟩

omit [DecidableEq ι] in
theorem argFields_throws : ∀ {args : List (ArgDef ι)} {values : List (ObjValue ι)},
    argFields args values = .error e → e.Thrown := by
  intro args
  induction args with
  | nil => intro values failed; cases failed
  | cons arg args ih =>
    intro values failed
    cases values with
    | nil => cases failed
    | cons value values =>
      rw [argFields] at failed
      rcases except_bind_eq_error.mp failed with here | ⟨field, _, later⟩
      · obtain ⟨name, argType⟩ := arg
        exact argField_throws here
      · rcases except_bind_eq_error.mp later with rest | ⟨_, _, done⟩
        · exact ih rest
        · cases done

omit [DecidableEq ι] in
theorem listElems_throws {values : List (ObjValue ι)} (failed : listElems values = .error e) : e.Thrown := by
  induction values with
  | nil => cases failed
  | cons value values ih =>
    rw [listElems] at failed
    rcases except_bind_eq_error.mp failed with here | ⟨elem, _, later⟩
    · cases value with
      | node i ptr => cases here
      | _ => cases here; exact ⟨_, rfl⟩
    · rcases except_bind_eq_error.mp later with rest | ⟨_, _, done⟩
      · exact ih rest
      · cases done

/-- What a maker makes of its values either is made or throws. -/
structure Values.Throws (vals : Values ι V) : Prop where
  node : ∀ {type values e}, vals.node type values = .error e → e.Thrown
  list : ∀ {type values e}, vals.list type values = .error e → e.Thrown

omit [DecidableEq ι] in
theorem typeValues_throws : Values.Throws (typeValues : Values ι (ObjType ι)) where
  node failed := by cases failed
  list failed := by cases failed

omit [DecidableEq ι] in
theorem nodeValues_throws : Values.Throws (nodeValues t) where
  node failed := by
    rw [nodeValues_node] at failed
    rcases except_bind_eq_error.mp failed with fields | ⟨_, _, done⟩
    · exact argFields_throws fields
    · cases done
  list failed := by
    rw [nodeValues_list] at failed
    rcases except_bind_eq_error.mp failed with elems | ⟨_, _, done⟩
    · exact listElems_throws elems
    · cases done

section Checks
variable (acyclic : t.Acyclic) {objType : V → ObjType ι} {type : ι}
include acyclic

theorem checkNodeArg_throws {arg : ArgDef ι} {k : Nat} {obj : StackObj V} {name : CStr} (named : obj.name = some name)
    (failed : checkNodeArg t strict objType type arg k obj = .error e) : e.Thrown := by
  rw [checkNodeArg, named, checkNodeArgName] at failed
  by_cases same : arg.argName ≠ name
  · rw [if_pos same] at failed
    cases failed
    exact ⟨_, rfl⟩
  · rw [if_neg same] at failed
    exact answer_throws (objTypeCast_acyclic acyclic) failed

theorem checkArgs_throws {args : List (ArgDef ι)} {objs : List (StackObj V)} {k : Nat}
    (named : ∀ obj ∈ objs, ∃ name, obj.name = some name) (failed : checkArgs t strict objType type k args objs = .error e) :
    e.Thrown := by
  induction args generalizing objs k with
  | nil => cases failed
  | cons arg args ih =>
    cases objs with
    | nil => cases failed
    | cons obj objs =>
      obtain ⟨⟨name, first⟩, others⟩ := List.forall_mem_cons.mp named
      rw [checkArgs] at failed
      rcases except_bind_eq_error.mp failed with here | ⟨_, _, later⟩
      · exact checkNodeArg_throws acyclic first here
      · exact ih others later

theorem checkElems_throws {values : List V} {k : Nat} (failed : checkElems t strict objType type k values = .error e) :
    e.Thrown := by
  induction values generalizing k with
  | nil => cases failed
  | cons value values ih =>
    rw [checkElems] at failed
    rcases except_bind_eq_error.mp failed with here | ⟨_, _, later⟩
    · refine answer_throws ?_ here
      cases objType value with
      | node _ => exact TypeTable.typeCast_acyclic acyclic
      | list _ => exact .inr rfl
      | cptr _ => exact .inr rfl
    · exact ih later

theorem checkNodeValues_throws {args : NodeArgs} {objs : List (StackObj V)}
    (named : ∀ list, args = .listArgs list → ∀ obj ∈ objs, ∃ name, obj.name = some name)
    (failed : checkNodeValues t strict objType type args objs m = .error e m') : e.Thrown := by
  cases args with
  | literalArgs literal =>
    by_cases arity : narg t type = 1
    · obtain ⟨arg, declared⟩ := List.length_eq_one_iff.mp arity
      simp only [checkNodeValues, arity, declared, ne_eq, not_true_eq_false, if_false] at failed
      cases objs with
      | nil => cases failed
      | cons obj objs => exact answer_throws (objTypeCast_acyclic acyclic) (check_eq_error failed)
    · simp only [checkNodeValues, arity, ne_eq, not_false_eq_true, if_true] at failed
      cases failed
      exact ⟨_, rfl⟩
  | listArgs list =>
    by_cases arity : narg t type = list.length
    · simp only [checkNodeValues, arity, ne_eq, not_true_eq_false, if_false] at failed
      exact checkArgs_throws acyclic (named list rfl) (check_eq_error failed)
    · simp only [checkNodeValues, arity, ne_eq, not_false_eq_true, if_true] at failed
      cases failed
      exact ⟨_, rfl⟩

end Checks

section Values
variable (sorted : t.Sorted) (acyclic : t.Acyclic) {vals : Values ι V} (throws : vals.Throws)
include acyclic throws

theorem nodeFromValues_throws {type : ι} {args : NodeArgs} {objs : List (StackObj V)}
    (named : ∀ list, args = .listArgs list → ∀ obj ∈ objs, ∃ name, obj.name = some name)
    (failed : nodeFromValues t strict vals type args objs m = .error e m') : e.Thrown := by
  rw [nodeFromValues_run] at failed
  split at failed
  next checks => cases failed; exact checkNodeValues_throws acyclic named checks
  next =>
    split at failed
    next made => cases failed; exact throws.node made
    next => cases failed

theorem listFromValues_throws {type : ι} {values : List V}
    (failed : listFromValues t strict vals type values m = .error e m') : e.Thrown := by
  rw [listFromValues_run] at failed
  split at failed
  next checks => cases failed; exact checkElems_throws acyclic checks
  next =>
    split at failed
    next made => cases failed; exact throws.list made
    next => cases failed

include sorted

set_option linter.unusedSectionVars false in
mutual

theorem valueTreeNode_throws {node : TreeNode} {m m' : MakerState ι}
    (failed : valueTreeNode t strict vals node m = .error e m') : e.Thrown := by
  cases node with
  | mk name args =>
    rw [valueTreeNode] at failed
    rcases bind_eq_error.mp failed with args' | ⟨objs, m₁, valued, failed⟩
    · exact valueNodeArgs_throws args'
    · rcases bind_eq_error.mp failed with search | ⟨entry, m₂, _, failed⟩
      · exact find_throws sorted search
      · exact nodeFromValues_throws acyclic throws (valueNodeArgs_named valued) failed
  termination_by structural node

theorem valueNodeArgs_throws {args : NodeArgs} {m m' : MakerState ι}
    (failed : valueNodeArgs t strict vals args m = .error e m') : e.Thrown := by
  cases args with
  | listArgs list =>
    rw [valueNodeArgs] at failed
    exact valueNodeArgList_throws failed
  | literalArgs literal =>
    rw [valueNodeArgs] at failed
    cases failed
  termination_by structural args

theorem valueNodeArgList_throws {list : List NodeArg} {m m' : MakerState ι}
    (failed : valueNodeArgList t strict vals list m = .error e m') : e.Thrown := by
  cases list with
  | nil =>
    rw [valueNodeArgList] at failed
    cases failed
  | cons arg list =>
    rw [valueNodeArgList] at failed
    rcases bind_eq_error.mp failed with first | ⟨obj, m₁, _, failed⟩
    · exact valueNodeArg_throws first
    · rcases bind_eq_error.mp failed with rest | ⟨objs, m₂, _, done⟩
      · exact valueNodeArgList_throws rest
      · cases done
  termination_by structural list

theorem valueNodeArg_throws {arg : NodeArg} {m m' : MakerState ι}
    (failed : valueNodeArg t strict vals arg m = .error e m') : e.Thrown := by
  cases arg with
  | mk name value =>
    rw [valueNodeArg] at failed
    rcases bind_eq_error.mp failed with value' | ⟨_, _, _, done⟩
    · exact valueArgValue_throws value'
    · cases done
  termination_by structural arg

theorem valueArgValue_throws {arg : ArgValue} {m m' : MakerState ι}
    (failed : valueArgValue t strict vals arg m = .error e m') : e.Thrown := by
  cases arg with
  | nodeValue node =>
    rw [valueArgValue] at failed
    exact valueTreeNode_throws failed
  | listValue list =>
    rw [valueArgValue] at failed
    exact valueNodeList_throws failed
  | literalValue literal =>
    rw [valueArgValue] at failed
    cases failed
  termination_by structural arg

theorem valueNodeList_throws {list : NodeList} {m m' : MakerState ι}
    (failed : valueNodeList t strict vals list m = .error e m') : e.Thrown := by
  cases list with
  | mk base elems =>
    rw [valueNodeList] at failed
    rcases bind_eq_error.mp failed with elems' | ⟨values, m₁, _, failed⟩
    · exact valueListElems_throws elems'
    · rcases bind_eq_error.mp failed with search | ⟨entry, m₂, _, failed⟩
      · exact find_throws sorted search
      · exact listFromValues_throws acyclic throws failed
  termination_by structural list

theorem valueListElems_throws {elems : List ListElem} {k : Nat} {m m' : MakerState ι}
    (failed : valueListElems t strict vals elems k m = .error e m') : e.Thrown := by
  cases elems with
  | nil =>
    rw [valueListElems] at failed
    cases failed
  | cons elem elems =>
    rw [valueListElems] at failed
    rcases bind_eq_error.mp failed with first | ⟨value, m₁, _, failed⟩
    · exact valueListElem_throws first
    · rcases bind_eq_error.mp failed with rest | ⟨values, m₂, _, done⟩
      · exact valueListElems_throws rest
      · cases done
  termination_by structural elems

theorem valueListElem_throws {elem : ListElem} {k : Nat} {m m' : MakerState ι}
    (failed : valueListElem t strict vals elem k m = .error e m') : e.Thrown := by
  cases elem with
  | mk index node =>
    rw [valueListElem_run] at failed
    split at failed
    next => cases failed; exact ⟨_, rfl⟩
    next => exact valueTreeNode_throws failed
  termination_by structural elem

end

/-- An evaluation that does not return throws. -/
theorem eval_throws {maker : Maker ι V} (implements : Implements t strict maker vals) {tree : Tree}
    (clear : m.nargError = false) (failed : eval t maker tree m = (.error e, m')) : e.Thrown := by
  rw [eval_run implements tree (by rw [clear]; nofun)] at failed
  split at failed
  next => cases failed
  next stop m₁ outcome =>
    cases failed
    exact valueTreeNode_throws sorted acyclic throws outcome

end Values

end CxxpyTree.Obj
