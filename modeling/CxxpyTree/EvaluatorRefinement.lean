import CxxpyTree.CastOrder
import CxxpyTree.NodePools
import CxxpyTree.RaisedFlag

/-! The stack machine refines the evaluation without a stack. What can stop that evaluation is a
failed check or a cast whose walk along the base pointers never ends, so the errors of the stack
are never raised. -/

namespace CxxpyTree.Obj
open Machine

variable {ι : Type}

def ObjError.ofChecks : ObjError → Bool
  | .listIndex .. | .unknownType _ | .argName .. | .argCast .. | .oneArg .. | .argCount .. | .elemCast ..
  | .invalidValue .. => true
  | _ => false

/-- A check has failed, with an error or with the fatal message of `type_cast` or `find`. -/
def Stop.ofChecks : Stop ι → Prop
  | .error err => err.ofChecks = true
  | .cycle _ | .assertFailed => True
  | _ => False

/-- An error of the stack, also when it is raised by the pop of a destructor. -/
def Stop.ofStack : Stop ι → Prop
  | .error .stackEmpty | .error (.stackIndex _) | .error (.stackSize _) | .error (.stackFinalSize _)
  | .error .stackTopKind | .error (.stackNameSet _) | .terminated => True
  | _ => False

section Casts
variable [DecidableEq ι] (t : TypeTable ι) (strict : Bool)

inductive EndlessObjCast : (src dst : ObjType ι) → Prop where
  | node {src dst : ι} : t.EndlessCast src dst → EndlessObjCast (.node src) (.node dst)
  | list {src dst : ι} : t.EndlessCast src dst → EndlessObjCast (.list src) (.list dst)

/-- How a check may stop. -/
def Stop.Expected : Stop ι → Prop
  | .diverges src dst => strict = false ∧ EndlessObjCast t src dst
  | stop => stop.ofChecks

variable {t strict}

omit [DecidableEq ι] in
theorem Stop.ofChecks.expected {stop : Stop ι} (failed : stop.ofChecks) : stop.Expected t strict := by
  cases stop with
  | diverges _ _ => cases failed
  | _ => exact failed

omit [DecidableEq ι] in
theorem Stop.Expected.not_ofStack {stop : Stop ι} (expected : stop.Expected t strict) : ¬ stop.ofStack := by
  intro stack
  cases stop with
  | error err =>
    have disjoint : err.ofChecks = true → ¬ (Stop.error err : Stop ι).ofStack := by
      cases err <;> simp [ObjError.ofChecks, Stop.ofStack]
    exact disjoint expected stack
  | terminated => cases expected
  | _ => cases stack

theorem objTypeCast_diverges {src dst : ObjType ι} (result : t.objTypeCast strict dst src = .diverges) :
    strict = false ∧ EndlessObjCast t src dst := by
  rcases TypeTable.objTypeCast_cases result (by decide) with ⟨i, j, rfl, rfl, endless⟩ | ⟨i, j, rfl, rfl, endless⟩ | ⟨_, _, _, _, yes⟩
  · exact (TypeTable.typeCast_diverges_iff.mp endless).imp_right .node
  · exact (TypeTable.typeCast_diverges_iff.mp endless).imp_right .list
  · cases yes

theorem listTypeCast_diverges {src : ObjType ι} {dst : ι} (result : t.listTypeCast strict dst src = .diverges) :
    strict = false ∧ EndlessObjCast t src (.node dst) := by
  obtain ⟨i, rfl, endless⟩ := TypeTable.listTypeCast_cases result (by decide)
  exact (TypeTable.typeCast_diverges_iff.mp endless).imp_right .node

variable {V : Type} {objType : V → ObjType ι} {type : ι} {arg : ArgDef ι} {k : Nat} {e : Stop ι} {m m' : MakerState ι}

omit [DecidableEq ι] in
theorem answer_error {result : CastResult} {src dst : ObjType ι} {err : ObjError} (checks : err.ofChecks = true)
    (endless : result = .diverges → strict = false ∧ EndlessObjCast t src dst)
    (failed : (result.answer src dst >>= fun cast => if !cast then throw (.error err) else pure PUnit.unit) = .error e) :
    e.Expected t strict := by
  rw [answer_bind] at failed
  cases result with
  | yes => cases failed
  | no => cases failed; exact checks
  | cycle => cases failed; trivial
  | diverges => cases failed; exact endless rfl

theorem checkNodeArgValue_error {value : ObjType ι}
    (failed : checkNodeArgValue t strict type arg k value = .error e) : e.Expected t strict :=
  answer_error rfl objTypeCast_diverges failed

theorem checkListArg_error {value : ObjType ι}
    (failed : checkListArg t strict type k value = .error e) : e.Expected t strict :=
  answer_error rfl listTypeCast_diverges failed

/-- A named argument is never the null name of `strcmp`. -/
theorem checkNodeArg_error {obj : StackObj V} {name : CStr} (named : obj.name = some name)
    (failed : checkNodeArg t strict objType type arg k obj = .error e) : e.Expected t strict := by
  unfold checkNodeArg at failed
  rw [named, checkNodeArgName] at failed
  by_cases same : arg.argName ≠ name
  · rw [if_pos same] at failed
    cases failed
    rfl
  · rw [if_neg same] at failed
    exact checkNodeArgValue_error failed

theorem checkArgs_error : ∀ {args : List (ArgDef ι)} {objs : List (StackObj V)} {k : Nat},
    (∀ obj ∈ objs, ∃ name, obj.name = some name) → checkArgs t strict objType type k args objs = .error e →
    e.Expected t strict
  | [], _, _, _, failed => by cases failed
  | _ :: _, [], _, _, failed => by cases failed
  | arg :: args, obj :: objs, k, named, failed => by
    obtain ⟨⟨name, first⟩, rest⟩ := List.forall_mem_cons.mp named
    rw [checkArgs] at failed
    rcases except_bind_eq_error.mp failed with here | ⟨_, _, later⟩
    · exact checkNodeArg_error first here
    · exact checkArgs_error rest later

theorem checkElems_error : ∀ {values : List V} {k : Nat}, checkElems t strict objType type k values = .error e →
    e.Expected t strict
  | [], _, failed => by cases failed
  | value :: values, k, failed => by
    rw [checkElems] at failed
    rcases except_bind_eq_error.mp failed with here | ⟨_, _, later⟩
    · exact checkListArg_error here
    · exact checkElems_error later

omit [DecidableEq ι] in
theorem check_eq_error {σ α : Type} {answer : Except (Stop ι) α} {s s' : σ} (failed : check answer s = .error e s') :
    answer = .error e := by
  cases answer with
  | ok _ => cases failed
  | error _ => cases failed; rfl

theorem checkNodeValues_error {args : NodeArgs} {objs : List (StackObj V)}
    (named : ∀ list, args = .listArgs list → ∀ obj ∈ objs, ∃ name, obj.name = some name)
    (failed : checkNodeValues t strict objType type args objs m = .error e m') : e.Expected t strict := by
  cases args with
  | literalArgs literal =>
    by_cases arity : narg t type = 1
    · obtain ⟨arg, declared⟩ := List.length_eq_one_iff.mp arity
      cases objs with
      | nil =>
        simp only [checkNodeValues, arity, declared, ne_eq, not_true_eq_false, if_false] at failed
        cases failed
      | cons obj objs =>
        simp only [checkNodeValues, arity, declared, ne_eq, not_true_eq_false, if_false] at failed
        exact checkNodeArgValue_error (check_eq_error failed)
    · simp only [checkNodeValues, arity, ne_eq, not_false_eq_true, if_true] at failed
      cases failed
      rfl
  | listArgs list =>
    by_cases arity : narg t type = list.length
    · simp only [checkNodeValues, arity, ne_eq, not_true_eq_false, if_false] at failed
      exact checkArgs_error (named list rfl) (check_eq_error failed)
    · simp only [checkNodeValues, arity, ne_eq, not_false_eq_true, if_true] at failed
      cases failed
      rfl

omit [DecidableEq ι] in
theorem find_expected {name : CStr} (failed : t.find name m = .error e m') : e.ofChecks := by
  rw [find_run] at failed
  split at failed
  next => cases failed
  next =>
    split at failed
    next => cases failed
    next stop missed =>
      cases failed
      unfold TypeTable.lookup at missed
      dsimp only at missed
      split at missed
      · cases missed; trivial
      · split at missed
        · cases missed; rfl
        · split at missed <;> cases missed
          trivial

end Casts

section Values
variable [DecidableEq ι] {t : TypeTable ι} {strict : Bool} {V : Type} {e : Stop ι} {m m' : MakerState ι}

/-- On values that have passed the checks a maker fails at most in the cast of a literal. -/
structure Values.Safe (t : TypeTable ι) (strict : Bool) (vals : Values ι V) : Prop where
  node : ∀ {type args objs e}, Accepts t strict vals.objType type args objs →
    vals.node type (objs.map StackObj.value) = .error e → e.ofChecks
  list : ∀ {type values e}, (∀ value ∈ values, t.listTypeCast strict type (vals.objType value) = .yes) →
    vals.list type values = .error e → e.ofChecks

theorem typeValues_safe : Values.Safe t strict (typeValues : Values ι (ObjType ι)) where
  node _ failed := by cases failed
  list _ failed := by cases failed

omit [DecidableEq ι] in
theorem cptrCast_error {c : CptrType} {arg : CStr} (failed : (cptrCast c arg : Except (Stop ι) _) = .error e) :
    e.ofChecks := by
  cases c with
  | charPtr => cases failed
  | bool =>
    simp only [cptrCast] at failed
    split at failed <;> cases failed
    rfl
  | compOp =>
    simp only [cptrCast] at failed
    split at failed <;> cases failed
    rfl

theorem argField_error {argType : ObjType ι} {value : ObjValue ι}
    (cast : t.objTypeCast strict argType value.type = .yes) (failed : argField argType value = .error e) :
    e.ofChecks := by
  rcases castValue_cases cast with ⟨_, _, _, rfl, rfl, -⟩ | ⟨_, _, _, rfl, rfl, -⟩ | ⟨c, ptr, rfl, rfl⟩
  · cases failed
  · cases failed
  · exact cptrCast_error failed

theorem argFields_error {args : List (ArgDef ι)} {objs : List (StackObj (ObjValue ι))}
    (casts : List.Forall₂ (fun arg obj => t.objTypeCast strict arg.argType obj.value.type = .yes) args objs)
    (failed : argFields args (objs.map StackObj.value) = .error e) : e.ofChecks := by
  induction casts with
  | nil => cases failed
  | cons cast _ ih =>
    rw [List.map_cons, argFields] at failed
    rcases except_bind_eq_error.mp failed with here | ⟨field, _, later⟩
    · exact argField_error cast here
    · rcases except_bind_eq_error.mp later with rest | ⟨_, _, done⟩
      · exact ih rest
      · cases done

theorem listElems_of_casts {type : ι} : ∀ {values : List (ObjValue ι)},
    (∀ value ∈ values, t.listTypeCast strict type value.type = .yes) → ∃ elems, listElems values = .ok elems
  | [], _ => ⟨[], rfl⟩
  | value :: values, casts => by
    obtain ⟨first, rest⟩ := List.forall_mem_cons.mp casts
    obtain ⟨elems, listed⟩ := listElems_of_casts rest
    cases value with
    | node i ptr => exact ⟨ptr :: elems, by rw [listElems, listed]; rfl⟩
    | list _ _ => cases first
    | cptr _ => cases first

theorem nodeValues_safe : Values.Safe t strict (nodeValues t) where
  node accepts failed := by
    rw [nodeValues_node] at failed
    rcases except_bind_eq_error.mp failed with fields | ⟨_, _, done⟩
    · exact argFields_error accepts.casts fields
    · cases done
  list casts failed := by
    obtain ⟨elems, listed⟩ := listElems_of_casts casts
    rw [nodeValues_list, listed] at failed
    cases failed

variable {vals : Values ι V}

theorem valueNodeArgList_named : ∀ {list : List NodeArg} {objs : List (StackObj V)} {m m' : MakerState ι},
    valueNodeArgList t strict vals list m = .ok objs m' → ∀ obj ∈ objs, ∃ name, obj.name = some name
  | [], _, _, _, returned => by
    rw [valueNodeArgList] at returned
    cases returned
    simp
  | .mk name value :: list, _, _, _, returned => by
    obtain ⟨v, m₁, objs, _, rest, rfl⟩ := valueNodeArgList_returned returned
    exact List.forall_mem_cons.mpr ⟨⟨name.str, rfl⟩, valueNodeArgList_named rest⟩

theorem valueNodeArgs_named {args : NodeArgs} {objs : List (StackObj V)}
    (returned : valueNodeArgs t strict vals args m = .ok objs m') (list : List NodeArg) (named : args = .listArgs list) :
    ∀ obj ∈ objs, ∃ name, obj.name = some name := by
  subst named
  exact valueNodeArgList_named (by rwa [valueNodeArgs] at returned)

variable (safe : vals.Safe t strict)
include safe

theorem nodeFromValues_error {type : ι} {args : NodeArgs} {objs : List (StackObj V)} (count : objs.length = argCount args)
    (named : ∀ list, args = .listArgs list → ∀ obj ∈ objs, ∃ name, obj.name = some name)
    (failed : nodeFromValues t strict vals type args objs m = .error e m') : e.Expected t strict := by
  rw [nodeFromValues_run] at failed
  split at failed
  next checks =>
    cases failed
    exact checkNodeValues_error named checks
  next held =>
    split at failed
    next made =>
      cases failed
      exact (safe.node ((checkNodeValues_ok count).mp held).2 made).expected
    next => cases failed

theorem listFromValues_error {type : ι} {values : List V}
    (failed : listFromValues t strict vals type values m = .error e m') : e.Expected t strict := by
  rw [listFromValues_run] at failed
  split at failed
  next checks =>
    cases failed
    exact checkElems_error checks
  next held =>
    split at failed
    next made =>
      cases failed
      exact (safe.list ((checkElems_ok _ _).mp held) made).expected
    next => cases failed

set_option linter.unusedSectionVars false in
mutual

theorem valueTreeNode_error {node : TreeNode} {m m' : MakerState ι} (failed : valueTreeNode t strict vals node m = .error e m') :
    e.Expected t strict := by
  cases node with
  | mk name args =>
    rw [valueTreeNode] at failed
    rcases bind_eq_error.mp failed with args' | ⟨objs, m₁, valued, failed⟩
    · exact valueNodeArgs_error args'
    · rcases bind_eq_error.mp failed with search | ⟨entry, m₂, _, failed⟩
      · exact (find_expected search).expected
      · exact nodeFromValues_error safe (valueNodeArgs_length valued) (valueNodeArgs_named valued) failed
  termination_by structural node

theorem valueNodeArgs_error {args : NodeArgs} {m m' : MakerState ι} (failed : valueNodeArgs t strict vals args m = .error e m') :
    e.Expected t strict := by
  cases args with
  | listArgs list =>
    rw [valueNodeArgs] at failed
    exact valueNodeArgList_error failed
  | literalArgs literal =>
    rw [valueNodeArgs] at failed
    cases failed
  termination_by structural args

theorem valueNodeArgList_error {list : List NodeArg} {m m' : MakerState ι}
    (failed : valueNodeArgList t strict vals list m = .error e m') : e.Expected t strict := by
  cases list with
  | nil =>
    rw [valueNodeArgList] at failed
    cases failed
  | cons arg list =>
    rw [valueNodeArgList] at failed
    rcases bind_eq_error.mp failed with first | ⟨obj, m₁, _, failed⟩
    · exact valueNodeArg_error first
    · rcases bind_eq_error.mp failed with rest | ⟨objs, m₂, _, done⟩
      · exact valueNodeArgList_error rest
      · cases done
  termination_by structural list

theorem valueNodeArg_error {arg : NodeArg} {m m' : MakerState ι} (failed : valueNodeArg t strict vals arg m = .error e m') :
    e.Expected t strict := by
  cases arg with
  | mk name value =>
    rw [valueNodeArg] at failed
    rcases bind_eq_error.mp failed with value' | ⟨_, _, _, done⟩
    · exact valueArgValue_error value'
    · cases done
  termination_by structural arg

theorem valueArgValue_error {arg : ArgValue} {m m' : MakerState ι} (failed : valueArgValue t strict vals arg m = .error e m') :
    e.Expected t strict := by
  cases arg with
  | nodeValue node =>
    rw [valueArgValue] at failed
    exact valueTreeNode_error failed
  | listValue list =>
    rw [valueArgValue] at failed
    exact valueNodeList_error failed
  | literalValue literal =>
    rw [valueArgValue] at failed
    cases failed
  termination_by structural arg

theorem valueNodeList_error {list : NodeList} {m m' : MakerState ι} (failed : valueNodeList t strict vals list m = .error e m') :
    e.Expected t strict := by
  cases list with
  | mk base elems =>
    rw [valueNodeList] at failed
    rcases bind_eq_error.mp failed with elems' | ⟨values, m₁, _, failed⟩
    · exact valueListElems_error elems'
    · rcases bind_eq_error.mp failed with search | ⟨entry, m₂, _, failed⟩
      · exact (find_expected search).expected
      · exact listFromValues_error safe failed
  termination_by structural list

theorem valueListElems_error {elems : List ListElem} {k : Nat} {m m' : MakerState ι}
    (failed : valueListElems t strict vals elems k m = .error e m') : e.Expected t strict := by
  cases elems with
  | nil =>
    rw [valueListElems] at failed
    cases failed
  | cons elem elems =>
    rw [valueListElems] at failed
    rcases bind_eq_error.mp failed with first | ⟨value, m₁, _, failed⟩
    · exact valueListElem_error first
    · rcases bind_eq_error.mp failed with rest | ⟨values, m₂, _, done⟩
      · exact valueListElems_error rest
      · cases done
  termination_by structural elems

theorem valueListElem_error {elem : ListElem} {k : Nat} {m m' : MakerState ι}
    (failed : valueListElem t strict vals elem k m = .error e m') : e.Expected t strict := by
  cases elem with
  | mk index node =>
    rw [valueListElem_run] at failed
    split at failed
    next => cases failed; rfl
    next => exact valueTreeNode_error failed
  termination_by structural elem

end

end Values

/-- The parts of a tree whose visit pushes one value. -/
inductive Part where
  | argValue (arg : ArgValue)
  | treeNode (arg : TreeNode)
  | nodeList (arg : NodeList)
  | literal (arg : Literal)

section Parts
variable [DecidableEq ι] (t : TypeTable ι) (strict : Bool) {V : Type} (maker : Maker ι V) (vals : Values ι V)

def Part.visit : Part → EvalM ι V Unit
  | .argValue arg => visitArgValue t maker arg
  | .treeNode arg => visitTreeNode t maker arg
  | .nodeList arg => visitNodeList t maker arg
  | .literal arg => visitLiteral maker arg

def Part.value : Part → MakerM ι V
  | .argValue arg => valueArgValue t strict vals arg
  | .treeNode arg => valueTreeNode t strict vals arg
  | .nodeList arg => valueNodeList t strict vals arg
  | .literal arg => pure (vals.literal arg)

/-- The visit pushes the value of the part or raises an error of the checks on it. -/
def RefinesAt (part : Part) (stack : List (StackObj V)) (m : MakerState ι) : Prop :=
  (∃ v m', part.value t strict vals m = .ok v m' ∧
    part.visit t maker ⟨stack, m⟩ = .ok () ⟨{ value := v } :: stack, m'⟩) ∨
  ∃ e stack' m', e.ofChecks ∧ part.visit t maker ⟨stack, m⟩ = .error e ⟨stack', m'⟩

/-- Computing the value of the part from the values of its arguments asks for a relaxed cast of a
type whose base pointers lead for ever past its target and never back to it. -/
def AsksEndlessCast (part : Part) (m : MakerState ι) : Prop :=
  ∃ src dst m', strict = false ∧ EndlessObjCast t src dst ∧ part.value t strict vals m = .error (.diverges src dst) m'

/-- The first check that succeeds on the part is on literals alone. -/
def Part.Strands (m : MakerState ι) : Part → Prop
  | .argValue arg => strandsArgValue t strict vals m arg
  | .treeNode arg => strandsTreeNode t strict vals m arg
  | .nodeList arg => strandsNodeList t strict vals m arg
  | .literal _ => False

/-- With the flag down, or on a part that gives it nothing to skip, the visit of a part pushes its value or fails in a
check if and only if no cast is endless and the pools have the room, and errors of the stack are not raised at all. Else
a visit that returns has left more than the value. -/
structure MakerRefines (within : List (Request ι) → Prop) (m : MakerState ι) : Prop where
  values : ∀ part : Part, (m.nargError = true → ¬ part.Strands t strict vals m) →
    ((∀ stack, RefinesAt t strict maker vals part stack m) ↔
      ¬ AsksEndlessCast t strict vals part m ∧ within (finalState (part.value t strict vals m)).asked)
  visits : ∀ part : Part, (m.nargError = true → ¬ part.Strands t strict vals m) →
    ∀ (stack : List (StackObj V)) (e : Stop ι) (s : EvalState ι V), part.visit t maker ⟨stack, m⟩ = .error e s → ¬ e.ofStack
  evals : ∀ tree : Tree, (m.nargError = true → ¬ strandsTreeNode t strict vals m tree.root) →
    ∀ (e : Stop ι) (m' : MakerState ι), eval t maker tree m = (.error e, m') → ¬ e.ofStack
  strays : ∀ part : Part, m.nargError = true → part.Strands t strict vals m →
    ∀ (stack : List (StackObj V)) (s : EvalState ι V), part.visit t maker ⟨stack, m⟩ = .ok () s →
      stack.length + 1 < s.stack.length

/-- What a member holds of the value of its argument. -/
inductive Holds : ObjValue ι → Field ι → Prop where
  | node {i : ι} {ptr : Node ι} : Holds (.node i ptr) (.node ptr)
  | list {i : ι} {ptr : List (Node ι)} : Holds (.list i ptr) (.list ptr)
  | cptr {c : CptrType} {ptr : CStr} {field : Field ι} : cptrCast c ptr = .ok field → Holds (.cptr ptr) field

variable {t strict maker vals} {m m' : MakerState ι}

theorem Part.computes (implements : Implements t strict maker vals) (part : Part) (stack : List (StackObj V))
    (free : m.nargError = true → ¬ part.Strands t strict vals m) :
    Computes (part.visit t maker) stack (part.value t strict vals) (fun value => { value } :: stack) m := by
  cases part with
  | argValue value => exact visitArgValue_computes implements value stack m free
  | treeNode node => exact visitTreeNode_computes implements node stack m free
  | nodeList list => exact visitNodeList_computes implements list stack m free
  | literal literal => exact visitLiteral_computes implements literal stack m

theorem Part.visit_strays (implements : Implements t strict maker vals) {part : Part} (stack : List (StackObj V))
    (raised : m.nargError = true) (strands : part.Strands t strict vals m) :
    Strays (part.visit t maker) stack (stack.length + 1) m := by
  cases part with
  | argValue value => exact visitArgValue_strays implements value stack raised strands
  | treeNode node => exact visitTreeNode_strays implements node stack raised strands
  | nodeList list => exact visitNodeList_strays implements list stack raised strands
  | literal literal => exact absurd strands id

omit [DecidableEq ι] in
theorem Part.visit_limited {within : List (Request ι) → Prop} {x y : Maker ι V} (recedes : Receding within)
    (limited : Maker.Limited within x y) (part : Part) : MakerLimited within (part.visit t x) (part.visit t y) := by
  cases part with
  | argValue value => exact visitArgValue_limited recedes limited value
  | treeNode node => exact visitTreeNode_limited recedes limited node
  | nodeList list => exact visitNodeList_limited recedes limited list
  | literal literal => exact visitLiteral_limited limited

theorem Part.value_error (safe : vals.Safe t strict) {part : Part} {e : Stop ι}
    (failed : part.value t strict vals m = .error e m') : e.Expected t strict := by
  cases part with
  | argValue value => exact valueArgValue_error safe failed
  | treeNode node => exact valueTreeNode_error safe failed
  | nodeList list => exact valueNodeList_error safe failed
  | literal literal => cases failed

theorem Part.visit_error (implements : Implements t strict maker vals) {part : Part}
    (free : m.nargError = true → ¬ part.Strands t strict vals m)
    {stack : List (StackObj V)} {e : Stop ι} {s : EvalState ι V} (failed : part.visit t maker ⟨stack, m⟩ = .error e s) :
    part.value t strict vals m = .error e s.maker := by
  have computes := part.computes implements stack free
  cases outcome : part.value t strict vals m with
  | ok v m' => cases (computes.of_ok outcome).symm.trans failed
  | error e' m' =>
    obtain ⟨stack', stopped⟩ := computes.of_error outcome
    cases stopped.symm.trans failed
    rfl

omit [DecidableEq ι] in
theorem Stop.Broke.not_ofChecks {stop : Stop ι} (broke : stop.Broke) : ¬ stop.ofChecks := by
  obtain ⟨what, rfl⟩ := broke
  exact id

omit [DecidableEq ι] in
theorem Stop.Broke.not_ofStack {stop : Stop ι} (broke : stop.Broke) : ¬ stop.ofStack := by
  obtain ⟨what, rfl⟩ := broke
  exact id

omit [DecidableEq ι] in
/-- What a computation asks for is what its value asks for. -/
theorem Computes.asked {run : EvalM ι V Unit} {start : List (StackObj V)} {value : MakerM ι V}
    {final : V → List (StackObj V)} (computes : Computes run start value final m) :
    (finalState (run ⟨start, m⟩)).maker.asked = (finalState (value m)).asked := by
  cases outcome : value m with
  | ok v m' =>
    rw [computes.of_ok outcome]
    rfl
  | error e m' =>
    obtain ⟨stack, stopped⟩ := computes.of_error outcome
    rw [stopped]
    rfl

section Refines
variable {within : List (Request ι) → Prop} {y : Maker ι V} (implements : Implements t strict maker vals)
variable (safe : vals.Safe t strict) (recedes : Receding within) (limited : Maker.Limited within maker y)
variable (served : within m.asked)
include implements recedes limited

/-- Within the limit the visit is the one without, and else it ends with `bad_alloc`. -/
theorem Part.visit_on (served : within m.asked) {part : Part} (free : m.nargError = true → ¬ part.Strands t strict vals m)
    (stack : List (StackObj V)) :
    (within (finalState (part.value t strict vals m)).asked → part.visit t y ⟨stack, m⟩ = part.visit t maker ⟨stack, m⟩) ∧
    (¬ within (finalState (part.value t strict vals m)).asked →
      ∃ stop s, part.visit t y ⟨stack, m⟩ = .error stop s ∧ stop.Broke) := by
  have steps : MakerLimited within (part.visit t maker) (part.visit t y) := part.visit_limited recedes limited
  rw [← (part.computes implements stack free).asked]
  exact ⟨steps.inside ⟨stack, m⟩, steps.beyond ⟨stack, m⟩ served⟩

include safe served

theorem makerRefines : MakerRefines t strict y vals within m where
  values part free := by
    constructor
    · intro refines
      have inside : within (finalState (part.value t strict vals m)).asked := by
        by_contra beyond
        obtain ⟨stop, s, stopped, broke⟩ := (Part.visit_on implements recedes limited served free []).2 beyond
        rcases refines [] with ⟨v, m', -, pushed⟩ | ⟨e, stack', m', checks, failed⟩
        · cases stopped.symm.trans pushed
        · cases stopped.symm.trans failed
          exact broke.not_ofChecks checks
      refine ⟨?_, inside⟩
      rintro ⟨src, dst, m', _, _, stuck⟩
      obtain ⟨stack', stopped⟩ := (part.computes implements [] free).of_error stuck
      rw [← (Part.visit_on implements recedes limited served free []).1 inside] at stopped
      rcases refines [] with ⟨v, m'', valued, _⟩ | ⟨e, stack'', m'', checks, failed⟩
      · rw [stuck] at valued
        cases valued
      · rw [stopped] at failed
        cases failed
        exact checks
    · rintro ⟨returns, inside⟩ stack
      have computes := part.computes implements stack free
      unfold RefinesAt
      rw [(Part.visit_on implements recedes limited served free stack).1 inside]
      cases outcome : part.value t strict vals m with
      | ok v m' => exact .inl ⟨v, m', rfl, computes.of_ok outcome⟩
      | error e m' =>
        obtain ⟨stack', stopped⟩ := computes.of_error outcome
        refine .inr ⟨e, stack', m', ?_, stopped⟩
        have expected := part.value_error safe outcome
        cases e with
        | diverges src dst => exact absurd ⟨src, dst, m', expected.1, expected.2, outcome⟩ returns
        | _ => exact expected
  visits part free stack e s failed := by
    obtain ⟨same, broken⟩ := Part.visit_on implements recedes limited served free stack
    by_cases inside : within (finalState (part.value t strict vals m)).asked
    · rw [same inside] at failed
      exact (Part.value_error safe (Part.visit_error implements free failed)).not_ofStack
    · obtain ⟨stop, s', stopped, broke⟩ := broken inside
      cases stopped.symm.trans failed
      exact broke.not_ofStack
  evals tree free e m' failed := by
    obtain ⟨same, broken⟩ := eval_limited (t := t) recedes limited tree m
    by_cases inside : within (eval t maker tree m).2.asked
    · rw [same inside, eval_run implements tree free] at failed
      split at failed
      next => cases failed
      next e' m'' outcome => cases failed; exact (valueTreeNode_error safe outcome).not_ofStack
    · obtain ⟨stop, stopped, broke⟩ := broken served inside
      rw [failed] at stopped
      cases stopped
      exact broke.not_ofStack
  strays part raised strands stack s returned := by
    have steps : MakerLimited within (part.visit t maker) (part.visit t y) := part.visit_limited recedes limited
    by_cases inside : within (finalState (part.visit t maker ⟨stack, m⟩)).maker.asked
    · rw [steps.inside ⟨stack, m⟩ inside] at returned
      exact (Part.visit_strays implements stack raised strands s returned).2
    · obtain ⟨stop, s', stopped, -⟩ := steps.beyond ⟨stack, m⟩ served inside
      cases stopped.symm.trans returned

end Refines

omit [DecidableEq ι] in
theorem argFields_hold : ∀ {args : List (ArgDef ι)} {values : List (ObjValue ι)} {fields : List (Field ι)},
    args.length = values.length → argFields args values = .ok fields → List.Forall₂ Holds values fields
  | [], [], _, _, made => by cases made; exact .nil
  | arg :: args, value :: values, _, count, made => by
    rw [argFields] at made
    obtain ⟨field, first, made⟩ := except_bind_eq_ok.mp made
    obtain ⟨fields, rest, made⟩ := except_bind_eq_ok.mp made
    cases made
    refine .cons ?_ (argFields_hold (Nat.succ.inj count) rest)
    obtain ⟨name, argType⟩ := arg
    cases argType <;> cases value <;> first | (cases first; done) | skip
    · cases first; exact .node
    · cases first; exact .list
    · exact .cptr first

omit [DecidableEq ι] in
theorem listElems_hold : ∀ {values : List (ObjValue ι)} {elems : List (Node ι)}, listElems values = .ok elems →
    List.Forall₂ (fun value elem => ∃ i, value = .node i elem) values elems
  | [], _, listed => by cases listed; exact .nil
  | value :: values, _, listed => by
    rw [listElems] at listed
    obtain ⟨elem, first, listed⟩ := except_bind_eq_ok.mp listed
    obtain ⟨elems, rest, listed⟩ := except_bind_eq_ok.mp listed
    cases listed
    cases value with
    | node i ptr => cases first; exact .cons ⟨i, rfl⟩ (listElems_hold rest)
    | list _ _ => cases first
    | cptr _ => cases first

end Parts

section Theorem
variable [DecidableEq ι] (t : TypeTable ι) (strict : Bool)

/-- A built node holds the values of its arguments, in order. -/
theorem valueTreeNode_fields {name : NodeName} {args : NodeArgs} {m m' : MakerState ι} {v : ObjValue ι}
    (returned : valueTreeNode t strict (nodeValues t) (.mk name args) m = .ok v m') :
    ∃ objs m₁ type fields, valueNodeArgs t strict (nodeValues t) args m = .ok objs m₁ ∧
      v = .node type (.mk type fields) ∧ List.Forall₂ Holds (objs.map StackObj.value) fields := by
  obtain ⟨objs, m₁, entry, m₂, valued, _, returned⟩ := valueTreeNode_returned returned
  obtain ⟨-, accepts, made⟩ := (nodeFromValues_ok (valueNodeArgs_length valued)).mp returned
  rw [nodeValues_node] at made
  obtain ⟨fields, filled, made⟩ := except_bind_eq_ok.mp made
  cases made
  refine ⟨objs, m₁, _, fields, valued, rfl, argFields_hold ?_ filled⟩
  rw [List.length_map]
  exact accepts.casts.length_eq

/-- A built list holds the values of its elements, in order. -/
theorem valueNodeList_elems {base : NodeName} {elems : List ListElem} {m m' : MakerState ι} {v : ObjValue ι}
    (returned : valueNodeList t strict (nodeValues t) (.mk base elems) m = .ok v m') :
    ∃ values m₁ type nodes, valueListElems t strict (nodeValues t) elems 0 m = .ok values m₁ ∧
      v = .list type nodes ∧ List.Forall₂ (fun value node => ∃ i, value = .node i node) values nodes := by
  obtain ⟨values, m₁, entry, m₂, valued, _, returned⟩ := valueNodeList_returned returned
  obtain ⟨-, -, made⟩ := listFromValues_ok.mp returned
  rw [nodeValues_list] at made
  obtain ⟨nodes, listed, made⟩ := except_bind_eq_ok.mp made
  cases made
  exact ⟨values, m₁, _, nodes, valued, rfl, listElems_hold listed⟩

/-- For every table, cast mode and state of a maker the visits refine the evaluation from the bottom up, for the node
maker on pools of any capacity; and what is built holds the values of its parts in source order. -/
theorem evaluator_refines_values (classes : Classes ι) (pools : Pools) (m : MakerState ι)
    (served : Serve classes pools m.asked) :
    MakerRefines t strict (TypeMaker t strict) typeValues (fun _ => True) m ∧
    MakerRefines t strict (NodeMaker.on t strict (demand classes pools)) (nodeValues t) (Serve classes pools) m ∧
    (∀ name args m m' v, valueTreeNode t strict (nodeValues t) (.mk name args) m = .ok v m' →
      ∃ objs m₁ type fields, valueNodeArgs t strict (nodeValues t) args m = .ok objs m₁ ∧
        v = .node type (.mk type fields) ∧ List.Forall₂ Holds (objs.map StackObj.value) fields) ∧
    ∀ base elems m m' v, valueNodeList t strict (nodeValues t) (.mk base elems) m = .ok v m' →
      ∃ values m₁ type nodes, valueListElems t strict (nodeValues t) elems 0 m = .ok values m₁ ∧
        v = .list type nodes ∧ List.Forall₂ (fun value node => ∃ i, value = .node i node) values nodes := by
  refine ⟨?_, ?_, ?_, ?_⟩
  · exact makerRefines (typeMaker_implements t strict) typeValues_safe (fun _ _ => id) typeMaker_limited trivial
  · exact makerRefines (nodeMaker_implements t strict) nodeValues_safe serve_recedes nodeMaker_limited served
  · exact fun name args m m' v returned => valueTreeNode_fields t strict returned
  · exact fun base elems m m' v returned => valueNodeList_elems t strict returned

end Theorem

/-- `A` derives from `B` and `B` from itself: the walk from `A` never comes back to `A`. -/
def lasso : TypeTable (Fin 3) := selfBased

/-- `list<C>` of a number of nodes `C()`. -/
def lassoList (n : Nat) : Part :=
  .nodeList (.mk ⟨"C".toList⟩ ((List.range n).map fun k => .mk (UInt8.ofNat k) (.mk ⟨"C".toList⟩ (.listArgs []))))

/-- With pools for two nodes a list of two is built, and one of three is not. -/
theorem evaluator_refines_values_lasso :
    let maker := NodeMaker.on lasso true (demand ⟨fun _ => 24, fun _ => ⟨3⟩⟩ ⟨⟨2, 64, 64, 64, [], false⟩, ⟨2, 64, 64, 64, [], false⟩⟩)
    (∀ stack, RefinesAt lasso true maker (nodeValues lasso) (lassoList 2) stack {}) ∧
      ¬ ∀ stack, RefinesAt lasso true maker (nodeValues lasso) (lassoList 3) stack {} := by
  intro maker
  have values := (evaluator_refines_values lasso true ⟨fun _ => 24, fun _ => ⟨3⟩⟩
    ⟨⟨2, 64, 64, 64, [], false⟩, ⟨2, 64, 64, 64, [], false⟩⟩ {} rfl).2.1.values
  have strict (part : Part) : ¬ AsksEndlessCast lasso true (nodeValues lasso) part {} := nofun
  constructor
  · exact (values (lassoList 2) nofun).mpr ⟨strict _, by decide⟩
  · exact fun refines => absurd ((values (lassoList 3) nofun).mp refines).2 (by decide)

/-- `list<C>[[0]=A()]` under relaxed casts. -/
theorem evaluator_refines_not_lasso : ¬ ∀ (part : Part) (stack : List (StackObj (ObjType (Fin 3)))),
    RefinesAt lasso false (TypeMaker lasso false) typeValues part stack {} := by
  intro refines
  have whole : MakerRefines lasso false (TypeMaker lasso false) typeValues (fun _ => True) {} :=
    makerRefines (typeMaker_implements lasso false) typeValues_safe (fun _ _ => id) typeMaker_limited trivial
  have only := whole.values (.nodeList (.mk ⟨"C".toList⟩ [.mk 0 (.mk ⟨"A".toList⟩ (.listArgs []))])) nofun
  have endless : lasso.typeCast false 2 0 = .diverges := by decide
  refine (only.mp fun stack => refines _ stack).1 ⟨.node 0, .node 2, { cache := some ⟨"C".toList, 2⟩ }, rfl, ?_, rfl⟩
  exact .node (TypeTable.typeCast_diverges_iff.mp endless).2

end CxxpyTree.Obj
