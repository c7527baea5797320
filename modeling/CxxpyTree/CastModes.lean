import CxxpyTree.Lib.TwoRuns
import CxxpyTree.ValueChecks

/-! Strict and relaxed casts side by side: what an evaluation accepts under strict casts it accepts
under relaxed casts, with the same result. -/

namespace CxxpyTree.Obj
open Machine

variable {ι V : Type}

theorem check_extends {σ : Type} {x y : Except (Stop ι) Unit} (passes : x = .ok () → y = .ok ()) :
    Extends (check x : EStateM (Stop ι) σ Unit) (check y) := by
  intro s a s' returned
  cases x with
  | error stop => cases returned
  | ok =>
    rw [passes rfl]
    exact returned

theorem checked_extends {α : Type} {init init' : EvalM ι V Unit} {n : Nat} {body : EvalM ι V α}
    (inits : Extends init init') : Extends (checked init n body) (checked init' n body) :=
  inits.bind fun _ => .refl _

section Casts
variable [DecidableEq ι] {t : TypeTable ι}

/-- The walk up the base types starts at the source itself. -/
theorem typeCast_relaxes {dst src : ι} (cast : t.typeCast true dst src = .yes) : t.typeCast false dst src = .yes := by
  have same : src = dst := TypeTable.typeCast_strict_iff.mp cast
  obtain ⟨fuel, steps⟩ := Nat.exists_eq_add_one.mpr (List.length_pos_of_mem (t.complete src))
  change t.castLoop dst src t.types.length src = .yes
  rw [steps, TypeTable.castLoop, if_pos same]

theorem listTypeCast_relaxes {dst : ι} {src : ObjType ι} (cast : t.listTypeCast true dst src = .yes) :
    t.listTypeCast false dst src = .yes := by
  obtain ⟨i, rfl, same⟩ := TypeTable.listTypeCast_cases cast (by decide)
  exact typeCast_relaxes same

theorem objTypeCast_relaxes {dst src : ObjType ι} (cast : t.objTypeCast true dst src = .yes) :
    t.objTypeCast false dst src = .yes := by
  rcases TypeTable.objTypeCast_cases cast (by decide) with ⟨i, j, rfl, rfl, same⟩ | ⟨i, j, rfl, rfl, same⟩ | ⟨c, d, rfl, rfl, -⟩
  · exact typeCast_relaxes same
  · exact typeCast_relaxes same
  · rfl

variable {objType : V → ObjType ι} {type : ι}

theorem checkNodeArgValue_relaxes {arg : ArgDef ι} {k : Nat} {value : ObjType ι}
    (passed : checkNodeArgValue t true type arg k value = .ok ()) :
    checkNodeArgValue t false type arg k value = .ok () :=
  checkNodeArgValue_ok.mpr (objTypeCast_relaxes (checkNodeArgValue_ok.mp passed))

theorem checkNodeArg_relaxes {arg : ArgDef ι} {k : Nat} {obj : StackObj V}
    (passed : checkNodeArg t true objType type arg k obj = .ok ()) :
    checkNodeArg t false objType type arg k obj = .ok () := by
  obtain ⟨named, cast⟩ := checkNodeArg_ok.mp passed
  exact checkNodeArg_ok.mpr ⟨named, objTypeCast_relaxes cast⟩

theorem checkListArg_relaxes {k : Nat} {value : ObjType ι} (passed : checkListArg t true type k value = .ok ()) :
    checkListArg t false type k value = .ok () :=
  checkListArg_ok.mpr (listTypeCast_relaxes (checkListArg_ok.mp passed))

theorem checkNodeArgsLoop_extends : ∀ (args : List (ArgDef ι)) (k : Nat),
    Extends (checkNodeArgsLoop t true objType type args k) (checkNodeArgsLoop t false objType type args k)
  | [], _ => .refl _
  | _ :: args, k => by
    apply Extends.bind (.refl _)
    intro obj
    apply Extends.bind (check_extends checkNodeArg_relaxes)
    exact fun _ => checkNodeArgsLoop_extends args (k - 1)

theorem checkNodeArgs_extends (node : TreeNode) :
    Extends (checkNodeArgs t true objType type node) (checkNodeArgs t false objType type node) := by
  rcases node with ⟨name, list | literal⟩
  · apply Extends.ite (.refl _)
    exact checkNodeArgsLoop_extends _ _
  · apply Extends.ite (.refl _)
    cases (t.astType type).args with
    | nil => exact .refl _
    | cons arg args => exact (Extends.refl _).bind fun _ => check_extends checkNodeArgValue_relaxes

theorem checkListArgsLoop_extends (n : Nat) : ∀ k : Nat,
    Extends (checkListArgsLoop t true objType type n k) (checkListArgsLoop t false objType type n k)
  | 0 => .refl _
  | k + 1 => by
    apply Extends.bind (.refl _)
    intro obj
    apply Extends.bind (check_extends checkListArg_relaxes)
    exact fun _ => checkListArgsLoop_extends n k

theorem checkListArgs_extends (list : NodeList) :
    Extends (checkListArgs t true objType type list) (checkListArgs t false objType type list) := by
  cases list with
  | mk base elems => exact checkListArgsLoop_extends _ _

end Casts

/-- The makers push the same literals and see the same types; what the one makes the other makes too. -/
structure Maker.Extends (narrow wide : Maker ι V) : Prop where
  objType : narrow.objType = wide.objType
  makeCptr : narrow.makeCptr = wide.makeCptr
  newNode : ∀ type node, Machine.Extends (narrow.newNode type node) (wide.newNode type node)
  newList : ∀ type list, Machine.Extends (narrow.newList type list) (wide.newList type list)

section Makers
variable [DecidableEq ι] (t : TypeTable ι)

theorem typeMaker_extends : (TypeMaker t true).Extends (TypeMaker t false) where
  objType := rfl
  makeCptr := rfl
  newNode _ node := (checked_extends (checkNodeArgs_extends node)).bind fun _ => .refl _
  newList _ list := by
    cases list with
    | mk base elems => exact (checked_extends (checkListArgs_extends _)).bind fun _ => .refl _

theorem nodeMaker_extends : (NodeMaker t true).Extends (NodeMaker t false) where
  objType := rfl
  makeCptr := rfl
  newNode _ node := checked_extends (checkNodeArgs_extends node)
  newList _ list := by
    cases list with
    | mk base elems => exact checked_extends (checkListArgs_extends _)

end Makers

section Visit
variable {t : TypeTable ι} {narrow wide : Maker ι V} (makers : narrow.Extends wide)
include makers

theorem makeNode_extends (node : TreeNode) : Extends (makeNode t narrow node) (makeNode t wide node) := by
  cases node with
  | mk name args =>
    apply Extends.bind (.refl _)
    exact fun entry => makers.newNode entry.type _

theorem makeList_extends (list : NodeList) : Extends (makeList t narrow list) (makeList t wide list) := by
  cases list with
  | mk base elems =>
    apply Extends.bind (.refl _)
    exact fun entry => makers.newList entry.type _

theorem visitLiteral_extends (literal : Literal) : Extends (visitLiteral narrow literal) (visitLiteral wide literal) := by
  unfold visitLiteral
  rw [makers.makeCptr]
  exact .refl _

set_option linter.unusedSectionVars false in
mutual

theorem visitTreeNode_extends : ∀ node : TreeNode, Extends (visitTreeNode t narrow node) (visitTreeNode t wide node)
  | .mk name args => by
    unfold visitTreeNode
    apply Extends.bind (visitNodeArgs_extends args)
    exact fun _ => (makeNode_extends makers _).bind fun _ => .refl _
  termination_by structural node => node

theorem visitNodeArgs_extends : ∀ args : NodeArgs, Extends (visitNodeArgs t narrow args) (visitNodeArgs t wide args)
  | .listArgs list => by
    unfold visitNodeArgs
    exact visitNodeArgList_extends list
  | .literalArgs literal => by
    unfold visitNodeArgs
    exact visitLiteral_extends makers literal
  termination_by structural args => args

theorem visitNodeArgList_extends : ∀ list : List NodeArg,
    Extends (visitNodeArgList t narrow list) (visitNodeArgList t wide list)
  | [] => by
    unfold visitNodeArgList
    exact .refl _
  | arg :: list => by
    unfold visitNodeArgList
    apply Extends.bind (visitNodeArg_extends arg)
    exact fun _ => visitNodeArgList_extends list
  termination_by structural list => list

theorem visitNodeArg_extends : ∀ arg : NodeArg, Extends (visitNodeArg t narrow arg) (visitNodeArg t wide arg)
  | .mk name value => by
    unfold visitNodeArg
    apply Extends.bind (visitArgValue_extends value)
    exact fun _ => .refl _
  termination_by structural arg => arg

theorem visitArgValue_extends : ∀ value : ArgValue,
    Extends (visitArgValue t narrow value) (visitArgValue t wide value)
  | .nodeValue node => by
    unfold visitArgValue
    exact visitTreeNode_extends node
  | .listValue list => by
    unfold visitArgValue
    exact visitNodeList_extends list
  | .literalValue literal => by
    unfold visitArgValue
    exact visitLiteral_extends makers literal
  termination_by structural value => value

theorem visitNodeList_extends : ∀ list : NodeList, Extends (visitNodeList t narrow list) (visitNodeList t wide list)
  | .mk base elems => by
    unfold visitNodeList
    apply Extends.bind (visitListElems_extends elems 0)
    exact fun _ => (makeList_extends makers _).bind fun _ => .refl _
  termination_by structural list => list

theorem visitListElems_extends : ∀ (elems : List ListElem) (k : Nat),
    Extends (visitListElems t narrow elems k) (visitListElems t wide elems k)
  | [], k => by
    unfold visitListElems
    exact .refl _
  | elem :: elems, k => by
    unfold visitListElems
    apply Extends.bind (visitListElem_extends elem k)
    exact fun _ => visitListElems_extends elems (k + 1)
  termination_by structural elems => elems

theorem visitListElem_extends : ∀ (elem : ListElem) (k : Nat),
    Extends (visitListElem t narrow elem k) (visitListElem t wide elem k)
  | .mk index node, k => by
    unfold visitListElem
    apply Extends.ite (.refl _)
    exact visitTreeNode_extends node
  termination_by structural elem => elem

end

theorem evalTree_extends (tree : Tree) : Extends (evalTree t narrow tree) (evalTree t wide tree) := by
  unfold evalTree
  rw [makers.objType]
  apply Extends.bind (visitTreeNode_extends makers tree.root)
  exact fun _ => .refl _

theorem eval_extends {tree : Tree} {m m' : MakerState ι} {v : V}
    (evaluated : eval t narrow tree m = (.ok v, m')) : eval t wide tree m = (.ok v, m') := by
  unfold eval at evaluated ⊢
  cases run : evalTree t narrow tree { stack := [], maker := m } with
  | error stop s =>
    rw [run] at evaluated
    cases evaluated
  | ok value s =>
    rw [run] at evaluated
    rw [evalTree_extends makers tree _ _ _ run]
    exact evaluated

end Visit

section Accepted
variable [DecidableEq ι] (t : TypeTable ι) (tree : Tree) (m : MakerState ι)

/-- What an evaluation accepts under strict casts it accepts under relaxed ones: it returns the same
type or the same object, and leaves the maker in the same state. -/
theorem relaxed_of_strict :
    (∀ type m', eval t (TypeMaker t true) tree m = (.ok type, m') →
      eval t (TypeMaker t false) tree m = (.ok type, m')) ∧
    ∀ obj m', eval t (NodeMaker t true) tree m = (.ok obj, m') →
      eval t (NodeMaker t false) tree m = (.ok obj, m') :=
  ⟨fun _ _ => eval_extends (typeMaker_extends t), fun _ _ => eval_extends (nodeMaker_extends t)⟩

end Accepted

/-- A type that is its own base, with a member of that type. -/
def ringTable : TypeTable Bool where
  types := [false, true]
  complete := mem_false_true
  astType
    | false => ⟨"E".toList, none, []⟩
    | true => ⟨"R".toList, some true, [⟨"e".toList, .list false⟩]⟩
  newFuncs := [⟨"E".toList, false⟩, ⟨"R".toList, true⟩]

/-- `R(.e=list<E>([0]=E()))`. -/
def ringTree : Tree :=
  ⟨.mk ⟨"R".toList⟩ (.listArgs [.mk ⟨"e".toList⟩ (.listValue (.mk ⟨"E".toList⟩
    [.mk 0 (.mk ⟨"E".toList⟩ (.listArgs []))]))])⟩

theorem relaxed_of_strict_ring :
    (eval ringTable (TypeMaker ringTable false) ringTree {}).1 = .ok (.node true) ∧
      (eval ringTable (NodeMaker ringTable false) ringTree {}).1 = .ok (.node true (.mk true [.list [.mk false []]])) :=
  ⟨congrArg Prod.fst ((relaxed_of_strict ringTable ringTree {}).1 _ _ rfl),
    congrArg Prod.fst ((relaxed_of_strict ringTable ringTree {}).2 _ _ rfl)⟩

end CxxpyTree.Obj
