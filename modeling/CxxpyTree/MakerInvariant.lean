import CxxpyTree.MakerRun

/-! What an evaluation keeps of its maker: an invariant that does not look at the flag holds to its end if the steps of
the maker keep it. -/

namespace CxxpyTree.Obj
open Machine

variable {ι V α : Type} {I : MakerState ι → Prop}

/-- The invariant holds of the maker in the end, also where the program stops. -/
abbrev KeepsMaker (I : MakerState ι → Prop) (x : EvalM ι V α) : Prop := Keeps (fun s => I s.maker) x

theorem withMaker_keeps {step : MakerM ι α} (kept : Keeps I step) : KeepsMaker (V := V) I (withMaker step) := by
  intro s held
  have stepped := withMaker_run step s.stack (m := s.maker)
  have kept := kept s.maker held
  unfold wp at kept ⊢
  rw [stepped]
  cases outcome : step s.maker <;> (rw [outcome] at kept; exact kept)

theorem check_keeps {answer : Except (Stop ι) α} : KeepsMaker (V := V) I (check answer) := by
  cases answer with
  | ok a => exact Keeps.pure
  | error stop => exact Keeps.throw

theorem stackAt_keeps {k : Nat} : KeepsMaker (V := V) I (stackAt k) := by
  refine Keeps.get.bind fun s => ?_
  cases s.stack[k]? with
  | some obj => exact Keeps.pure
  | none => exact Keeps.throw

theorem top_keeps : KeepsMaker (V := V) I top := by
  refine Keeps.get.bind fun s => ?_
  cases s.stack with
  | nil => exact Keeps.throw
  | cons obj stack => exact Keeps.pure

theorem pop_keeps {n : Nat} : KeepsMaker (V := V) I (pop n) := by
  intro s held
  unfold pop error
  simp only [wp_bind, wp_get, wp_ite]
  exact ⟨fun _ => held, fun _ => held⟩

theorem push_keeps {obj : StackObj V} : KeepsMaker I (push obj) := Keeps.modify fun _ held => held

theorem visitArgName_keeps {name : ArgName} : KeepsMaker (V := V) I (visitArgName name) := by
  refine top_keeps.bind fun obj => ?_
  cases obj.name with
  | some name => exact Keeps.throw
  | none => exact Keeps.modify fun _ held => held

section Flag
variable (blind : ∀ m nargError, I m → I { m with nargError })
include blind

theorem popArgs_keeps {n : Nat} : KeepsMaker (V := V) I (popArgs n) := by
  intro s held
  unfold popArgs
  simp only [wp_bind, wp_get, wp_ite]
  exact ⟨fun _ => ⟨fun _ => pop_keeps s held, fun _ => held⟩, fun _ => blind _ _ held⟩

theorem setNargError_keeps : KeepsMaker (V := V) I setNargError := Keeps.modify fun _ held => blind _ _ held

theorem checked_keeps {init : EvalM ι V Unit} {n : Nat} {body : EvalM ι V α} (first : KeepsMaker I init)
    (inside : KeepsMaker I body) : KeepsMaker I (checked init n body) :=
  first.bind fun _ => inside.destructing (popArgs_keeps blind)

end Flag

section Checks
variable [DecidableEq ι] {t : TypeTable ι} {strict : Bool} {objType : V → ObjType ι} {type : ι}

theorem checkNodeArgsLoop_keeps : ∀ {args : List (ArgDef ι)} {k : Nat},
    KeepsMaker I (checkNodeArgsLoop t strict objType type args k)
  | [], _ => Keeps.pure
  | _ :: _, _ => stackAt_keeps.bind fun _ => check_keeps.bind fun _ => checkNodeArgsLoop_keeps

theorem checkNodeArgs_keeps (blind : ∀ m nargError, I m → I { m with nargError }) {node : TreeNode} :
    KeepsMaker I (checkNodeArgs t strict objType type node) := by
  obtain ⟨name, args⟩ := node
  cases args with
  | literalArgs literal =>
    refine Keeps.ite ((setNargError_keeps blind).bind fun _ => Keeps.throw) ?_
    cases (t.astType type).args with
    | nil => exact Keeps.pure
    | cons arg args => exact stackAt_keeps.bind fun _ => check_keeps
  | listArgs list => exact Keeps.ite ((setNargError_keeps blind).bind fun _ => Keeps.throw) checkNodeArgsLoop_keeps

theorem checkListArgsLoop_keeps {n : Nat} : ∀ {k : Nat}, KeepsMaker I (checkListArgsLoop t strict objType type n k)
  | 0 => Keeps.pure
  | _ + 1 => stackAt_keeps.bind fun _ => check_keeps.bind fun _ => checkListArgsLoop_keeps

theorem checkListArgs_keeps {list : NodeList} : KeepsMaker I (checkListArgs t strict objType type list) := by
  cases list
  exact checkListArgsLoop_keeps

omit [DecidableEq ι] in
theorem newNodeArgs_keeps : ∀ {args : List (ArgDef ι)} {k : Nat}, KeepsMaker I (newNodeArgs t type args k)
  | [], _ => Keeps.pure
  | _ :: _, _ => stackAt_keeps.bind fun _ => check_keeps.bind fun _ => newNodeArgs_keeps.bind fun _ => Keeps.pure

omit [DecidableEq ι] in
theorem newListElems_keeps : ∀ {k : Nat}, KeepsMaker I (newListElems k)
  | 0 => Keeps.pure
  | _ + 1 => stackAt_keeps.bind fun _ => check_keeps.bind fun _ => newListElems_keeps.bind fun _ => Keeps.pure

end Checks

/-- The functions of a maker keep the invariant. -/
structure Maker.Keeps (I : MakerState ι → Prop) (maker : Maker ι V) : Prop where
  node : ∀ type node, KeepsMaker I (maker.newNode type node)
  list : ∀ type list, KeepsMaker I (maker.newList type list)

section Makers
variable [DecidableEq ι] {t : TypeTable ι} {strict : Bool} (blind : ∀ m nargError, I m → I { m with nargError })
include blind

theorem typeMaker_keeps : (TypeMaker t strict).Keeps I where
  node _ _ := (checked_keeps blind (checkNodeArgs_keeps blind) .pure).bind fun _ => .pure
  list _ list := by
    cases list
    exact (checked_keeps blind checkListArgs_keeps .pure).bind fun _ => .pure

omit [DecidableEq ι] blind in
theorem forM_keeps {ask : Request ι → MakerM ι Unit} (asks : ∀ req, Machine.Keeps I (ask req)) :
    ∀ {reqs : List (Request ι)}, Machine.Keeps I (reqs.forM ask)
  | [] => .pure
  | req :: _ => (asks req).bind fun _ => forM_keeps asks

theorem nodeMaker_keeps {ask : Request ι → MakerM ι Unit} (asks : ∀ req, Machine.Keeps I (ask req))
    (made : ∀ m ast, I m → I { m with ast }) : (NodeMaker.on t strict ask).Keeps I where
  node _ _ := checked_keeps blind (checkNodeArgs_keeps blind) (newNodeArgs_keeps.bind fun _ =>
    withMaker_keeps ((forM_keeps asks).bind fun _ => (Machine.Keeps.modify fun m held => made m _ held).bind fun _ => .pure))
  list _ list := by
    cases list
    exact checked_keeps blind checkListArgs_keeps ((withMaker_keeps (forM_keeps asks)).bind fun _ =>
      newListElems_keeps.bind fun _ => .pure)

end Makers

section Visits
variable {t : TypeTable ι} {maker : Maker ι V} (keeps : maker.Keeps I) (finds : ∀ name, Keeps I (t.find name))
include keeps finds

theorem makeNode_keeps {node : TreeNode} : KeepsMaker I (makeNode t maker node) := by
  cases node
  exact (withMaker_keeps (finds _)).bind fun _ => keeps.node _ _

theorem makeList_keeps {list : NodeList} : KeepsMaker I (makeList t maker list) := by
  cases list
  exact (withMaker_keeps (finds _)).bind fun _ => keeps.list _ _

set_option linter.unusedSectionVars false in
mutual

theorem visitTreeNode_keeps (node : TreeNode) : KeepsMaker I (visitTreeNode t maker node) := by
  cases node with
  | mk name args =>
    rw [visitTreeNode]
    exact (visitNodeArgs_keeps args).bind fun _ => (makeNode_keeps keeps finds).bind fun _ => push_keeps
  termination_by structural node

theorem visitNodeArgs_keeps (args : NodeArgs) : KeepsMaker I (visitNodeArgs t maker args) := by
  cases args with
  | listArgs list =>
    rw [visitNodeArgs]
    exact visitNodeArgList_keeps list
  | literalArgs literal =>
    rw [visitNodeArgs]
    exact push_keeps
  termination_by structural args

theorem visitNodeArgList_keeps (list : List NodeArg) : KeepsMaker I (visitNodeArgList t maker list) := by
  cases list with
  | nil =>
    rw [visitNodeArgList]
    exact Keeps.pure
  | cons arg list =>
    rw [visitNodeArgList]
    exact (visitNodeArg_keeps arg).bind fun _ => visitNodeArgList_keeps list
  termination_by structural list

theorem visitNodeArg_keeps (arg : NodeArg) : KeepsMaker I (visitNodeArg t maker arg) := by
  cases arg with
  | mk name value =>
    rw [visitNodeArg]
    exact (visitArgValue_keeps value).bind fun _ => visitArgName_keeps
  termination_by structural arg

theorem visitArgValue_keeps (arg : ArgValue) : KeepsMaker I (visitArgValue t maker arg) := by
  cases arg with
  | nodeValue node =>
    rw [visitArgValue]
    exact visitTreeNode_keeps node
  | listValue list =>
    rw [visitArgValue]
    exact visitNodeList_keeps list
  | literalValue literal =>
    rw [visitArgValue]
    exact push_keeps
  termination_by structural arg

theorem visitNodeList_keeps (list : NodeList) : KeepsMaker I (visitNodeList t maker list) := by
  cases list with
  | mk base elems =>
    rw [visitNodeList]
    exact (visitListElems_keeps elems 0).bind fun _ => (makeList_keeps keeps finds).bind fun _ => push_keeps
  termination_by structural list

theorem visitListElems_keeps (elems : List ListElem) (k : Nat) : KeepsMaker I (visitListElems t maker elems k) := by
  cases elems with
  | nil =>
    rw [visitListElems]
    exact Keeps.pure
  | cons elem elems =>
    rw [visitListElems]
    exact (visitListElem_keeps elem k).bind fun _ => visitListElems_keeps elems (k + 1)
  termination_by structural elems

theorem visitListElem_keeps (elem : ListElem) (k : Nat) : KeepsMaker I (visitListElem t maker elem k) := by
  cases elem with
  | mk index node =>
    rw [visitListElem]
    exact Keeps.ite (Keeps.throw.bind fun _ => visitTreeNode_keeps node) (visitTreeNode_keeps node)
  termination_by structural elem

end

theorem evalTree_keeps (tree : Tree) : KeepsMaker I (evalTree t maker tree) := by
  refine (visitTreeNode_keeps keeps finds tree.root).bind fun _ => Keeps.get.bind fun s => ?_
  -- The same calls follow on either side of the check.
  refine Keeps.ite (Keeps.throw.bind fun _ => ?_) ?_
  all_goals
    refine top_keeps.bind fun obj => ?_
    cases maker.objType obj.value with
    | node _ => exact Keeps.pure
    | list _ => exact Keeps.throw
    | cptr _ => exact Keeps.throw

theorem eval_keeps (tree : Tree) {m : MakerState ι} (held : I m) : I (eval t maker tree m).2 := by
  have kept := evalTree_keeps keeps finds tree { stack := [], maker := m } held
  unfold wp at kept
  unfold eval
  cases outcome : evalTree t maker tree { stack := [], maker := m } <;> (rw [outcome] at kept; exact kept)

end Visits

end CxxpyTree.Obj
