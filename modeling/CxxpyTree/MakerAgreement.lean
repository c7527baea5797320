import CxxpyTree.BuiltNodes
import CxxpyTree.EvaluatorRefinement
import CxxpyTree.Lib.TwoRuns

/-! The type maker against the node maker. The checks look at types only, so the two decide alike
until a literal has to be read as the C value that its parameter stands for. -/

namespace CxxpyTree.Obj
open Machine

variable {ι : Type}

/-- The texts that `cptr_def_t<T>::cast` has a value for. -/
def CptrAccepts : CptrType → CStr → Prop
  | .charPtr, _ => True
  | .bool, text => text = ['0'] ∨ text = ['1']
  | .compOp, text => ∃ op : CompOp, op.name = text

def ArgAccepted : ArgDef ι → ArgValue → Prop
  | ⟨_, .cptr c⟩, .literalValue literal => CptrAccepts c literal.str
  | _, _ => True

/-- Every literal bound to a C pointer by a node among `nodes` is accepted by its cast. -/
def LiteralsAccepted (t : TypeTable ι) (nodes : List AstNode) : Prop :=
  ∀ name args, AstNode.treeNode (.mk name args) ∈ nodes → ∀ entry, t.lookup name.ident = .ok entry →
    ∀ pair ∈ (t.astType entry.type).args.zip (argValues args), ArgAccepted pair.1 pair.2

theorem compOp_lookup_some {text : CStr} : (CompOp.lookup text).isSome ↔ ∃ op : CompOp, op.name = text := by
  unfold CompOp.lookup
  rw [List.find?_isSome]
  constructor
  · rintro ⟨op, _, same⟩
    exact ⟨op, of_decide_eq_true same⟩
  · rintro ⟨op, same⟩
    exact ⟨op, by cases op <;> simp, decide_eq_true same⟩

theorem cptrCast_ok {c : CptrType} {text : CStr} :
    (∃ field, cptrCast (ι := ι) c text = .ok field) ↔ CptrAccepts c text := by
  cases c with
  | charPtr => exact iff_of_true ⟨_, rfl⟩ trivial
  | bool =>
    rw [cptrCast, CptrAccepts]
    by_cases accepted : text = ['0'] ∨ text = ['1']
    · rw [if_neg (by tauto)]
      exact iff_of_true ⟨_, rfl⟩ accepted
    · rw [if_pos (by tauto)]
      refine iff_of_false ?_ accepted
      rintro ⟨_, ⟨⟩⟩
  | compOp =>
    rw [cptrCast, CptrAccepts, ← compOp_lookup_some]
    cases CompOp.lookup text with
    | some op => exact iff_of_true ⟨_, rfl⟩ rfl
    | none =>
      refine iff_of_false ?_ (by simp)
      rintro ⟨_, ⟨⟩⟩

section Accepted
variable {t : TypeTable ι} {nodes nodes' : List AstNode}

@[simp] theorem literalsAccepted_append :
    LiteralsAccepted t (nodes ++ nodes') ↔ LiteralsAccepted t nodes ∧ LiteralsAccepted t nodes' := by
  unfold LiteralsAccepted
  simp only [List.mem_append, or_imp, forall_and]

@[simp] theorem literalsAccepted_cons {node : AstNode} (other : ∀ src, AstNode.treeNode src ≠ node) :
    LiteralsAccepted t (node :: nodes) ↔ LiteralsAccepted t nodes := by
  unfold LiteralsAccepted
  simp only [List.mem_cons, other, false_or]

@[simp] theorem literalsAccepted_nil : LiteralsAccepted t [] := by
  intro name args member
  cases member

/-- What a node asks for beside its arguments. -/
theorem literalsAccepted_node {name : NodeName} {args : NodeArgs} :
    LiteralsAccepted t (TreeNode.mk name args).nodes ↔ LiteralsAccepted t args.nodes ∧
      ∀ entry, t.lookup name.ident = .ok entry →
        ∀ pair ∈ (t.astType entry.type).args.zip (argValues args), ArgAccepted pair.1 pair.2 := by
  rw [TreeNode.nodes, literalsAccepted_append]
  refine and_congr (by simp [NodeName.nodes]) ⟨fun accepted => ?_, fun accepted => ?_⟩
  · exact accepted name args (List.mem_singleton_self _)
  · intro name' args' member
    cases List.mem_singleton.mp member
    exact accepted

end Accepted

/-- The value of an argument as the arguments of a node hold it: a literal by its text. -/
def Bound : ArgValue → ObjValue ι → Prop
  | .nodeValue _, .node _ _ => True
  | .listValue _, .list _ _ => True
  | .literalValue literal, .cptr ptr => ptr = literal.str
  | _, _ => False

def StackObj.erase (obj : StackObj (ObjValue ι)) : StackObj (ObjType ι) := { name := obj.name, value := obj.value.type }

/-- The arguments on the two sides. -/
structure SameArgs (values : List ArgValue) (types : List (StackObj (ObjType ι))) (objs : List (StackObj (ObjValue ι))) :
    Prop where
  erased : types = objs.map StackObj.erase
  bound : List.Forall₂ (fun value obj => Bound value obj.value) values objs

section Casts
variable [DecidableEq ι] {t : TypeTable ι} {strict : Bool}

theorem accepts_erase {type : ι} {args : NodeArgs} {objs : List (StackObj (ObjValue ι))} :
    Accepts t strict id type args (objs.map StackObj.erase) ↔ Accepts t strict ObjValue.type type args objs := by
  cases args <;> exact List.forall₂_map_right_iff

theorem argField_ok {arg : ArgDef ι} {value : ArgValue} {v : ObjValue ι} (bound : Bound value v)
    (cast : t.objTypeCast strict arg.argType v.type = .yes) :
    (∃ field, argField arg.argType v = .ok field) ↔ ArgAccepted arg value := by
  obtain ⟨name, argType⟩ := arg
  dsimp only at cast
  rcases castValue_cases cast with ⟨T, i, ptr, rfl, rfl, -⟩ | ⟨T, i, elems, rfl, rfl, -⟩ | ⟨c, ptr, rfl, rfl⟩
  · cases value with
    | nodeValue _ => exact iff_of_true ⟨_, rfl⟩ trivial
    | listValue _ => cases bound
    | literalValue _ => cases bound
  · cases value with
    | listValue _ => exact iff_of_true ⟨_, rfl⟩ trivial
    | nodeValue _ => cases bound
    | literalValue _ => cases bound
  · cases value with
    | literalValue literal =>
      obtain rfl : ptr = literal.str := bound
      exact cptrCast_ok
    | nodeValue _ => cases bound
    | listValue _ => cases bound

theorem argFields_ok : ∀ {args : List (ArgDef ι)} {values : List ArgValue} {objs : List (StackObj (ObjValue ι))},
    List.Forall₂ (fun arg obj => t.objTypeCast strict arg.argType obj.value.type = .yes) args objs →
    List.Forall₂ (fun value obj => Bound value obj.value) values objs →
    ((∃ fields, argFields args (objs.map StackObj.value) = .ok fields) ↔
      ∀ pair ∈ args.zip values, ArgAccepted pair.1 pair.2)
  | _, _, [], .nil, .nil => iff_of_true ⟨_, rfl⟩ (by simp)
  | _, _, obj :: objs, .cons cast casts, .cons bound bounds => by
    rw [List.zip_cons_cons, List.forall_mem_cons, ← argFields_ok casts bounds, ← argField_ok bound cast,
      List.map_cons, argFields]
    constructor
    · rintro ⟨_, made⟩
      obtain ⟨field, first, made⟩ := except_bind_eq_ok.mp made
      obtain ⟨fields, rest, _⟩ := except_bind_eq_ok.mp made
      exact ⟨⟨field, first⟩, fields, rest⟩
    · rintro ⟨⟨field, first⟩, fields, rest⟩
      exact ⟨field :: fields, except_bind_eq_ok.mpr ⟨field, first, except_bind_eq_ok.mpr ⟨fields, rest, rfl⟩⟩⟩

end Casts

section Steps
variable {t : TypeTable ι}

/-- The two makers in step, each with a lookup cache of its own. -/
abbrev InStep (t : TypeTable ι) {α β : Type} (types : MakerM ι α) (nodes : MakerM ι β) (R : α → β → Prop) (P : Prop) : Prop :=
  Lockstep t.CacheValid t.CacheValid types nodes R P

theorem find_inStep {name : CStr} :
    InStep t (t.find name) (t.find name) (fun entry entry' => entry = entry' ∧ t.lookup name = .ok entry) True where
  of_right valid valid' found := by
    obtain ⟨looked, valid'⟩ := find_valid valid' found
    have found' : t.find name _ = _ := find_eq valid
    rw [looked] at found'
    exact ⟨_, _, found', ⟨rfl, looked⟩, trivial, (find_valid valid found').2, valid'⟩
  of_left valid valid' found _ := by
    have found' : t.find name _ = _ := find_eq valid'
    rw [(find_valid valid found).1] at found'
    exact ⟨_, _, found'⟩

variable [DecidableEq ι] {strict : Bool}

theorem nodeFromValues_inStep {type : ι} {args : NodeArgs} {types : List (StackObj (ObjType ι))}
    {objs : List (StackObj (ObjValue ι))} (count : objs.length = argCount args) (same : SameArgs (argValues args) types objs) :
    InStep t (nodeFromValues t strict typeValues type args types) (nodeFromValues t strict (nodeValues t) type args objs)
      (fun i v => i = .node type ∧ v.type = i) (∀ pair ∈ (t.astType type).args.zip (argValues args), ArgAccepted pair.1 pair.2) where
  of_right valid valid' returned := by
    obtain ⟨rfl, accepts, made⟩ := (nodeFromValues_ok count).mp returned
    have count' : types.length = argCount args := by rw [same.erased, List.length_map, count]
    have accepts' : Accepts t strict id type args types := same.erased ▸ accepts_erase.mpr accepts
    refine ⟨.node type, _, (nodeFromValues_ok count').mpr ⟨rfl, accepts', rfl⟩, ⟨rfl, (nodeValues t).node_type made⟩, ?_, ?_, ?_⟩
    · rw [nodeValues_node] at made
      obtain ⟨fields, filled, _⟩ := except_bind_eq_ok.mp made
      exact (argFields_ok accepts.casts same.bound).mp ⟨fields, filled⟩
    · exact cacheValid_of_cache rfl valid
    · exact cacheValid_of_cache rfl valid'
  of_left _ _ returned accepted := by
    have count' : types.length = argCount args := by rw [same.erased, List.length_map, count]
    obtain ⟨_, accepts, _⟩ := (nodeFromValues_ok count').mp returned
    have accepts' : Accepts t strict ObjValue.type type args objs := accepts_erase.mp (same.erased ▸ accepts)
    obtain ⟨fields, filled⟩ := (argFields_ok accepts'.casts same.bound).mpr accepted
    have made : (nodeValues t).node type (objs.map StackObj.value) = .ok (.node type (.mk type fields)) := by
      rw [nodeValues_node, filled]
      rfl
    exact ⟨_, _, (nodeFromValues_ok count).mpr ⟨rfl, accepts', made⟩⟩

theorem listFromValues_inStep {type : ι} {types : List (ObjType ι)} {values : List (ObjValue ι)}
    (erased : types = values.map ObjValue.type) :
    InStep t (listFromValues t strict typeValues type types) (listFromValues t strict (nodeValues t) type values)
      (fun i v => i = .list type ∧ v.type = i) True where
  of_right valid valid' returned := by
    obtain ⟨rfl, casts, made⟩ := listFromValues_ok.mp returned
    have casts' : ∀ value ∈ types, t.listTypeCast strict type value = .yes := by
      rw [erased]
      exact List.forall_mem_map.mpr casts
    refine ⟨.list type, _, listFromValues_ok.mpr ⟨rfl, casts', rfl⟩, ⟨rfl, (nodeValues t).list_type made⟩, trivial, ?_, ?_⟩
    · exact cacheValid_of_cache rfl valid
    · exact cacheValid_of_cache rfl valid'
  of_left _ _ returned _ := by
    obtain ⟨_, casts, _⟩ := listFromValues_ok.mp returned
    rw [erased] at casts
    have casts : ∀ value ∈ values, t.listTypeCast strict type value.type = .yes := List.forall_mem_map.mp casts
    obtain ⟨elems, listed⟩ := listElems_of_casts casts
    have made : (nodeValues t).list type values = .ok (.list type elems) := by
      rw [nodeValues_list, listed]
      rfl
    exact ⟨_, _, listFromValues_ok.mpr ⟨rfl, casts, made⟩⟩

theorem argValues_length {args : NodeArgs} : (argValues args).length = argCount args := by
  cases args with
  | listArgs list => exact List.length_map _
  | literalArgs literal => rfl

/-- The value of an argument on the two sides. -/
structure SameValue (value : ArgValue) (type : ObjType ι) (v : ObjValue ι) : Prop where
  erased : v.type = type
  bound : Bound value v

omit [DecidableEq ι] in
theorem sameValue_node {node : TreeNode} {i : ι} {type : ObjType ι} {v : ObjValue ι} (same : type = .node i ∧ v.type = type) :
    SameValue (.nodeValue node) type v := by
  obtain ⟨rfl, erased⟩ := same
  cases v with
  | node _ _ => exact ⟨erased, trivial⟩
  | list _ _ => cases erased
  | cptr _ => cases erased

omit [DecidableEq ι] in
theorem sameValue_list {list : NodeList} {i : ι} {type : ObjType ι} {v : ObjValue ι} (same : type = .list i ∧ v.type = type) :
    SameValue (.listValue list) type v := by
  obtain ⟨rfl, erased⟩ := same
  cases v with
  | list _ _ => exact ⟨erased, trivial⟩
  | node _ _ => cases erased
  | cptr _ => cases erased

theorem foundList_inStep {base : NodeName} {elems : List ListElem} {types : List (ObjType ι)} {values : List (ObjValue ι)}
    (erased : types = values.map ObjValue.type) :
    InStep t (t.find base.ident >>= fun entry => listFromValues t strict typeValues entry.type types)
      (t.find base.ident >>= fun entry => listFromValues t strict (nodeValues t) entry.type values)
      (SameValue (.listValue (.mk base elems))) True := by
  refine (find_inStep.bind fun entry entry' found => ?_).congr (and_iff_left trivial)
  obtain ⟨rfl, _⟩ := found
  exact (listFromValues_inStep erased).imp fun _ _ made => sameValue_list made

set_option linter.unusedSectionVars false in
mutual

theorem valueTreeNode_inStep (node : TreeNode) :
    InStep t (valueTreeNode t strict typeValues node) (valueTreeNode t strict (nodeValues t) node)
      (SameValue (.nodeValue node)) (LiteralsAccepted t node.nodes) := by
  cases node with
  | mk name args =>
    rw [valueTreeNode, valueTreeNode, literalsAccepted_node]
    refine (valueNodeArgs_inStep args).bind fun types objs same => ?_
    have count : objs.length = argCount args := by rw [← same.bound.length_eq, argValues_length]
    refine (find_inStep.bind fun entry entry' found => ?_).congr (and_iff_right trivial)
    obtain ⟨rfl, looked⟩ := found
    have step : InStep t (nodeFromValues t strict typeValues entry.type args types) _ _ _ := nodeFromValues_inStep count same
    have asked : (∀ pair ∈ (t.astType entry.type).args.zip (argValues args), ArgAccepted pair.1 pair.2) ↔
        ∀ other, t.lookup name.ident = .ok other →
          ∀ pair ∈ (t.astType other.type).args.zip (argValues args), ArgAccepted pair.1 pair.2 := by
      simp [looked]
    exact (step.congr asked).imp fun _ _ made => sameValue_node made
  termination_by structural node

theorem valueNodeArgs_inStep (args : NodeArgs) :
    InStep t (valueNodeArgs t strict typeValues args) (valueNodeArgs t strict (nodeValues t) args)
      (SameArgs (argValues args)) (LiteralsAccepted t args.nodes) := by
  cases args with
  | listArgs list =>
    rw [valueNodeArgs, valueNodeArgs]
    exact (valueNodeArgList_inStep list).congr (by simp [NodeArgs.nodes])
  | literalArgs literal =>
    rw [valueNodeArgs, valueNodeArgs]
    exact (Lockstep.pure ⟨rfl, .cons rfl .nil⟩).congr (by simp [NodeArgs.nodes, Literal.nodes])
  termination_by structural args

theorem valueNodeArgList_inStep (list : List NodeArg) :
    InStep t (valueNodeArgList t strict typeValues list) (valueNodeArgList t strict (nodeValues t) list)
      (SameArgs (argValues (.listArgs list))) (LiteralsAccepted t (nodeArgListNodes list)) := by
  cases list with
  | nil =>
    rw [valueNodeArgList, valueNodeArgList]
    exact (Lockstep.pure ⟨rfl, .nil⟩).congr (by simp [nodeArgListNodes])
  | cons arg list =>
    rw [valueNodeArgList, valueNodeArgList, nodeArgListNodes, literalsAccepted_append]
    refine (valueNodeArg_inStep arg).bind fun type obj same => ?_
    refine (valueNodeArgList_inStep list).map fun types objs rest => ?_
    obtain ⟨name, value⟩ := arg
    exact ⟨by rw [same.1, rest.erased, List.map_cons], .cons same.2 rest.bound⟩
  termination_by structural list

theorem valueNodeArg_inStep (arg : NodeArg) :
    InStep t (valueNodeArg t strict typeValues arg) (valueNodeArg t strict (nodeValues t) arg)
      (fun type obj => type = obj.erase ∧ Bound arg.value obj.value) (LiteralsAccepted t arg.nodes) := by
  cases arg with
  | mk name value =>
    rw [valueNodeArg, valueNodeArg]
    refine ((valueArgValue_inStep value).map fun type v same => ?_).congr (by simp [NodeArg.nodes, ArgName.nodes])
    exact ⟨by rw [StackObj.erase, same.erased], same.bound⟩
  termination_by structural arg

theorem valueArgValue_inStep (value : ArgValue) :
    InStep t (valueArgValue t strict typeValues value) (valueArgValue t strict (nodeValues t) value)
      (SameValue value) (LiteralsAccepted t value.nodes) := by
  cases value with
  | nodeValue node =>
    rw [valueArgValue, valueArgValue]
    exact (valueTreeNode_inStep node).congr (by simp [ArgValue.nodes])
  | listValue list =>
    rw [valueArgValue, valueArgValue]
    exact (valueNodeList_inStep list).congr (by simp [ArgValue.nodes])
  | literalValue literal =>
    rw [valueArgValue, valueArgValue]
    exact (Lockstep.pure ⟨rfl, rfl⟩).congr (by simp [ArgValue.nodes, Literal.nodes])
  termination_by structural value

theorem valueNodeList_inStep (list : NodeList) :
    InStep t (valueNodeList t strict typeValues list) (valueNodeList t strict (nodeValues t) list)
      (SameValue (.listValue list)) (LiteralsAccepted t list.nodes) := by
  cases list with
  | mk base elems =>
    rw [valueNodeList, valueNodeList]
    exact ((valueListElems_inStep elems 0).bind fun types values erased => foundList_inStep erased).congr
      (by simp [NodeList.nodes, NodeName.nodes])
  termination_by structural list

theorem valueListElems_inStep (elems : List ListElem) (k : Nat) :
    InStep t (valueListElems t strict typeValues elems k) (valueListElems t strict (nodeValues t) elems k)
      (fun types values => types = values.map ObjValue.type) (LiteralsAccepted t (listElemsNodes elems)) := by
  cases elems with
  | nil =>
    rw [valueListElems, valueListElems]
    refine Lockstep.congr (P := True) (by simp [listElemsNodes]) ?_
    exact Lockstep.pure rfl
  | cons elem elems =>
    rw [valueListElems, valueListElems, listElemsNodes, literalsAccepted_append]
    refine (valueListElem_inStep elem k).bind fun type v same => ?_
    refine (valueListElems_inStep elems (k + 1)).map fun types values rest => ?_
    rw [rest, List.map_cons, same]
  termination_by structural elems

theorem valueListElem_inStep (elem : ListElem) (k : Nat) :
    InStep t (valueListElem t strict typeValues elem k) (valueListElem t strict (nodeValues t) elem k)
      (fun type v => v.type = type) (LiteralsAccepted t elem.nodes) := by
  cases elem with
  | mk index node =>
    have asked : LiteralsAccepted t node.nodes ↔ LiteralsAccepted t (ListElem.mk index node).nodes := by simp [ListElem.nodes]
    rw [← asked]
    have node_step := valueTreeNode_inStep node
    by_cases same : index.toNat = k
    · constructor
      · intro m₁ m₂ v m₂' valid valid' returned
        rw [valueListElem_run, if_neg (not_not.mpr same)] at returned
        rw [valueListElem_run, if_neg (not_not.mpr same)]
        obtain ⟨type, m₁', returned', related, rest⟩ := node_step.of_right valid valid' returned
        exact ⟨type, m₁', returned', related.erased, rest⟩
      · intro m₁ m₂ type m₁' valid valid' returned accepted
        rw [valueListElem_run, if_neg (not_not.mpr same)] at returned
        rw [valueListElem_run, if_neg (not_not.mpr same)]
        exact node_step.of_left valid valid' returned accepted
    · constructor
      · intro m₁ m₂ v m₂' _ _ returned
        rw [valueListElem_run, if_pos same] at returned
        cases returned
      · intro m₁ m₂ type m₁' _ _ returned
        rw [valueListElem_run, if_pos same] at returned
        cases returned
  termination_by structural elem

end

end Steps

section Theorem
variable [DecidableEq ι] (t : TypeTable ι) (strict : Bool)

/-- A tree can be built just when its types check and its literals have values, and the node that
is built has the type that was checked. -/
theorem makers_agree (tree : Tree) (m₁ m₂ : MakerState ι) (clear₁ : m₁.nargError = false)
    (clear₂ : m₂.nargError = false) (valid₁ : t.CacheValid m₁) (valid₂ : t.CacheValid m₂) :
    ((∃ v, (eval t (NodeMaker t strict) tree m₂).1 = .ok v) ↔
      (∃ type, (eval t (TypeMaker t strict) tree m₁).1 = .ok type) ∧ LiteralsAccepted t tree.root.nodes) ∧
    ∀ v type, (eval t (NodeMaker t strict) tree m₂).1 = .ok v → (eval t (TypeMaker t strict) tree m₁).1 = .ok type →
      v.type = type := by
  simp only [eval_returns_iff (nodeMaker_implements t strict) clear₂, eval_returns_iff (typeMaker_implements t strict) clear₁]
  have step : InStep t (valueTreeNode t strict typeValues tree.root) _ _ _ := valueTreeNode_inStep tree.root
  refine ⟨⟨?_, ?_⟩, ?_⟩
  · rintro ⟨v, m', built⟩
    obtain ⟨type, m'', checked, _, accepted, _⟩ := step.of_right valid₁ valid₂ built
    exact ⟨⟨type, m'', checked⟩, accepted⟩
  · rintro ⟨⟨type, m', checked⟩, accepted⟩
    exact step.of_left valid₁ valid₂ checked accepted
  · rintro v type ⟨m', built⟩ ⟨m'', checked⟩
    obtain ⟨type', _, checked', same, _⟩ := step.of_right valid₁ valid₂ built
    rw [checked] at checked'
    cases checked'
    exact same.erased

end Theorem

/-- One type with a bool, as `S` of the abc library has it. -/
def switchTable : TypeTable Unit where
  types := [()]
  complete _ := List.mem_singleton_self _
  astType _ := ⟨"S".toList, none, [⟨"b".toList, .cptr .bool⟩]⟩
  newFuncs := [⟨"S".toList, ()⟩]

theorem makers_agree_switch :
    ∃ v, (eval switchTable (NodeMaker switchTable true) ⟨.mk ⟨"S".toList⟩ (.literalArgs ⟨['1']⟩)⟩ {}).1 = .ok v := by
  have accepted : LiteralsAccepted switchTable (TreeNode.mk ⟨"S".toList⟩ (.literalArgs ⟨['1']⟩)).nodes := by
    rw [literalsAccepted_node]
    refine ⟨by simp [NodeArgs.nodes, Literal.nodes], fun entry _ pair member => ?_⟩
    obtain rfl := List.mem_singleton.mp member
    exact .inr rfl
  exact (makers_agree switchTable true _ {} {} rfl rfl (fun _ cached => nomatch cached)
    (fun _ cached => nomatch cached)).1.mpr ⟨⟨.node (), rfl⟩, accepted⟩

end CxxpyTree.Obj
