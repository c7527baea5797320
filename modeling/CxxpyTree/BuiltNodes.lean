import CxxpyTree.RaisedFlag
import CxxpyTree.Typing

/-! The nodes that the node maker builds. Each member holds what its declared type says, so the
casts of the untyped pointers are safe. -/

namespace CxxpyTree.Obj
open Machine

variable {ι : Type}

def argValues : NodeArgs → List ArgValue
  | .listArgs list => list.map NodeArg.value
  | .literalArgs literal => [.literalValue literal]

section Built
variable [DecidableEq ι] (t : TypeTable ι) (strict : Bool)

/-- A node that a pointer to `T` may point to. -/
def NodeFits (T : ι) : Node ι → Prop
  | .mk astType _ => TypeCastable t strict astType T

/-- A member of a declared type, made from the value of an argument. -/
def FieldBuilt : (argType : ObjType ι) → ArgValue → Field ι → Prop
  | .node T, _, .node ptr => NodeFits t strict T ptr
  | .list T, _, .list elems => ∀ elem ∈ elems, NodeFits t strict T elem
  | .cptr .charPtr, .literalValue literal, .charPtr str => str = literal.str
  | .cptr .bool, .literalValue literal, .bool val => cptrCast (ι := ι) .bool literal.str = .ok (.bool val)
  | .cptr .compOp, .literalValue literal, .compOp val => cptrCast (ι := ι) .compOp literal.str = .ok (.compOp val)
  | _, _, _ => False

inductive FieldsBuilt : List (ArgDef ι) → List ArgValue → List (Field ι) → Prop where
  | nil : FieldsBuilt [] [] []
  | cons {arg : ArgDef ι} {args : List (ArgDef ι)} {value : ArgValue} {values : List ArgValue} {field : Field ι}
      {fields : List (Field ι)} : FieldBuilt t strict arg.argType value field → FieldsBuilt args values fields →
      FieldsBuilt (arg :: args) (value :: values) (field :: fields)

/-- A node made for `src`: a member for each declared argument, from the value in its place. -/
def NodeBuilt : (src : TreeNode) → Node ι → Prop
  | .mk name args, .mk astType fields =>
    TypeNamed t name astType ∧ FieldsBuilt t strict (t.astType astType).args (argValues args) fields

/-- The pointer of a value points to what its type says. -/
def ValueBuilt : ArgValue → ObjValue ι → Prop
  | .nodeValue _, .node astType (.mk made _) => made = astType
  | .listValue _, .list astType elems => ∀ elem ∈ elems, NodeFits t strict astType elem
  | .literalValue literal, .cptr ptr => ptr = literal.str
  | _, _ => False

variable {t strict}

theorem typeCastable_of_cast {src dst : ι} (cast : t.typeCast strict dst src = .yes) : TypeCastable t strict src dst := by
  unfold TypeCastable
  cases strict with
  | true => exact (if_pos rfl).mpr (TypeTable.typeCast_strict_iff.mp cast)
  | false => exact TypeTable.typeCast_yes cast

omit [DecidableEq ι] in
theorem TypeCastable.refl {i : ι} : TypeCastable t strict i i := by
  unfold TypeCastable
  cases strict with
  | true => rfl
  | false => exact Walk.Meets.refl

omit [DecidableEq ι] in
theorem TypeCastable.trans {i j k : ι} (first : TypeCastable t strict i j) (second : TypeCastable t strict j k) :
    TypeCastable t strict i k := by
  unfold TypeCastable at *
  cases strict with
  | true => exact Eq.trans first second
  | false => exact Walk.Meets.trans first second

omit [DecidableEq ι] in
theorem NodeFits.cast {src dst : ι} (castable : TypeCastable t strict src dst) : ∀ {node : Node ι},
    NodeFits t strict src node → NodeFits t strict dst node
  | .mk _ _, fits => TypeCastable.trans fits castable

theorem fieldBuilt_of_cast {argType : ObjType ι} {value : ArgValue} {v : ObjValue ι} {field : Field ι}
    (cast : t.objTypeCast strict argType v.type = .yes) (made : argField argType v = .ok field)
    (built : ValueBuilt t strict value v) : FieldBuilt t strict argType value field := by
  rcases castValue_cases cast with ⟨T, i, ptr, rfl, rfl, cast⟩ | ⟨T, i, elems, rfl, rfl, cast⟩ | ⟨c, ptr, rfl, rfl⟩
  · cases made
    obtain ⟨j, fields⟩ := ptr
    cases value with
    | nodeValue _ =>
      obtain rfl : j = i := built
      exact typeCastable_of_cast cast
    | listValue _ => cases built
    | literalValue _ => cases built
  · cases made
    cases value with
    | listValue _ =>
      -- the elements fit the written type, which casts to the declared one
      exact fun elem member => NodeFits.cast (typeCastable_of_cast cast) (built elem member)
    | nodeValue _ => cases built
    | literalValue _ => cases built
  · cases value with
    | literalValue literal =>
      obtain rfl : ptr = literal.str := built
      have made : cptrCast c literal.str = .ok field := made
      rcases cptrCast_cases made with ⟨rfl, rfl⟩ | ⟨rfl, val, rfl⟩ | ⟨rfl, val, rfl⟩
      · rfl
      · exact made
      · exact made
    | nodeValue _ => cases built
    | listValue _ => cases built

theorem fieldsBuilt_of_casts {args : List (ArgDef ι)} {values : List ArgValue} {objs : List (StackObj (ObjValue ι))}
    {fields : List (Field ι)}
    (casts : List.Forall₂ (fun arg obj => t.objTypeCast strict arg.argType obj.value.type = .yes) args objs)
    (built : List.Forall₂ (fun value obj => ValueBuilt t strict value obj.value) values objs)
    (made : argFields args (objs.map StackObj.value) = .ok fields) : FieldsBuilt t strict args values fields := by
  induction casts generalizing values fields with
  | nil =>
    cases built
    cases made
    exact .nil
  | cons cast casts ih =>
    cases built with
    | cons built rest =>
      rw [List.map_cons, argFields] at made
      obtain ⟨field, first, made⟩ := except_bind_eq_ok.mp made
      obtain ⟨fields, later, made⟩ := except_bind_eq_ok.mp made
      cases made
      exact .cons (fieldBuilt_of_cast cast first built) (ih rest later)

theorem elemsFit_of_casts {type : ι} : ∀ {values : List (ObjValue ι)} {elems : List (Node ι)},
    (∀ value ∈ values, t.listTypeCast strict type value.type = .yes) →
    (∀ value ∈ values, ∀ i ptr, value = .node i ptr → NodeFits t strict i ptr) →
    listElems values = .ok elems → ∀ elem ∈ elems, NodeFits t strict type elem
  | [], _, _, _, listed => by cases listed; simp
  | value :: values, _, casts, fits, listed => by
    obtain ⟨cast, casts⟩ := List.forall_mem_cons.mp casts
    obtain ⟨fit, fits⟩ := List.forall_mem_cons.mp fits
    rw [listElems] at listed
    obtain ⟨elem, first, listed⟩ := except_bind_eq_ok.mp listed
    obtain ⟨elems, rest, listed⟩ := except_bind_eq_ok.mp listed
    cases listed
    refine List.forall_mem_cons.mpr ⟨?_, elemsFit_of_casts casts fits rest⟩
    cases value with
    | node i ptr => cases first; exact NodeFits.cast (typeCastable_of_cast cast) (fit i _ rfl)
    | list _ _ => cases first
    | cptr _ => cases first

end Built

section Made
variable {t : TypeTable ι} {strict : Bool}

/-- From `m` to `m'` only nodes built for tree nodes among `nodes` are made. -/
structure Makes (t : TypeTable ι) (strict : Bool) (nodes : List AstNode) (m m' : MakerState ι) : Prop where
  valid : t.CacheValid m'
  made : ∃ created, m'.ast = m.ast ++ created ∧
    ∀ node ∈ created, ∃ src, AstNode.treeNode src ∈ nodes ∧ NodeBuilt t strict src node

theorem Makes.refl {nodes : List AstNode} {m : MakerState ι} (valid : t.CacheValid m) : Makes t strict nodes m m :=
  ⟨valid, [], by simp, by simp⟩

theorem Makes.mono {nodes nodes' : List AstNode} {m m' : MakerState ι} (sub : nodes ⊆ nodes')
    (makes : Makes t strict nodes m m') : Makes t strict nodes' m m' := by
  obtain ⟨valid, created, log, built⟩ := makes
  refine ⟨valid, created, log, fun node member => ?_⟩
  obtain ⟨src, inside, made⟩ := built node member
  exact ⟨src, sub inside, made⟩

theorem Makes.trans {nodes : List AstNode} {m₁ m₂ m₃ : MakerState ι} (first : Makes t strict nodes m₁ m₂)
    (second : Makes t strict nodes m₂ m₃) : Makes t strict nodes m₁ m₃ := by
  obtain ⟨_, created, log, built⟩ := first
  obtain ⟨valid, created', log', built'⟩ := second
  refine ⟨valid, created ++ created', by rw [log', log, List.append_assoc], fun node member => ?_⟩
  rcases List.mem_append.mp member with earlier | later
  · exact built node earlier
  · exact built' node later

variable [DecidableEq ι]

set_option linter.unusedSectionVars false in
mutual

theorem valueTreeNode_makes {node : TreeNode} {v : ObjValue ι} {m m' : MakerState ι} (valid : t.CacheValid m)
    (returned : valueTreeNode t strict (nodeValues t) node m = .ok v m') :
    Makes t strict node.nodes m m' ∧ ∃ i fields, v = .node i (.mk i fields) := by
  cases node with
  | mk name args =>
    obtain ⟨objs, m₁, entry, m₂, valued, found, returned⟩ := valueTreeNode_returned returned
    obtain ⟨makes, built⟩ := valueNodeArgs_makes valid valued
    obtain ⟨_, valid₂⟩ := find_valid makes.valid found
    obtain ⟨state, accepts, made⟩ := (nodeFromValues_ok (valueNodeArgs_length valued)).mp returned
    rw [nodeValues_node] at made
    obtain ⟨fields, filled, made⟩ := except_bind_eq_ok.mp made
    cases made
    refine ⟨(makes.mono ?_).trans ⟨cacheValid_of_cache (by rw [state]) valid₂, [.mk entry.type fields], ?_, ?_⟩, _, _, rfl⟩
    · intro node member
      simp [TreeNode.nodes, member]
    · rw [state, find_ok found]
      rfl
    · intro node member
      obtain rfl := List.mem_singleton.mp member
      refine ⟨.mk name args, by simp [TreeNode.nodes], named_of_find makes.valid found, ?_⟩
      exact fieldsBuilt_of_casts accepts.casts built filled
  termination_by structural node

theorem valueNodeArgs_makes {args : NodeArgs} {objs : List (StackObj (ObjValue ι))} {m m' : MakerState ι}
    (valid : t.CacheValid m) (returned : valueNodeArgs t strict (nodeValues t) args m = .ok objs m') :
    Makes t strict args.nodes m m' ∧
      List.Forall₂ (fun value obj => ValueBuilt t strict value obj.value) (argValues args) objs := by
  cases args with
  | listArgs list =>
    rw [valueNodeArgs] at returned
    obtain ⟨makes, built⟩ := valueNodeArgList_makes valid returned
    exact ⟨makes.mono (by intro node member; simp [NodeArgs.nodes, member]), built⟩
  | literalArgs literal =>
    rw [valueNodeArgs] at returned
    cases returned
    exact ⟨.refl valid, .cons rfl .nil⟩
  termination_by structural args

theorem valueNodeArgList_makes {list : List NodeArg} {objs : List (StackObj (ObjValue ι))} {m m' : MakerState ι}
    (valid : t.CacheValid m) (returned : valueNodeArgList t strict (nodeValues t) list m = .ok objs m') :
    Makes t strict (nodeArgListNodes list) m m' ∧
      List.Forall₂ (fun value obj => ValueBuilt t strict value obj.value) (argValues (.listArgs list)) objs := by
  cases list with
  | nil =>
    rw [valueNodeArgList] at returned
    cases returned
    exact ⟨.refl valid, .nil⟩
  | cons arg list =>
    cases arg with
    | mk name value =>
      obtain ⟨v, m₁, objs, valued, rest, rfl⟩ := valueNodeArgList_returned returned
      obtain ⟨makes, built⟩ := valueArgValue_makes valid valued
      obtain ⟨makesRest, builtRest⟩ := valueNodeArgList_makes makes.valid rest
      refine ⟨(makes.mono ?_).trans (makesRest.mono ?_), .cons built builtRest⟩
      · intro node member
        simp [nodeArgListNodes, NodeArg.nodes, member]
      · intro node member
        simp [nodeArgListNodes, member]
  termination_by structural list

theorem valueArgValue_makes {value : ArgValue} {v : ObjValue ι} {m m' : MakerState ι} (valid : t.CacheValid m)
    (returned : valueArgValue t strict (nodeValues t) value m = .ok v m') :
    Makes t strict value.nodes m m' ∧ ValueBuilt t strict value v := by
  cases value with
  | nodeValue node =>
    rw [valueArgValue] at returned
    obtain ⟨makes, i, fields, rfl⟩ := valueTreeNode_makes valid returned
    exact ⟨makes.mono (by intro node member; simp [ArgValue.nodes, member]), rfl⟩
  | listValue list =>
    rw [valueArgValue] at returned
    obtain ⟨makes, i, elems, rfl, fits⟩ := valueNodeList_makes valid returned
    exact ⟨makes.mono (by intro node member; simp [ArgValue.nodes, member]), fits⟩
  | literalValue literal =>
    rw [valueArgValue] at returned
    cases returned
    exact ⟨.refl valid, rfl⟩
  termination_by structural value

theorem valueNodeList_makes {list : NodeList} {v : ObjValue ι} {m m' : MakerState ι} (valid : t.CacheValid m)
    (returned : valueNodeList t strict (nodeValues t) list m = .ok v m') :
    Makes t strict list.nodes m m' ∧ ∃ i elems, v = .list i elems ∧ ∀ elem ∈ elems, NodeFits t strict i elem := by
  cases list with
  | mk base elems =>
    obtain ⟨values, m₁, entry, m₂, valued, found, returned⟩ := valueNodeList_returned returned
    obtain ⟨makes, fits⟩ := valueListElems_makes valid valued
    obtain ⟨_, valid₂⟩ := find_valid makes.valid found
    obtain ⟨state, casts, made⟩ := listFromValues_ok.mp returned
    rw [nodeValues_list] at made
    obtain ⟨nodes, listed, made⟩ := except_bind_eq_ok.mp made
    cases made
    refine ⟨(makes.mono ?_).trans ⟨cacheValid_of_cache (by rw [state]) valid₂, [], ?_, by simp⟩, _, _, rfl, ?_⟩
    · intro node member
      simp [NodeList.nodes, member]
    · rw [state, find_ok found]
      simp
    · exact elemsFit_of_casts casts fits listed
  termination_by structural list

theorem valueListElems_makes {elems : List ListElem} {k : Nat} {values : List (ObjValue ι)} {m m' : MakerState ι}
    (valid : t.CacheValid m) (returned : valueListElems t strict (nodeValues t) elems k m = .ok values m') :
    Makes t strict (listElemsNodes elems) m m' ∧
      ∀ value ∈ values, ∀ i ptr, value = .node i ptr → NodeFits t strict i ptr := by
  cases elems with
  | nil =>
    rw [valueListElems] at returned
    cases returned
    exact ⟨.refl valid, by simp⟩
  | cons elem elems =>
    cases elem with
    | mk index node =>
      obtain ⟨v, m₁, values, _, first, rest, rfl⟩ := valueListElems_returned returned
      obtain ⟨makes, i, fields, rfl⟩ := valueTreeNode_makes valid first
      obtain ⟨makesRest, fits⟩ := valueListElems_makes makes.valid rest
      refine ⟨(makes.mono ?_).trans (makesRest.mono ?_), List.forall_mem_cons.mpr ⟨?_, fits⟩⟩
      · intro node member
        simp [listElemsNodes, ListElem.nodes, member]
      · intro node member
        simp [listElemsNodes, member]
      · rintro j ptr ⟨⟩
        exact TypeCastable.refl
  termination_by structural elems

end

/-- Every node that a successful evaluation has made was built for a node of the tree, and each of
its members holds what its declared type says. -/
theorem nodeMaker_builds_typed (t : TypeTable ι) (strict : Bool) (tree : Tree) {m m' : MakerState ι} {v : ObjValue ι}
    (valid : t.CacheValid m) (returned : eval t (NodeMaker t strict) tree m = (.ok v, m')) :
    ∃ created, m'.ast = m.ast ++ created ∧
      ∀ node ∈ created, ∃ src, AstNode.treeNode src ∈ tree.root.nodes ∧ NodeBuilt t strict src node :=
  (valueTreeNode_makes valid (eval_sound (nodeMaker_implements t strict) returned)).1.made

end Made

theorem nodeMaker_builds_typed_pair :
    ∃ created, (eval pairTable (NodeMaker pairTable false)
        ⟨.mk ⟨"B".toList⟩ (.listArgs [.mk ⟨"a".toList⟩ (.nodeValue pairInner)])⟩ {}).2.ast = [] ++ created ∧
      ∀ node ∈ created, ∃ src,
        AstNode.treeNode src ∈ (TreeNode.mk ⟨"B".toList⟩ (.listArgs [.mk ⟨"a".toList⟩ (.nodeValue pairInner)])).nodes ∧
          NodeBuilt pairTable false src node :=
  nodeMaker_builds_typed pairTable false _ (m := {}) (fun _ cached => nomatch cached)
    (v := .node true (.mk true [.node (.mk true [.node (.mk false [])])])) rfl

end CxxpyTree.Obj
