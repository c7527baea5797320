import CxxpyTree.BuiltNodes
import CxxpyTree.Grammar

/-! The objects that the node maker returns. They have the declared shape all the way down, and
their texts stand in the tree. -/

namespace CxxpyTree.Obj
open Machine

variable {ι : Type}

def Node.astType : Node ι → ι
  | .mk astType _ => astType

section Shape
variable (t : TypeTable ι)

mutual

/-- A node whose members hold what its type declares, all the way down. -/
inductive NodeOk : Node ι → Prop where
  | mk {type : ι} {fields : List (Field ι)} : FieldsOk (t.astType type).args fields → NodeOk (.mk type fields)

inductive FieldsOk : List (ArgDef ι) → List (Field ι) → Prop where
  | nil : FieldsOk [] []
  | cons {arg : ArgDef ι} {args : List (ArgDef ι)} {field : Field ι} {fields : List (Field ι)} :
      FieldOk arg.argType field → FieldsOk args fields → FieldsOk (arg :: args) (field :: fields)

/-- A list is no longer than the indexes of type `unsigned char` reach. -/
inductive FieldOk : ObjType ι → Field ι → Prop where
  | node {T : ι} {ptr : Node ι} : NodeFits t false T ptr → NodeOk ptr → FieldOk (.node T) (.node ptr)
  | list {T : ι} {elems : List (Node ι)} : elems.length ≤ 256 → NodesOk T elems → FieldOk (.list T) (.list elems)
  | charPtr {str : CStr} : FieldOk (.cptr .charPtr) (.charPtr str)
  | bool {val : Bool} : FieldOk (.cptr .bool) (.bool val)
  | compOp {val : CompOp} : FieldOk (.cptr .compOp) (.compOp val)

inductive NodesOk : ι → List (Node ι) → Prop where
  | nil {T : ι} : NodesOk T []
  | cons {T : ι} {node : Node ι} {nodes : List (Node ι)} :
      NodeFits t false T node → NodeOk node → NodesOk T nodes → NodesOk T (node :: nodes)

end

end Shape

/-! The `char*` members of a node and of the nodes below it. -/

mutual

def Node.charPtrs : Node ι → List CStr
  | .mk _ fields => fieldsCharPtrs fields
  termination_by structural node => node

def fieldsCharPtrs : List (Field ι) → List CStr
  | [] => []
  | field :: fields => field.charPtrs ++ fieldsCharPtrs fields
  termination_by structural fields => fields

def Field.charPtrs : Field ι → List CStr
  | .node ptr => ptr.charPtrs
  | .list elems => nodesCharPtrs elems
  | .charPtr str => [str]
  | .bool _ => []
  | .compOp _ => []
  termination_by structural field => field

def nodesCharPtrs : List (Node ι) → List CStr
  | [] => []
  | node :: nodes => node.charPtrs ++ nodesCharPtrs nodes
  termination_by structural nodes => nodes

end

def ObjValue.charPtrs : ObjValue ι → List CStr
  | .node _ ptr => ptr.charPtrs
  | .list _ elems => nodesCharPtrs elems
  | .cptr ptr => [ptr]

def ValueOk (t : TypeTable ι) : ObjValue ι → Prop
  | .node astType ptr => NodeFits t false astType ptr ∧ NodeOk t ptr
  | .list astType elems => elems.length ≤ 256 ∧ NodesOk t astType elems
  | .cptr _ => True

/-- A value of the declared shape with texts from among the leaves. -/
structure MadeFrom (t : TypeTable ι) (leaves : List Leaf) (v : ObjValue ι) : Prop where
  ok : ValueOk t v
  texts : ∀ text ∈ v.charPtrs, Leaf.lexeme .str text ∈ leaves

section Casts
variable {t : TypeTable ι} {strict : Bool} {leaves leaves' : List Leaf} {src dst : ι}

theorem MadeFrom.mono {v : ObjValue ι} (sub : leaves ⊆ leaves') (made : MadeFrom t leaves v) : MadeFrom t leaves' v :=
  ⟨made.ok, fun text member => sub (made.texts text member)⟩

theorem TypeCastable.relax (castable : TypeCastable t strict src dst) : TypeCastable t false src dst := by
  cases strict with
  | true =>
    obtain rfl : src = dst := castable
    exact .refl
  | false => exact castable

theorem nodesOk_cons {T : ι} {node : Node ι} {nodes : List (Node ι)} :
    NodesOk t T (node :: nodes) ↔ NodeFits t false T node ∧ NodeOk t node ∧ NodesOk t T nodes :=
  ⟨fun | .cons fits ok oks => ⟨fits, ok, oks⟩, fun ⟨fits, ok, oks⟩ => .cons fits ok oks⟩

theorem NodesOk.cast (castable : TypeCastable t false src dst) : ∀ {nodes : List (Node ι)},
    NodesOk t src nodes → NodesOk t dst nodes
  | [], .nil => .nil
  | _ :: _, .cons fits ok rest => .cons (fits.cast castable) ok (rest.cast castable)

variable [DecidableEq ι]

theorem fieldOk_of_cast {argType : ObjType ι} {v : ObjValue ι} {field : Field ι}
    (cast : t.objTypeCast strict argType v.type = .yes) (made : argField argType v = .ok field) (ok : ValueOk t v) :
    FieldOk t argType field ∧ field.charPtrs ⊆ v.charPtrs := by
  rcases castValue_cases cast with ⟨T, i, ptr, rfl, rfl, cast⟩ | ⟨T, i, elems, rfl, rfl, cast⟩ | ⟨c, ptr, rfl, rfl⟩
  · cases made
    exact ⟨.node (ok.1.cast (typeCastable_of_cast cast).relax) ok.2, by simp [Field.charPtrs, ObjValue.charPtrs]⟩
  · cases made
    exact ⟨.list ok.1 (ok.2.cast (typeCastable_of_cast cast).relax), by simp [Field.charPtrs, ObjValue.charPtrs]⟩
  · rcases cptrCast_cases made with ⟨rfl, rfl⟩ | ⟨rfl, val, rfl⟩ | ⟨rfl, val, rfl⟩
    · exact ⟨.charPtr, by simp [Field.charPtrs, ObjValue.charPtrs]⟩
    · exact ⟨.bool, by simp [Field.charPtrs]⟩
    · exact ⟨.compOp, by simp [Field.charPtrs]⟩

theorem fieldsOk_of_casts {args : List (ArgDef ι)} {objs : List (StackObj (ObjValue ι))} {fields : List (Field ι)}
    (casts : List.Forall₂ (fun arg obj => t.objTypeCast strict arg.argType obj.value.type = .yes) args objs)
    (made : ∀ obj ∈ objs, MadeFrom t leaves obj.value) (filled : argFields args (objs.map StackObj.value) = .ok fields) :
    FieldsOk t args fields ∧ ∀ text ∈ fieldsCharPtrs fields, Leaf.lexeme .str text ∈ leaves := by
  induction casts generalizing fields with
  | nil =>
    cases filled
    exact ⟨.nil, by simp [fieldsCharPtrs]⟩
  | cons cast casts ih =>
    obtain ⟨first, later⟩ := List.forall_mem_cons.mp made
    rw [List.map_cons, argFields] at filled
    obtain ⟨field, one, filled⟩ := except_bind_eq_ok.mp filled
    obtain ⟨fields, more, filled⟩ := except_bind_eq_ok.mp filled
    cases filled
    obtain ⟨ok, texts⟩ := fieldOk_of_cast cast one first.ok
    obtain ⟨oks, rest⟩ := ih later more
    refine ⟨.cons ok oks, ?_⟩
    rw [fieldsCharPtrs, List.forall_mem_append]
    exact ⟨fun text member => first.texts text (texts member), rest⟩

theorem nodesOk_of_casts {type : ι} : ∀ {values : List (ObjValue ι)} {elems : List (Node ι)},
    (∀ value ∈ values, t.listTypeCast strict type value.type = .yes) → (∀ value ∈ values, MadeFrom t leaves value) →
    listElems values = .ok elems →
    elems.length = values.length ∧ NodesOk t type elems ∧ ∀ text ∈ nodesCharPtrs elems, Leaf.lexeme .str text ∈ leaves
  | [], _, _, _, listed => by
    cases listed
    exact ⟨rfl, .nil, by simp [nodesCharPtrs]⟩
  | value :: values, _, casts, made, listed => by
    obtain ⟨cast, casts⟩ := List.forall_mem_cons.mp casts
    obtain ⟨first, later⟩ := List.forall_mem_cons.mp made
    rw [listElems] at listed
    obtain ⟨elem, one, listed⟩ := except_bind_eq_ok.mp listed
    obtain ⟨elems, more, listed⟩ := except_bind_eq_ok.mp listed
    cases listed
    obtain ⟨length, oks, rest⟩ := nodesOk_of_casts casts later more
    cases value with
    | node i ptr =>
      cases one
      obtain ⟨fits, ok⟩ := first.ok
      refine ⟨by simp [length], .cons (fits.cast (typeCastable_of_cast cast).relax) ok oks, ?_⟩
      rw [nodesCharPtrs, List.forall_mem_append]
      exact ⟨first.texts, rest⟩
    | list _ _ => cases one
    | cptr _ => cases one

end Casts

section Values
variable [DecidableEq ι] {t : TypeTable ι} {strict : Bool} {m m' : MakerState ι}

/-- The elements from number `k` on have indexes from `k` on. -/
theorem valueListElems_bounded {V : Type} {vals : Values ι V} : ∀ {elems : List ListElem} {k : Nat} {values : List V}
    {m m' : MakerState ι}, valueListElems t strict vals elems k m = .ok values m' →
    elems.length = 0 ∨ k + elems.length ≤ 256
  | [], _, _, _, _, _ => .inl rfl
  | .mk index node :: elems, k, _, _, _, returned => by
    obtain ⟨value, m₁, values, same, _, rest, _⟩ := valueListElems_returned returned
    have index_lt := index.toNat_lt
    rw [same] at index_lt
    rw [List.length_cons]
    rcases valueListElems_bounded rest with empty | bounded <;> omega

set_option linter.unusedSectionVars false in
mutual

theorem valueTreeNode_madeFrom {node : TreeNode} {v : ObjValue ι} {m m' : MakerState ι}
    (returned : valueTreeNode t strict (nodeValues t) node m = .ok v m') : MadeFrom t node.leaves v := by
  cases node with
  | mk name args =>
    obtain ⟨objs, m₁, entry, m₂, valued, _, returned⟩ := valueTreeNode_returned returned
    obtain ⟨_, accepts, built⟩ := (nodeFromValues_ok (valueNodeArgs_length valued)).mp returned
    rw [nodeValues_node] at built
    obtain ⟨fields, filled, built⟩ := except_bind_eq_ok.mp built
    cases built
    obtain ⟨ok, texts⟩ := fieldsOk_of_casts accepts.casts (valueNodeArgs_madeFrom valued) filled
    refine ⟨⟨.refl, .mk ok⟩, fun text member => ?_⟩
    have inside := texts text member
    simp [TreeNode.leaves, inside]
  termination_by structural node

theorem valueNodeArgs_madeFrom {args : NodeArgs} {objs : List (StackObj (ObjValue ι))} {m m' : MakerState ι}
    (returned : valueNodeArgs t strict (nodeValues t) args m = .ok objs m') :
    ∀ obj ∈ objs, MadeFrom t args.leaves obj.value := by
  cases args with
  | listArgs list =>
    rw [valueNodeArgs] at returned
    rw [NodeArgs.leaves]
    exact valueNodeArgList_madeFrom returned
  | literalArgs literal =>
    rw [valueNodeArgs] at returned
    cases returned
    have made : MadeFrom t (NodeArgs.literalArgs literal).leaves (.cptr literal.str) :=
      ⟨trivial, by simp [ObjValue.charPtrs, NodeArgs.leaves, Literal.leaves]⟩
    exact List.forall_mem_singleton.mpr made
  termination_by structural args

theorem valueNodeArgList_madeFrom {list : List NodeArg} {objs : List (StackObj (ObjValue ι))} {m m' : MakerState ι}
    (returned : valueNodeArgList t strict (nodeValues t) list m = .ok objs m') :
    ∀ obj ∈ objs, MadeFrom t (nodeArgListLeaves list) obj.value := by
  cases list with
  | nil =>
    rw [valueNodeArgList] at returned
    cases returned
    simp
  | cons arg list =>
    cases arg with
    | mk name value =>
      obtain ⟨v, m₁, objs, valued, rest, rfl⟩ := valueNodeArgList_returned returned
      refine List.forall_mem_cons.mpr ⟨(valueArgValue_madeFrom valued).mono ?_, fun obj member => ?_⟩
      · intro leaf member
        simp [nodeArgListLeaves, NodeArg.leaves, member]
      · refine (valueNodeArgList_madeFrom rest obj member).mono fun leaf member => ?_
        simp [nodeArgListLeaves, member]
  termination_by structural list

theorem valueArgValue_madeFrom {value : ArgValue} {v : ObjValue ι} {m m' : MakerState ι}
    (returned : valueArgValue t strict (nodeValues t) value m = .ok v m') : MadeFrom t value.leaves v := by
  cases value with
  | nodeValue node =>
    rw [valueArgValue] at returned
    exact valueTreeNode_madeFrom returned
  | listValue list =>
    rw [valueArgValue] at returned
    exact valueNodeList_madeFrom returned
  | literalValue literal =>
    rw [valueArgValue] at returned
    cases returned
    exact ⟨trivial, List.forall_mem_singleton.mpr (List.mem_singleton_self _)⟩
  termination_by structural value

theorem valueNodeList_madeFrom {list : NodeList} {v : ObjValue ι} {m m' : MakerState ι}
    (returned : valueNodeList t strict (nodeValues t) list m = .ok v m') : MadeFrom t list.leaves v := by
  cases list with
  | mk base elems =>
    obtain ⟨values, m₁, entry, m₂, valued, _, returned⟩ := valueNodeList_returned returned
    obtain ⟨_, casts, built⟩ := listFromValues_ok.mp returned
    rw [nodeValues_list] at built
    obtain ⟨nodes, listed, built⟩ := except_bind_eq_ok.mp built
    cases built
    obtain ⟨length, oks, texts⟩ := nodesOk_of_casts casts (valueListElems_madeFrom valued) listed
    have bounded := valueListElems_bounded valued
    have counted := valueListElems_length valued
    refine ⟨⟨by omega, oks⟩, fun text member => ?_⟩
    have inside := texts text member
    simp [NodeList.leaves, inside]
  termination_by structural list

theorem valueListElems_madeFrom {elems : List ListElem} {k : Nat} {values : List (ObjValue ι)} {m m' : MakerState ι}
    (returned : valueListElems t strict (nodeValues t) elems k m = .ok values m') :
    ∀ value ∈ values, MadeFrom t (listElemsLeaves elems) value := by
  cases elems with
  | nil =>
    rw [valueListElems] at returned
    cases returned
    simp
  | cons elem elems =>
    cases elem with
    | mk index node =>
      obtain ⟨v, m₁, values, _, first, rest, rfl⟩ := valueListElems_returned returned
      refine List.forall_mem_cons.mpr ⟨(valueTreeNode_madeFrom first).mono ?_, fun value member => ?_⟩
      · intro leaf member
        simp [listElemsLeaves, ListElem.leaves, member]
      · refine (valueListElems_madeFrom rest value member).mono fun leaf member => ?_
        simp [listElemsLeaves, member]
  termination_by structural elems

end

/-- What the node maker returns, from any state and in either mode, is a node of the declared shape
with texts from the tree. -/
theorem eval_object {tree : Tree} {type : ι} {obj : Node ι}
    (returned : (eval t (NodeMaker t strict) tree m).1 = .ok (.node type obj)) :
    NodeOk t obj ∧ ∀ text ∈ obj.charPtrs, Leaf.lexeme .str text ∈ tree.leaves := by
  have made := valueTreeNode_madeFrom (eval_sound (nodeMaker_implements t strict) (Prod.ext returned rfl))
  exact ⟨made.ok.2, made.texts⟩

end Values

end CxxpyTree.Obj
