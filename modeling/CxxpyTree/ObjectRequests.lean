import CxxpyTree.BuiltNodes
import CxxpyTree.MakerHistory

/-! What the pools are asked for an object: the same for every tree that it is built from. -/

namespace CxxpyTree.Obj
open Machine

variable {ι : Type}

mutual

/-- The requests of an object with all that it points to, in the order of the members. -/
def Node.requests : Node ι → List (Request ι)
  | .mk type fields => fieldsRequests fields ++ (Node.mk type fields).asks
  termination_by structural node => node

def fieldsRequests : List (Field ι) → List (Request ι)
  | [] => []
  | field :: fields => field.requests ++ fieldsRequests fields
  termination_by structural fields => fields

def Field.requests : Field ι → List (Request ι)
  | .node ptr => ptr.requests
  | .list elems => nodesRequests elems ++ listAsks elems.length
  | .charPtr _ => []
  | .bool _ => []
  | .compOp _ => []
  termination_by structural field => field

def nodesRequests : List (Node ι) → List (Request ι)
  | [] => []
  | node :: nodes => node.requests ++ nodesRequests nodes
  termination_by structural nodes => nodes

end

def ObjValue.requests : ObjValue ι → List (Request ι)
  | .node _ ptr => ptr.requests
  | .list _ ptr => nodesRequests ptr ++ listAsks ptr.length
  | .cptr _ => []

theorem cptrCast_requests {c : CptrType} {arg : CStr} {field : Field ι} (made : cptrCast c arg = .ok field) :
    field.requests = [] := by
  cases c with
  | charPtr =>
    cases made
    rfl
  | bool =>
    simp only [cptrCast] at made
    split at made
    · cases made
    · cases made
      rfl
  | compOp =>
    simp only [cptrCast] at made
    split at made
    · cases made
      rfl
    · cases made

theorem argField_requests {argType : ObjType ι} {v : ObjValue ι} {field : Field ι} (made : argField argType v = .ok field) :
    field.requests = v.requests := by
  cases argType with
  | node _ =>
    cases v <;> cases made
    rfl
  | list _ =>
    cases v <;> cases made
    rfl
  | cptr c =>
    cases v with
    | cptr ptr => exact cptrCast_requests made
    | node _ _ => cases made
    | list _ _ => cases made

theorem argFields_requests : ∀ {args : List (ArgDef ι)} {values : List (ObjValue ι)} {fields : List (Field ι)},
    args.length = values.length → argFields args values = .ok fields → fieldsRequests fields = values.flatMap ObjValue.requests
  | [], [], _, _, made => by
    cases made
    rfl
  | arg :: args, value :: values, _, count, made => by
    rw [argFields] at made
    obtain ⟨field, first, made⟩ := except_bind_eq_ok.mp made
    obtain ⟨fields, rest, made⟩ := except_bind_eq_ok.mp made
    cases made
    rw [fieldsRequests, argField_requests first, argFields_requests (Nat.succ.inj count) rest, List.flatMap_cons]

theorem listElems_requests : ∀ {values : List (ObjValue ι)} {elems : List (Node ι)}, listElems values = .ok elems →
    nodesRequests elems = values.flatMap ObjValue.requests ∧ elems.length = values.length
  | [], _, listed => by
    cases listed
    exact ⟨rfl, rfl⟩
  | value :: values, _, listed => by
    rw [listElems] at listed
    obtain ⟨elem, first, listed⟩ := except_bind_eq_ok.mp listed
    obtain ⟨elems, rest, listed⟩ := except_bind_eq_ok.mp listed
    cases listed
    obtain ⟨same, length⟩ := listElems_requests rest
    cases value with
    | node i ptr =>
      cases first
      exact ⟨by rw [nodesRequests, same, List.flatMap_cons]; rfl, by rw [List.length_cons, length, List.length_cons]⟩
    | list _ _ => cases first
    | cptr _ => cases first

section Values
variable [DecidableEq ι] {t : TypeTable ι} {strict : Bool}

omit [DecidableEq ι] in
theorem find_asked {name : CStr} {entry : NewFuncs ι} {m m' : MakerState ι} (found : t.find name m = .ok entry m') :
    m'.asked = m.asked := by
  have kept : Keeps (HasAsked m.asked) (t.find name) := find_quiet name m.asked
  exact (kept m rfl).of_ok found

set_option linter.unusedSectionVars false in
mutual

theorem valueTreeNode_asked {node : TreeNode} {v : ObjValue ι} {m m' : MakerState ι}
    (returned : valueTreeNode t strict (nodeValues t) node m = .ok v m') : m'.asked = m.asked ++ v.requests := by
  cases node with
  | mk name args =>
    obtain ⟨objs, m₁, entry, m₂, valued, found, returned⟩ := valueTreeNode_returned returned
    have asked := valueNodeArgs_asked valued
    obtain ⟨rfl, accepts, made⟩ := (nodeFromValues_ok (valueNodeArgs_length valued)).mp returned
    rw [nodeValues_node] at made
    obtain ⟨fields, filled, made⟩ := except_bind_eq_ok.mp made
    cases made
    have count : (t.astType entry.type).args.length = (objs.map StackObj.value).length := by
      rw [List.length_map]
      exact accepts.casts.length_eq
    have own : (nodeValues t).asks (.node entry.type (.mk entry.type fields)) = (Node.mk entry.type fields).asks :=
      List.flatMap_singleton ..
    change m₂.asked ++ _ = _
    rw [find_asked found, asked, own, ObjValue.requests, Node.requests, argFields_requests count filled, List.append_assoc]
  termination_by structural node

theorem valueNodeArgs_asked {args : NodeArgs} {objs : List (StackObj (ObjValue ι))} {m m' : MakerState ι}
    (returned : valueNodeArgs t strict (nodeValues t) args m = .ok objs m') :
    m'.asked = m.asked ++ (objs.map StackObj.value).flatMap ObjValue.requests := by
  cases args with
  | listArgs list =>
    rw [valueNodeArgs] at returned
    exact valueNodeArgList_asked returned
  | literalArgs literal =>
    rw [valueNodeArgs] at returned
    cases returned
    exact (List.append_nil _).symm
  termination_by structural args

theorem valueNodeArgList_asked {list : List NodeArg} {objs : List (StackObj (ObjValue ι))} {m m' : MakerState ι}
    (returned : valueNodeArgList t strict (nodeValues t) list m = .ok objs m') :
    m'.asked = m.asked ++ (objs.map StackObj.value).flatMap ObjValue.requests := by
  cases list with
  | nil =>
    rw [valueNodeArgList] at returned
    cases returned
    exact (List.append_nil _).symm
  | cons arg list =>
    obtain ⟨name, value⟩ := arg
    obtain ⟨v, m₁, objs, first, rest, rfl⟩ := valueNodeArgList_returned returned
    rw [valueNodeArgList_asked rest, valueArgValue_asked first, List.map_cons, List.flatMap_cons, List.append_assoc]
  termination_by structural list

theorem valueArgValue_asked {arg : ArgValue} {v : ObjValue ι} {m m' : MakerState ι}
    (returned : valueArgValue t strict (nodeValues t) arg m = .ok v m') : m'.asked = m.asked ++ v.requests := by
  cases arg with
  | nodeValue node =>
    rw [valueArgValue] at returned
    exact valueTreeNode_asked returned
  | listValue list =>
    rw [valueArgValue] at returned
    exact valueNodeList_asked returned
  | literalValue literal =>
    rw [valueArgValue] at returned
    cases returned
    exact (List.append_nil _).symm
  termination_by structural arg

theorem valueNodeList_asked {list : NodeList} {v : ObjValue ι} {m m' : MakerState ι}
    (returned : valueNodeList t strict (nodeValues t) list m = .ok v m') : m'.asked = m.asked ++ v.requests := by
  cases list with
  | mk base elems =>
    obtain ⟨values, m₁, entry, m₂, valued, found, returned⟩ := valueNodeList_returned returned
    have asked := valueListElems_asked valued
    obtain ⟨rfl, -, made⟩ := listFromValues_ok.mp returned
    rw [nodeValues_list] at made
    obtain ⟨nodes, listed, made⟩ := except_bind_eq_ok.mp made
    cases made
    obtain ⟨same, length⟩ := listElems_requests listed
    change m₂.asked ++ listAsks values.length = _
    rw [find_asked found, asked, ObjValue.requests, same, length, List.append_assoc]
  termination_by structural list

theorem valueListElems_asked {elems : List ListElem} {k : Nat} {values : List (ObjValue ι)} {m m' : MakerState ι}
    (returned : valueListElems t strict (nodeValues t) elems k m = .ok values m') :
    m'.asked = m.asked ++ values.flatMap ObjValue.requests := by
  cases elems with
  | nil =>
    rw [valueListElems] at returned
    cases returned
    exact (List.append_nil _).symm
  | cons elem elems =>
    obtain ⟨index, node⟩ := elem
    obtain ⟨v, m₁, values, _, first, rest, rfl⟩ := valueListElems_returned returned
    rw [valueListElems_asked rest, valueTreeNode_asked first, List.flatMap_cons, List.append_assoc]
  termination_by structural elems

end

/-- The node maker on pools returns an object just when it does so with room for everything and the pools serve the
object behind what they have served. -/
theorem eval_demand_iff {classes : Classes ι} {pools : Pools} {tree : Tree} {m : MakerState ι}
    (served : Serve classes pools m.asked) {type : ι} {obj : Node ι} :
    (eval t (NodeMaker.on t strict (demand classes pools)) tree m).1 = .ok (.node type obj) ↔
      (eval t (NodeMaker t strict) tree m).1 = .ok (.node type obj) ∧ Serve classes pools (m.asked ++ obj.requests) := by
  have limited : Maker.Limited (Serve classes pools) (NodeMaker t strict) (NodeMaker.on t strict (demand classes pools)) :=
    nodeMaker_limited
  obtain ⟨inside, beyond⟩ := eval_limited (t := t) serve_recedes limited tree m
  have asked (returned : (eval t (NodeMaker t strict) tree m).1 = .ok (.node type obj)) :
      (eval t (NodeMaker t strict) tree m).2.asked = m.asked ++ obj.requests :=
    valueTreeNode_asked (eval_sound (nodeMaker_implements t strict) (Prod.ext returned rfl))
  constructor
  · intro returned
    by_cases room : Serve classes pools (eval t (NodeMaker t strict) tree m).2.asked
    · rw [inside room] at returned
      exact ⟨returned, asked returned ▸ room⟩
    · obtain ⟨stop, stopped, -⟩ := beyond served room
      rw [returned] at stopped
      cases stopped
  · rintro ⟨returned, room⟩
    rw [inside (by rwa [asked returned]), returned]

end Values

end CxxpyTree.Obj
