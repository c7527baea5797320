import CxxpyTree.Evaluator

/-! The value of a tree without a stack: a node from the values of its arguments, a list from the
values of its elements, each in source order. Only the lookup cache, the arity flag, the nodes made
so far and what they have asked for pass from one step to the next. -/

namespace CxxpyTree.Obj

variable {ι : Type}

/-- What a maker makes of the values of the arguments and elements, the nodes that are new
with the value of a node, and what is asked for a node and for a list. -/
structure Values (ι V : Type) where
  objType : V → ObjType ι
  literal : Literal → V
  literal_type : ∀ arg, objType (literal arg) = .cptr .charPtr
  node : ι → List V → Except (Stop ι) V
  list : ι → List V → Except (Stop ι) V
  node_type : ∀ {type values v}, node type values = .ok v → objType v = .node type
  list_type : ∀ {type values v}, list type values = .ok v → objType v = .list type
  made : V → List (Node ι)
  asks : V → List (Request ι)
  listAsks : Nat → List (Request ι)

def typeValues : Values ι (ObjType ι) where
  objType := id
  literal _ := .cptr .charPtr
  literal_type _ := rfl
  node type _ := return .node type
  list type _ := return .list type
  node_type made := by cases made; rfl
  list_type made := by cases made; rfl
  made _ := []
  asks _ := []
  listAsks _ := []

/-- The members of a node: one for each declared argument, from the value in the same place. -/
def argFields : List (ArgDef ι) → List (ObjValue ι) → Except (Stop ι) (List (Field ι))
  | arg :: args, value :: values => do
    let field ← argField arg.argType value
    return field :: (← argFields args values)
  | _, _ => return []

def listElems : List (ObjValue ι) → Except (Stop ι) (List (Node ι))
  | [] => return []
  | value :: values => do
    let elem ← listElemCast value
    return elem :: (← listElems values)

def ObjValue.made : ObjValue ι → List (Node ι)
  | .node _ ptr => [ptr]
  | _ => []

def ObjValue.asks (v : ObjValue ι) : List (Request ι) := v.made.flatMap Node.asks

def nodeValues (t : TypeTable ι) : Values ι (ObjValue ι) where
  objType := ObjValue.type
  literal literal := .cptr literal.str
  literal_type _ := rfl
  node type values := return .node type (.mk type (← argFields (t.astType type).args values))
  list type values := return .list type (← listElems values)
  node_type made := by
    obtain ⟨fields, _, made⟩ := Machine.except_bind_eq_ok.mp made
    cases made
    rfl
  list_type made := by
    obtain ⟨elems, _, made⟩ := Machine.except_bind_eq_ok.mp made
    cases made
    rfl
  made := ObjValue.made
  asks := ObjValue.asks
  listAsks := Obj.listAsks

section NodeValues
variable {t : TypeTable ι} {type : ι} {values : List (ObjValue ι)}

theorem nodeValues_node : (nodeValues t).node type values = (do
    return .node type (.mk type (← argFields (t.astType type).args values))) := rfl

theorem nodeValues_list : (nodeValues t).list type values = (do return .list type (← listElems values)) := rfl

end NodeValues

variable [DecidableEq ι] (t : TypeTable ι) (strict : Bool)

section Checks
variable {V : Type} (objType : V → ObjType ι)

/-- The checks on the arguments from number `k` on. -/
def checkArgs (type : ι) : (k : Nat) → List (ArgDef ι) → List (StackObj V) → Except (Stop ι) Unit
  | k, arg :: args, obj :: objs => do
    checkNodeArg t strict objType type arg k obj
    checkArgs type (k + 1) args objs
  | _, _, _ => pure ()

/-- The checks on the elements from number `k` on. -/
def checkElems (type : ι) : (k : Nat) → List V → Except (Stop ι) Unit
  | _, [] => pure ()
  | k, value :: values => do
    checkListArg t strict type k (objType value)
    checkElems type (k + 1) values

def failArity {α : Type} (err : ObjError) : MakerM ι α := do
  modify fun s => { s with nargError := true }
  error err

def checkNodeValues (type : ι) (args : NodeArgs) (objs : List (StackObj V)) : MakerM ι Unit :=
  match args with
  | .literalArgs _ =>
    if narg t type ≠ 1 then failArity (.oneArg (t.astType type).name (narg t type))
    else
      match (t.astType type).args, objs with
      | arg :: _, obj :: _ => check (checkNodeArgValue t strict type arg 1 (objType obj.value))
      | _, _ => pure ()
  | .listArgs list =>
    if narg t type ≠ list.length then failArity (.argCount (t.astType type).name (narg t type) list.length)
    else check (checkArgs t strict objType type 1 (t.astType type).args objs)

end Checks

section Value
variable {V : Type} (vals : Values ι V)

def nodeFromValues (type : ι) (args : NodeArgs) (objs : List (StackObj V)) : MakerM ι V := do
  checkNodeValues t strict vals.objType type args objs
  modify fun s => { s with nargError := false }
  let value ← check (vals.node type (objs.map StackObj.value))
  modify fun s => { s with ast := s.ast ++ vals.made value, asked := s.asked ++ vals.asks value }
  return value

def listFromValues (type : ι) (values : List V) : MakerM ι V := do
  check (checkElems t strict vals.objType type 0 values)
  modify fun s => { s with nargError := false, asked := s.asked ++ vals.listAsks values.length }
  check (vals.list type values)

mutual

def valueTreeNode : TreeNode → MakerM ι V
  | .mk name args => do
    let objs ← valueNodeArgs args
    let entry ← t.find name.ident
    nodeFromValues t strict vals entry.type args objs
  termination_by structural node => node

def valueNodeArgs : NodeArgs → MakerM ι (List (StackObj V))
  | .listArgs list => valueNodeArgList list
  | .literalArgs literal => return [{ value := vals.literal literal }]
  termination_by structural args => args

def valueNodeArgList : List NodeArg → MakerM ι (List (StackObj V))
  | [] => return []
  | arg :: list => do
    let obj ← valueNodeArg arg
    return obj :: (← valueNodeArgList list)
  termination_by structural list => list

def valueNodeArg : NodeArg → MakerM ι (StackObj V)
  | .mk name value => return { name := some name.str, value := ← valueArgValue value }
  termination_by structural arg => arg

def valueArgValue : ArgValue → MakerM ι V
  | .nodeValue node => valueTreeNode node
  | .listValue list => valueNodeList list
  | .literalValue literal => return vals.literal literal
  termination_by structural value => value

def valueNodeList : NodeList → MakerM ι V
  | .mk base elems => do
    let values ← valueListElems elems 0
    let entry ← t.find base.ident
    listFromValues t strict vals entry.type values
  termination_by structural list => list

def valueListElems : List ListElem → (k : Nat) → MakerM ι (List V)
  | [], _ => return []
  | elem :: elems, k => do
    let value ← valueListElem elem k
    return value :: (← valueListElems elems (k + 1))
  termination_by structural elems => elems

def valueListElem : ListElem → (k : Nat) → MakerM ι V
  | .mk index node, k => do
    if index.toNat ≠ k then error (.listIndex index k)
    valueTreeNode node
  termination_by structural elem => elem

end

variable {t strict vals}

theorem valueListElem_run {index : UInt8} {node : TreeNode} {k : Nat} {m : MakerState ι} :
    valueListElem t strict vals (.mk index node) k m =
      if index.toNat ≠ k then .error (.error (.listIndex index k)) m else valueTreeNode t strict vals node m := by
  rw [valueListElem]
  split <;> rfl

section Returned
open Machine
variable {m m' : MakerState ι}

/-! What the runs were from which a value, or a list of values, has come back. -/

theorem valueTreeNode_returned {name : NodeName} {args : NodeArgs} {v : V}
    (returned : valueTreeNode t strict vals (.mk name args) m = .ok v m') :
    ∃ objs m₁ entry m₂, valueNodeArgs t strict vals args m = .ok objs m₁ ∧ t.find name.ident m₁ = .ok entry m₂ ∧
      nodeFromValues t strict vals entry.type args objs m₂ = .ok v m' := by
  rw [valueTreeNode] at returned
  obtain ⟨objs, m₁, valued, returned⟩ := bind_eq_ok.mp returned
  obtain ⟨entry, m₂, found, returned⟩ := bind_eq_ok.mp returned
  exact ⟨objs, m₁, entry, m₂, valued, found, returned⟩

theorem valueNodeArgList_returned {name : ArgName} {value : ArgValue} {list : List NodeArg} {objs : List (StackObj V)}
    (returned : valueNodeArgList t strict vals (.mk name value :: list) m = .ok objs m') :
    ∃ v m₁ rest, valueArgValue t strict vals value m = .ok v m₁ ∧ valueNodeArgList t strict vals list m₁ = .ok rest m' ∧
      objs = { name := some name.str, value := v } :: rest := by
  rw [valueNodeArgList] at returned
  obtain ⟨obj, m₁, first, returned⟩ := bind_eq_ok.mp returned
  obtain ⟨rest, m₂, later, returned⟩ := bind_eq_ok.mp returned
  rw [valueNodeArg] at first
  obtain ⟨v, m₃, valued, first⟩ := bind_eq_ok.mp first
  cases first
  cases returned
  exact ⟨v, m₁, rest, valued, later, rfl⟩

theorem valueNodeList_returned {base : NodeName} {elems : List ListElem} {v : V}
    (returned : valueNodeList t strict vals (.mk base elems) m = .ok v m') :
    ∃ values m₁ entry m₂, valueListElems t strict vals elems 0 m = .ok values m₁ ∧ t.find base.ident m₁ = .ok entry m₂ ∧
      listFromValues t strict vals entry.type values m₂ = .ok v m' := by
  rw [valueNodeList] at returned
  obtain ⟨values, m₁, valued, returned⟩ := bind_eq_ok.mp returned
  obtain ⟨entry, m₂, found, returned⟩ := bind_eq_ok.mp returned
  exact ⟨values, m₁, entry, m₂, valued, found, returned⟩

theorem valueListElems_returned {index : UInt8} {node : TreeNode} {elems : List ListElem} {k : Nat} {values : List V}
    (returned : valueListElems t strict vals (.mk index node :: elems) k m = .ok values m') :
    ∃ v m₁ rest, index.toNat = k ∧ valueTreeNode t strict vals node m = .ok v m₁ ∧
      valueListElems t strict vals elems (k + 1) m₁ = .ok rest m' ∧ values = v :: rest := by
  rw [valueListElems] at returned
  obtain ⟨v, m₁, first, returned⟩ := bind_eq_ok.mp returned
  obtain ⟨rest, m₂, later, returned⟩ := bind_eq_ok.mp returned
  cases returned
  rw [valueListElem_run] at first
  split at first
  next => cases first
  next same => exact ⟨v, m₁, rest, not_not.mp same, first, later, rfl⟩

end Returned

end Value

end CxxpyTree.Obj
