import CxxpyTree.Lib.Machine
import CxxpyTree.PoolAllocator
import CxxpyTree.TreeAst
import CxxpyTree.TypeTable

/-! `Evaluator` of tree/eval.cpp with the `TypeMaker` and the `NodeMaker` of tree/eval-impl.hpp.
The tracing output is left out. -/

namespace CxxpyTree.Obj

/-- The messages passed to `Obj::error`, with what they are formatted from. -/
inductive ObjError where
  | stackEmpty
  | stackIndex (k : Nat)
  | stackSize (n : Nat)
  | stackFinalSize (size : Nat)
  | stackTopKind
  | stackNameSet (name : CStr)
  | listIndex (index : UInt8) (expected : Nat)
  | unknownType (name : CStr)
  | argName (type : CStr) (k : Nat) (expected got : CStr)
  | argCast (type : CStr) (k : Nat) (src dst : CStr)
  | oneArg (type : CStr) (narg : Nat)
  | argCount (type : CStr) (narg got : Nat)
  | elemCast (type : CStr) (k : Nat) (src : CStr)
  | invalidValue (type value : CStr)
  | typeMismatch (expected actual : String)
  deriving DecidableEq, Repr

def stackName : String := "AST expression stack"

def ObjError.what : ObjError → String
  | .stackEmpty => stackName ++ " is empty"
  | .stackIndex k => stackName ++ " index '" ++ toString k ++ "' out of range"
  | .stackSize n => stackName ++ " size '" ++ toString n ++ "' out of range"
  | .stackFinalSize size => "invalid " ++ stackName ++ ": size is " ++ toString size
  | .stackTopKind => "top of " ++ stackName ++ " is not of type 'node'"
  | .stackNameSet name => "invalid " ++ stackName ++ ": obj name is not null: '" ++ String.ofList name ++ "'"
  | .listIndex index expected =>
    "invalid list index '" ++ toString index ++ "' -- expected '" ++ toString expected ++ "'"
  | .unknownType name => "unknown AST type name '" ++ String.ofList name ++ "'"
  | .argName type k expected got =>
    "ast-type " ++ String.ofList type ++ ": arg #" ++ toString k ++ ": expected name '" ++
      String.ofList expected ++ "', but got '" ++ String.ofList got ++ "'"
  | .argCast type k src dst =>
    "ast-type " ++ String.ofList type ++ ": arg #" ++ toString k ++ ": cannot cast from type '" ++
      String.ofList src ++ "' to '" ++ String.ofList dst ++ "'"
  | .oneArg type narg =>
    "ast-type " ++ String.ofList type ++ ": expected " ++ toString narg ++ " args, but got one"
  | .argCount type narg got =>
    "ast-type " ++ String.ofList type ++ ": expected " ++ toString narg ++ " args, but got " ++ toString got
  | .elemCast type k src =>
    "list<" ++ String.ofList type ++ ">: arg #" ++ toString k ++ ": cannot cast from type '" ++
      String.ofList src ++ "'"
  | .invalidValue type value => "invalid " ++ String.ofList type ++ " value '" ++ String.ofList value ++ "'"
  | .typeMismatch expected actual => "type mismatch '" ++ expected ++ "': actual type is '" ++ actual ++ "'"

/-- Why an evaluation ends before its result: a thrown `ObjError`, the fatal error of a cast that
finds a cycle, a cast that never ends, a failed `SYS_ASSERT`, an error that leaves a destructor,
a null name given to `strcmp`, or an error of the pools of `ast`. -/
inductive Stop (ι : Type) where
  | error (err : ObjError)
  | cycle (src : ObjType ι)
  | diverges (src dst : ObjType ι)
  | assertFailed
  | terminated
  | nullPtr
  | alloc (err : AllocError)
  deriving DecidableEq, Repr

inductive CompOp where
  | equal
  | notEqual
  | is
  | isNot
  deriving DecidableEq, Repr

def CompOp.name : CompOp → CStr
  | .equal => "==".toList
  | .notEqual => "!=".toList
  | .is => "is".toList
  | .isNot => "is not".toList

def CompOp.lookup (name : CStr) : Option CompOp :=
  [CompOp.equal, .notEqual, .is, .isNot].find? (fun op => op.name = name)

mutual

/-- A node of an extension library: its C++ class and its members. -/
inductive Node (ι : Type) where
  | mk (astType : ι) (fields : List (Field ι))

inductive Field (ι : Type) where
  | node (ptr : Node ι)
  | list (elems : List (Node ι))
  | charPtr (str : CStr)
  | bool (val : Bool)
  | compOp (val : CompOp)

end

/-- `obj_value_t`: the type that is checked and the pointer that travels beside it. -/
inductive ObjValue (ι : Type) where
  | node (astType : ι) (ptr : Node ι)
  | list (astType : ι) (ptr : List (Node ι))
  | cptr (ptr : CStr)

variable {ι : Type}

def ObjValue.type : ObjValue ι → ObjType ι
  | .node astType _ => .node astType
  | .list astType _ => .list astType
  | .cptr _ => .cptr .charPtr

def ObjType.kindName : ObjType ι → String
  | .node _ => "node"
  | .list _ => "list"
  | .cptr _ => "cptr"

structure StackObj (V : Type) where
  name : Option CStr := none
  value : V

/-- What the pools of `ast` are asked for: the copy of a string, the array of a list, a node. -/
inductive Request (ι : Type) where
  | chars (str : CStr)
  | ptrs (n : Nat)
  | node (astType : ι)
  deriving DecidableEq, Repr

/-- What a maker keeps from one evaluation to the next: the flag of `TypeCheck`, the last entry
`find` has returned, the nodes made in `ast` and what its pools have given, oldest first. -/
structure MakerState (ι : Type) where
  nargError : Bool := false
  cache : Option (NewFuncs ι) := none
  ast : List (Node ι) := []
  asked : List (Request ι) := []

structure EvalState (ι V : Type) where
  stack : List (StackObj V)
  maker : MakerState ι

abbrev MakerM (ι : Type) := EStateM (Stop ι) (MakerState ι)
abbrev EvalM (ι V : Type) := EStateM (Stop ι) (EvalState ι V)

def error {σ α : Type} (err : ObjError) : EStateM (Stop ι) σ α := throw (.error err)

/-- A check, which neither reads nor writes the state. -/
def check {σ α : Type} : Except (Stop ι) α → EStateM (Stop ι) σ α
  | .ok a => pure a
  | .error stop => throw stop

/-- A step of the maker inside an evaluation. -/
def withMaker {V α : Type} (step : MakerM ι α) : EvalM ι V α := fun s =>
  match step s.maker with
  | .ok a maker => .ok a { s with maker }
  | .error stop maker => .error stop { s with maker }

section Stack
variable {V : Type}

/-- `stack[k]`; the top of the stack is its first element. -/
def stackAt (k : Nat) : EvalM ι V (StackObj V) := do
  let s ← get
  match s.stack[k]? with
  | some obj => return obj
  | none => error (.stackIndex k)

def top : EvalM ι V (StackObj V) := do
  let s ← get
  match s.stack with
  | [] => error .stackEmpty
  | obj :: _ => return obj

def pop (n : Nat) : EvalM ι V Unit := do
  let s ← get
  if n ≤ 0 ∨ n > s.stack.length then error (.stackSize n)
  set { s with stack := s.stack.drop n }

def push (obj : StackObj V) : EvalM ι V Unit := modify fun s => { s with stack := obj :: s.stack }

end Stack

section TypeCheck
variable [DecidableEq ι] (t : TypeTable ι) (strict : Bool)

def CastResult.answer (src dst : ObjType ι) : CastResult → Except (Stop ι) Bool
  | .yes => .ok true
  | .no => .ok false
  | .cycle => .error (.cycle src)
  | .diverges => .error (.diverges src dst)

def checkNodeArgName (type : ι) (arg : ArgDef ι) (k : Nat) : (name : Option CStr) → Except (Stop ι) Unit
  | none => throw .nullPtr
  | some name =>
    if arg.argName ≠ name then throw (.error (.argName (t.astType type).name k arg.argName name)) else pure ()

def checkNodeArgValue (type : ι) (arg : ArgDef ι) (k : Nat) (value : ObjType ι) : Except (Stop ι) Unit := do
  let cast ← (t.objTypeCast strict arg.argType value).answer value arg.argType
  if !cast then
    throw (.error (.argCast (t.astType type).name k (t.typeName value) (t.typeName arg.argType)))

variable {V : Type} (objType : V → ObjType ι)

def checkNodeArg (type : ι) (arg : ArgDef ι) (k : Nat) (obj : StackObj V) : Except (Stop ι) Unit := do
  checkNodeArgName t type arg k obj.name
  checkNodeArgValue t strict type arg k (objType obj.value)

def narg (type : ι) : Nat := (t.astType type).args.length

def setNargError : EvalM ι V Unit :=
  modify fun s => { s with maker := { s.maker with nargError := true } }

/-- The loop of `check_node_args`: the first argument lies deepest. -/
def checkNodeArgsLoop (type : ι) : (args : List (ArgDef ι)) → (k : Nat) → EvalM ι V Unit
  | [], _ => pure ()
  | arg :: args, k => do
    check (checkNodeArg t strict objType type arg (narg t type - k) (← stackAt k))
    checkNodeArgsLoop type args (k - 1)

def checkNodeArgs (type : ι) : TreeNode → EvalM ι V Unit
  | .mk _ (.literalArgs _) => do
    if narg t type ≠ 1 then
      setNargError
      error (.oneArg (t.astType type).name (narg t type))
    match (t.astType type).args with
    | [] => pure ()
    | arg :: _ => check (checkNodeArgValue t strict type arg 1 (objType (← stackAt 0).value))
  | .mk _ (.listArgs list) => do
    if narg t type ≠ list.length then
      setNargError
      error (.argCount (t.astType type).name (narg t type) list.length)
    checkNodeArgsLoop t strict objType type (t.astType type).args (narg t type - 1)

def checkListArg (type : ι) (k : Nat) (value : ObjType ι) : Except (Stop ι) Unit := do
  let cast ← (t.listTypeCast strict type value).answer value (.node type)
  if !cast then throw (.error (.elemCast (t.astType type).name k (t.typeName value)))

/-- The loop of `check_list_args` over `k`, which counts down to zero. -/
def checkListArgsLoop (type : ι) (n : Nat) : (k : Nat) → EvalM ι V Unit
  | 0 => pure ()
  | k + 1 => do
    check (checkListArg t strict type (n - (k + 1)) (objType (← stackAt k).value))
    checkListArgsLoop type n k

def checkListArgs (type : ι) : NodeList → EvalM ι V Unit
  | .mk _ elems => checkListArgsLoop t strict objType type elems.length elems.length

def popArgs (n : Nat) : EvalM ι V Unit := do
  let s ← get
  if !s.maker.nargError then
    if n > 0 then pop n
  else
    set { s with maker := { s.maker with nargError := false } }

/-- The object that `check_node` or `check_list` returns, from its construction to its end. -/
def checked {α : Type} (init : EvalM ι V Unit) (n : Nat) (body : EvalM ι V α) : EvalM ι V α := do
  init
  Machine.destructing .terminated (popArgs n) body

end TypeCheck

namespace TypeTable

variable (t : TypeTable ι)

/-- The part of `find` after the cache. -/
def lookup (name : CStr) : Except (Stop ι) (NewFuncs ι) :=
  let rng := BinarySearch.keyRange NewFuncs.name strcmpLt t.newFuncs name
  if ¬ (rng.2 = rng.1 ∨ rng.2 = rng.1 + 1) then .error .assertFailed
  else if rng.2 = rng.1 then .error (.error (.unknownType name))
  else
    match t.newFuncs[rng.1]? with
    | some entry => .ok entry
    | none => .error .assertFailed

def find (name : CStr) : MakerM ι (NewFuncs ι) := do
  let s ← get
  match s.cache.filter (fun cache => cache.name = name) with
  | some cache => return cache
  | none =>
    let entry ← check (t.lookup name)
    set { s with cache := some entry }
    return entry

end TypeTable

/-- The virtual functions of `ObjMaker`, with `make_node` and `make_list` after their `find`. -/
structure Maker (ι V : Type) where
  objType : V → ObjType ι
  makeCptr : Literal → V
  newNode : ι → TreeNode → EvalM ι V V
  newList : ι → NodeList → EvalM ι V V

section TypeMaker
variable [DecidableEq ι] (t : TypeTable ι) (strict : Bool)

/-- The checks are temporaries: the arguments are gone before the type is returned. -/
def TypeMaker : Maker ι (ObjType ι) where
  objType := id
  makeCptr _ := .cptr .charPtr
  newNode type node := do
    checked (checkNodeArgs t strict id type node) (narg t type) (pure ())
    return .node type
  newList type list := do
    let .mk _ elems := list
    checked (checkListArgs t strict id type list) elems.length (pure ())
    return .list type

end TypeMaker

section NodeMaker
variable [DecidableEq ι] (t : TypeTable ι) (strict : Bool)

def cptrCast : CptrType → CStr → Except (Stop ι) (Field ι)
  | .charPtr, arg => pure (.charPtr arg)
  | .bool, arg =>
    if arg ≠ ['0'] ∧ arg ≠ ['1'] then throw (.error (.invalidValue CptrType.bool.name arg))
    else pure (.bool (arg.head? = some '1'))
  | .compOp, arg =>
    match CompOp.lookup arg with
    | some op => pure (.compOp op)
    | none => throw (.error (.invalidValue CptrType.compOp.name arg))

/-- `node_arg`, `list_arg` and `cptr_arg` on the value they have found. -/
def argField : (argType : ObjType ι) → ObjValue ι → Except (Stop ι) (Field ι)
  | .node _, .node _ ptr => pure (.node ptr)
  | .list _, .list _ ptr => pure (.list ptr)
  | .cptr c, .cptr ptr => cptrCast c ptr
  | argType, value => throw (.error (.typeMismatch argType.kindName value.type.kindName))

/-- The arguments of a call of `ast->new_*`, from the one of index `k` on. C++ leaves the order in
which they are computed open; here it is the order of the members. -/
def newNodeArgs (type : ι) : (args : List (ArgDef ι)) → (k : Nat) → EvalM ι (ObjValue ι) (List (Field ι))
  | [], _ => return []
  | arg :: args, k => do
    let field ← check (argField arg.argType (← stackAt (narg t type - k - 1)).value)
    return field :: (← newNodeArgs type args (k + 1))

/-- `allocate` of the pools of `ast` as long as they have room. -/
def grant (req : Request ι) : MakerM ι Unit := modify fun s => { s with asked := s.asked ++ [req] }

/-- `alloc_arg`: the nodes and the lists are there already. -/
def Field.asks : Field ι → List (Request ι)
  | .charPtr str => [.chars str]
  | _ => []

def Node.asks : Node ι → List (Request ι)
  | .mk type fields => fields.flatMap Field.asks ++ [.node type]

def listAsks (n : Nat) : List (Request ι) := if n > 0 then [.ptrs n] else []

/-- `ast->new_*`. -/
def astNew (ask : Request ι → MakerM ι Unit) (type : ι) (fields : List (Field ι)) : MakerM ι (ObjValue ι) := do
  let node := Node.mk type fields
  node.asks.forM ask
  modify fun s => { s with ast := s.ast ++ [node] }
  return .node type node

def listElemCast : ObjValue ι → Except (Stop ι) (Node ι)
  | .node _ ptr => pure ptr
  | value => throw (.error (.typeMismatch "node" value.type.kindName))

/-- The loop of `new_list<R, V>`, with `k - 1` as the index. -/
def newListElems : (k : Nat) → EvalM ι (ObjValue ι) (List (Node ι))
  | 0 => return []
  | k + 1 => do
    let elem ← check (listElemCast (← stackAt k).value)
    return elem :: (← newListElems k)

/-- The checks are named objects: the arguments stay on the stack until the value is built. -/
def NodeMaker.on (ask : Request ι → MakerM ι Unit) : Maker ι (ObjValue ι) where
  objType := ObjValue.type
  makeCptr literal := .cptr literal.str
  newNode type node :=
    checked (checkNodeArgs t strict ObjValue.type type node) (narg t type) do
      withMaker (astNew ask type (← newNodeArgs t type (t.astType type).args 0))
  newList type list := do
    let .mk _ elems := list
    checked (checkListArgs t strict ObjValue.type type list) elems.length do
      withMaker ((listAsks elems.length).forM ask)
      return .list type (← newListElems elems.length)

/-- The maker on pools that have room for every tree. -/
def NodeMaker : Maker ι (ObjValue ι) := NodeMaker.on t strict grant

end NodeMaker

section Visit
variable {V : Type} (t : TypeTable ι) (maker : Maker ι V)

def makeNode (node : TreeNode) : EvalM ι V V := do
  let .mk name _ := node
  let entry ← withMaker (t.find name.ident)
  maker.newNode entry.type node

def makeList (list : NodeList) : EvalM ι V V := do
  let .mk base _ := list
  let entry ← withMaker (t.find base.ident)
  maker.newList entry.type list

def visitLiteral (arg : Literal) : EvalM ι V Unit := push { value := maker.makeCptr arg }

def visitArgName (arg : ArgName) : EvalM ι V Unit := do
  let obj ← top
  match obj.name with
  | some name => error (.stackNameSet name)
  | none => modify fun s => { s with stack := { obj with name := some arg.str } :: s.stack.tail }

mutual

def visitTreeNode : TreeNode → EvalM ι V Unit
  | .mk name args => do
    visitNodeArgs args
    let value ← makeNode t maker (.mk name args)
    push { value }
  termination_by structural node => node

def visitNodeArgs : NodeArgs → EvalM ι V Unit
  | .listArgs list => visitNodeArgList list
  | .literalArgs literal => visitLiteral maker literal
  termination_by structural args => args

def visitNodeArgList : List NodeArg → EvalM ι V Unit
  | [] => pure ()
  | arg :: list => do
    visitNodeArg arg
    visitNodeArgList list
  termination_by structural list => list

def visitNodeArg : NodeArg → EvalM ι V Unit
  | .mk name value => do
    visitArgValue value
    visitArgName name
  termination_by structural arg => arg

def visitArgValue : ArgValue → EvalM ι V Unit
  | .nodeValue node => visitTreeNode node
  | .listValue list => visitNodeList list
  | .literalValue literal => visitLiteral maker literal
  termination_by structural value => value

def visitNodeList : NodeList → EvalM ι V Unit
  | .mk base elems => do
    visitListElems elems 0
    let value ← makeList t maker (.mk base elems)
    push { value }
  termination_by structural list => list

/-- `eval` of a list: the loop from element `k` on. -/
def visitListElems : List ListElem → (k : Nat) → EvalM ι V Unit
  | [], _ => pure ()
  | elem :: elems, k => do
    visitListElem elem k
    visitListElems elems (k + 1)
  termination_by structural elems => elems

def visitListElem : ListElem → (k : Nat) → EvalM ι V Unit
  | .mk index node, k => do
    if index.toNat ≠ k then error (.listIndex index k)
    visitTreeNode node
  termination_by structural elem => elem

end

def evalTree (tree : Tree) : EvalM ι V V := do
  visitTreeNode t maker tree.root
  let s ← get
  if s.stack.length ≠ 1 then error (.stackFinalSize s.stack.length)
  let obj ← top
  match maker.objType obj.value with
  | .node _ => return obj.value
  | _ => error .stackTopKind

/-- `Obj::eval` with a new `Evaluator` on a maker in state `m`: what it returns or how it stops,
and the state it leaves the maker in. -/
def eval (tree : Tree) (m : MakerState ι) : Except (Stop ι) V × MakerState ι :=
  match evalTree t maker tree { stack := [], maker := m } with
  | .ok value s => (.ok value, s.maker)
  | .error stop s => (.error stop, s.maker)

end Visit

end CxxpyTree.Obj
