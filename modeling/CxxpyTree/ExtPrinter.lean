import CxxpyTree.Evaluator
import CxxpyTree.SourceRoundTrip

/-! The extension libraries: what each declares about its node classes, its builders and its
printer over `ExtBasePrinter` of tree/ext-printer.hpp. -/

namespace CxxpyTree.Obj

variable {ι α β : Type}

inductive Operand where
  | node
  | list
  | repr
  | type
  deriving DecidableEq, Repr

/-- What a `visit` method sends to `ost` between the parentheses: `attr("x")`, a method called on
`arg->x`, or `endl()`. -/
inductive PrintItem where
  | attr (attr : CStr)
  | arg (operand : Operand) (member : CStr)
  | endl
  deriving DecidableEq, Repr

/-- The body of a `visit` method: `ost << empty(arg)`, or `ost << name(arg) << '(' << .. << ')'`. -/
inductive VisitBody where
  | empty
  | items (items : List PrintItem)
  deriving DecidableEq, Repr

structure ArgRead (ι : Type) where
  argType : ObjType ι  -- the type in the name of `node_arg`, `list_arg` or `cptr_arg`
  k : Nat
  deriving DecidableEq

structure ExtLibrary (ι : Type) where
  table : TypeTable ι
  nodeName : ι → CStr
  members : ι → List (ArgDef ι)  -- in the order of the constructor and of `AST::new_*`
  newNode : ι → List (ArgRead ι)  -- the arguments of `AST::new_*` in `NodeMaker::new_node<T>`
  visit : ι → VisitBody

section NodeMaker
variable [DecidableEq ι] (lib : ExtLibrary ι) (strict : Bool)

def readArgs (type : ι) : List (ArgRead ι) → EvalM ι (ObjValue ι) (List (Field ι))
  | [] => return []
  | read :: reads => do
    let field ← check (argField read.argType (← stackAt (narg lib.table type - read.k - 1)).value)
    return field :: (← readArgs type reads)

def ExtLibrary.nodeMakerOn (ask : Request ι → MakerM ι Unit) : Maker ι (ObjValue ι) :=
  { NodeMaker.on lib.table strict ask with
    newNode := fun type node =>
      checked (checkNodeArgs lib.table strict ObjValue.type type node) (narg lib.table type) do
        withMaker (astNew ask type (← readArgs lib type (lib.newNode type))) }

def ExtLibrary.nodeMaker : Maker ι (ObjValue ι) := lib.nodeMakerOn strict grant

/-- The reads of a builder that takes the arguments one after the other, each at its declared type. -/
def ownReads (args : List (ArgDef ι)) (k : Nat) : List (ArgRead ι) :=
  match args with
  | [] => []
  | arg :: args => ⟨arg.argType, k⟩ :: ownReads args (k + 1)

variable {lib}

omit [DecidableEq ι] in
theorem readArgs_own {type : ι} : ∀ {args : List (ArgDef ι)} {k : Nat},
    readArgs lib type (ownReads args k) = newNodeArgs lib.table type args k
  | [], _ => rfl
  | arg :: args, k => by
    rw [ownReads, readArgs, newNodeArgs, readArgs_own]

/-- A library whose builders read the declared arguments has the node maker of its table. -/
theorem nodeMakerOn_eq (own : ∀ type, lib.newNode type = ownReads (lib.table.astType type).args 0)
    (ask : Request ι → MakerM ι Unit) : lib.nodeMakerOn strict ask = NodeMaker.on lib.table strict ask := by
  unfold ExtLibrary.nodeMakerOn NodeMaker.on
  simp only [own, readArgs_own]

theorem nodeMaker_eq (own : ∀ type, lib.newNode type = ownReads (lib.table.astType type).args 0) :
    lib.nodeMaker strict = NodeMaker lib.table strict := nodeMakerOn_eq strict own grant

end NodeMaker

/-- The text written to `ost`, or what stands for it. -/
structure Sink (α : Type) where
  nodeBegin : CStr → List α  -- with the parenthesis
  nodeEnd : List α
  attr : CStr → List α
  quoted : CStr → List α
  listBegin : CStr → List α
  elemBegin : Nat → List α
  listEnd : List α

inductive Shown (α : Type) where
  | node (out : List α)
  | list (elems : List (List α))
  | charPtr (str : CStr)
  | bool (val : Bool)
  | compOp (val : CompOp)

def boolText (val : Bool) : CStr := if val then ['1'] else ['0']

section Printer
variable (sink : Sink α) (lib : ExtLibrary ι)

def printElems : List (List α) → (k : Nat) → List α
  | [], _ => []
  | elem :: elems, k => sink.elemBegin k ++ (elem ++ printElems elems (k + 1))

def shownMember (members : List (ArgDef ι)) (shown : List (Shown α)) (member : CStr) : Option (ArgDef ι × Shown α) :=
  (members.zip shown).find? fun pair => pair.1.argName = member

def printArg : Operand → ObjType ι → Shown α → List α
  | .node, _, .node out => out
  | .list, .list T, .list elems => sink.listBegin (lib.nodeName T) ++ (printElems sink elems 0 ++ sink.listEnd)
  | .repr, _, .charPtr str => sink.quoted str
  | .type, _, .bool val => sink.quoted (boolText val)
  | .type, _, .compOp val => sink.quoted val.name
  | _, _, _ => []

def printItem (members : List (ArgDef ι)) (shown : List (Shown α)) : PrintItem → List α
  | .attr attr => sink.attr attr
  | .arg operand member =>
    match shownMember members shown member with
    | some (arg, value) => printArg sink lib operand arg.argType value
    | none => []
  | .endl => []  -- an extension printer writes none

def printBody (members : List (ArgDef ι)) (shown : List (Shown α)) : VisitBody → List α
  | .empty => []
  | .items items => items.flatMap (printItem sink lib members shown)

def printVisit (type : ι) (shown : List (Shown α)) : List α :=
  sink.nodeBegin (lib.nodeName type) ++ (printBody sink lib (lib.members type) shown (lib.visit type) ++ sink.nodeEnd)

mutual

def printNode : Node ι → List α
  | .mk type fields => printVisit sink lib type (showFields fields)
  termination_by structural node => node

def showFields : List (Field ι) → List (Shown α)
  | [] => []
  | field :: fields => showField field :: showFields fields
  termination_by structural fields => fields

def showField : Field ι → Shown α
  | .node ptr => .node (printNode ptr)
  | .list elems => .list (printNodes elems)
  | .charPtr str => .charPtr str
  | .bool val => .bool val
  | .compOp val => .compOp val
  termination_by structural field => field

def printNodes : List (Node ι) → List (List α)
  | [] => []
  | node :: nodes => printNode node :: printNodes nodes
  termination_by structural nodes => nodes

end

end Printer

def textSink : Sink Char where
  nodeBegin name := name ++ ['(']
  nodeEnd := [')']
  attr attr := '.' :: (attr ++ ['='])
  quoted str := '\'' :: (str ++ ['\''])
  listBegin base := "list<".toList ++ (base ++ ">[".toList)
  elemBegin k := '[' :: (decimalText k ++ "]=".toList)
  listEnd := [']']

def ExtLibrary.print (lib : ExtLibrary ι) (root : Node ι) : List Char := printNode textSink lib root ++ [newline]

def leafSink : Sink Leaf where
  nodeBegin name := [.lexeme .ident name, .token .openParen]
  nodeEnd := [.token .closeParen]
  attr attr := [.token .dot, .lexeme .name attr, .token .equal]
  quoted str := [.lexeme .str str]
  listBegin base := [.token .kwList, .token .openAngbrk, .lexeme .ident base, .token .closeAngbrk, .token .openSqbrk]
  elemBegin k := [.token .openSqbrk, .index (UInt8.ofNat k), .token .closeSqbrk, .token .equal]
  listEnd := [.token .closeSqbrk]

end CxxpyTree.Obj
