import CxxpyTree.AstStore
import CxxpyTree.Parser

/-! The parser of tree/parser.cpp with the `AST` that it fills: its methods return pointers to nodes, and
the pools of the `AST` may be too small for them. Where they have `if (debug) dump(__func__)` they call `dump`. -/

namespace CxxpyTree

/-- What ends a parse: an exception of the parser or one of the `AST`. -/
inductive StoredStop where
  | parser (stop : Stop)
  | store (err : Store.StoreError)
  deriving DecidableEq, Repr

/-- The members of the parser and the `AST` behind its pointer; the nodes are all in the `AST`. -/
abbrev StoredParser (σ : Type) := EStateM StoredStop (ParserState σ × Store.AST)

namespace Stored

variable {σ α : Type}

/-- A call of the parser's own methods on tokens. -/
def onParser (x : Parser σ α) : StoredParser σ α := fun s =>
  match x s.1 with
  | .ok a parser => .ok a (parser, s.2)
  | .error stop parser => .error (.parser stop) (parser, s.2)

/-- A call of a method of `ast`. -/
def onAst (x : Store.StoreM α) : StoredParser σ α := fun s =>
  match x s.2 with
  | .ok a ast => .ok a (s.1, ast)
  | .error err ast => .error (.store err) (s.1, ast)

variable (next : TokenSource σ) (dump : Parser σ Unit) (layout : Store.Layout)

def needToken (type : TokenType) : StoredParser σ Unit := onParser (Parser.needToken next type)
def peekToken (types : List TokenType) : StoredParser σ Bool := onParser (Parser.peekToken types)
def prevTok : StoredParser σ Token := onParser Parser.prevTok

def parseNodeName : StoredParser σ Nat := do
  onParser dump
  needToken next .ident
  onAst (Store.newNodename layout (some (← prevTok).lex))

def parseArgName : StoredParser σ Nat := do
  onParser dump
  needToken next .name
  onAst (Store.newArgname layout (some (← prevTok).lex))

def parseLiteral : StoredParser σ Nat := do
  onParser dump
  needToken next .str
  onAst (Store.newLiteral layout (some (← prevTok).lex))

/-- The object `arg_ctxt_t guard`. -/
def argCtxtGuard : StoredParser σ α → StoredParser σ α :=
  Machine.guarded (fun s => ({ s.1 with argCtxt := true }, s.2)) (fun s => ({ s.1 with argCtxt := false }, s.2))

mutual

def parseTreeNode : Nat → StoredParser σ Nat
  | 0 => onParser (throw .outOfFuel)
  | fuel + 1 => do
    onParser dump
    let name ← parseNodeName next dump layout
    needToken next .openParen
    let args ← parseNodeArgs fuel
    needToken next .closeParen
    onAst (Store.newTreenode layout name args)
  termination_by structural fuel => fuel

def parseNodeArgs : Nat → StoredParser σ Nat
  | 0 => onParser (throw .outOfFuel)
  | fuel + 1 => do
    onParser dump
    if ← peekToken [.closeParen, .dot] then
      let args ← parseNodeArgList fuel
      onAst (Store.newListargs layout (some args))
    else if ← peekToken [.str] then
      let literal ← parseLiteral next dump layout
      onAst (Store.newLiteralargs layout literal)
    else onParser (Parser.missedToken "parse_node_args")
  termination_by structural fuel => fuel

/-- The loop of `parse_node_args`: the pointers that it pushes back. -/
def parseNodeArgList : Nat → StoredParser σ (List Nat)
  | 0 => onParser (throw .outOfFuel)
  | fuel + 1 => do
    if ← peekToken [.dot] then
      onParser dump
      let arg ← parseNodeArg fuel
      return arg :: (← parseNodeArgList fuel)
    else return []
  termination_by structural fuel => fuel

def parseNodeArg : Nat → StoredParser σ Nat
  | 0 => onParser (throw .outOfFuel)
  | fuel + 1 => do
    onParser dump
    argCtxtGuard do
      needToken next .dot
      onParser (modify fun s => { s with argCtxt := false })
      let name ← parseArgName next dump layout
      needToken next .equal
      let value ← parseArgValue fuel
      onAst (Store.newNodearg layout name value)
  termination_by structural fuel => fuel

def parseArgValue : Nat → StoredParser σ Nat
  | 0 => onParser (throw .outOfFuel)
  | fuel + 1 => do
    onParser dump
    if ← peekToken [.ident] then
      let node ← parseTreeNode fuel
      onAst (Store.newNodevalue layout node)
    else if ← onParser (Parser.tryToken next .kwList) then
      needToken next .openAngbrk
      let base ← parseNodeName next dump layout
      needToken next .closeAngbrk
      needToken next .openSqbrk
      let elems ← parseListElems fuel
      needToken next .closeSqbrk
      let list ← onAst (Store.newNodelist layout base (some elems))
      onAst (Store.newListvalue layout list)
    else if ← peekToken [.str] then
      let literal ← parseLiteral next dump layout
      onAst (Store.newLiteralvalue layout literal)
    else onParser (Parser.missedToken "parse_arg_value")
  termination_by structural fuel => fuel

/-- The loop of `parse_arg_value`: the pointers that it pushes back. -/
def parseListElems : Nat → StoredParser σ (List Nat)
  | 0 => onParser (throw .outOfFuel)
  | fuel + 1 => do
    if ← peekToken [.openSqbrk] then
      onParser dump
      let elem ← parseListElem fuel
      return elem :: (← parseListElems fuel)
    else return []
  termination_by structural fuel => fuel

def parseListElem : Nat → StoredParser σ Nat
  | 0 => onParser (throw .outOfFuel)
  | fuel + 1 => do
    onParser dump
    needToken next .openSqbrk
    needToken next .num
    let tok ← prevTok
    let idx ← onParser (Parser.listElemIdx tok.lex tok.pos)
    needToken next .closeSqbrk
    needToken next .equal
    let node ← parseTreeNode fuel
    onAst (Store.newListelem layout idx node)
  termination_by structural fuel => fuel

end

def parseTree (fuel : Nat) : StoredParser σ Nat := do
  onParser dump
  let root ← parseTreeNode next dump layout fuel
  onAst (Store.newTree layout root)

/-- `Parser::parse`: the `AST` that it returns is that of the final state. -/
def parse (fuel : Nat) : StoredParser σ Unit := do
  onParser (Parser.nextToken next)
  onParser dump
  let tree ← parseTree next dump layout fuel
  onAst (Store.rootNode tree)
  onParser (Parser.checkToken .eos)

/-- A parse without tracing code into an `AST` that was just constructed. -/
def parseText (type : InputType) (input : List Char) (ast : Store.AST) : Except StoredStop Store.AST :=
  let s := Input.init type input
  match parse nextToken (pure ⟨⟩) layout (2 * s.rest.length + 8) ({ src := s }, ast) with
  | .ok _ (_, ast) => .ok ast
  | .error stop _ => .error stop

end Stored

end CxxpyTree
