import CxxpyTree.Lib.Machine
import CxxpyTree.Lexer
import CxxpyTree.TreeAst

/-! The recursive descent of tree/parser.cpp over any source of tokens. Every recursive call
and every round of a loop spends one unit of fuel. -/

namespace CxxpyTree

/-- `next_token` seen from the parser: what is left of the source, under the value of `arg_ctxt`. -/
abbrev TokenSource (σ : Type) := Bool → σ → Except Stop (Token × σ)

structure ParserState (σ : Type) where
  src : σ
  tok : Token := {}
  prevTok : Token := {}
  argCtxt : Bool := false
  pool : List AstNode := []

abbrev Parser (σ : Type) := EStateM Stop (ParserState σ)

namespace Parser

variable {σ : Type} (next : TokenSource σ)

def nextToken : Parser σ Unit := do
  let s ← get
  match next s.argCtxt s.src with
  | .ok (tok, src) => set { s with tok, src }
  | .error stop => throw stop

/-- `prev_tok = tok` copies the lexeme as a C string. -/
def eatToken : Parser σ Unit := do
  modify fun s => { s with prevTok := { s.tok with lex := cstr s.tok.lex } }
  nextToken next

def peekToken (types : List TokenType) : Parser σ Bool := do
  let s ← get
  return types.contains s.tok.type

def tryToken (type : TokenType) : Parser σ Bool := do
  if ← peekToken [type] then
    eatToken next
    return true
  else return false

def error (pos : Pos) (msg : Message) : Parser σ α := throw (.error ⟨pos, msg⟩)

/-- `need_token(type, false)`. -/
def checkToken (type : TokenType) : Parser σ Unit := do
  let s ← get
  if s.tok.type ≠ type then error s.tok.pos (.expectedToken type s.tok.type)

def needToken (type : TokenType) : Parser σ Unit := do
  checkToken type
  eatToken next

/-- `func` is the name of the calling method; the message leaves out its part before `_`. -/
def missedToken (func : String) : Parser σ α := do
  let s ← get
  let ptr := func.toList.dropWhile (· != '_')
  error s.tok.pos (.unexpectedToken s.tok.type (if ptr = [] then func else String.ofList ptr.tail))

def prevTok : Parser σ Token := do
  let s ← get
  return s.prevTok

/-- The methods `AST::new_*`: the pool gets the node that is returned. -/
def newNode (wrap : α → AstNode) (node : α) : Parser σ α := do
  modify fun s => { s with pool := s.pool ++ [wrap node] }
  return node

def newTree (root : TreeNode) : Parser σ Tree := newNode .tree ⟨root⟩
def newTreenode (name : NodeName) (args : NodeArgs) : Parser σ TreeNode := newNode .treeNode (.mk name args)
def newNodename (ident : CStr) : Parser σ NodeName := newNode .nodeName ⟨ident⟩
def newListargs (list : List NodeArg) : Parser σ NodeArgs := newNode .nodeArgs (.listArgs list)
def newLiteralargs (literal : Literal) : Parser σ NodeArgs := newNode .nodeArgs (.literalArgs literal)
def newNodearg (name : ArgName) (value : ArgValue) : Parser σ NodeArg := newNode .nodeArg (.mk name value)
def newArgname (str : CStr) : Parser σ ArgName := newNode .argName ⟨str⟩
def newNodevalue (node : TreeNode) : Parser σ ArgValue := newNode .argValue (.nodeValue node)
def newListvalue (list : NodeList) : Parser σ ArgValue := newNode .argValue (.listValue list)
def newLiteralvalue (literal : Literal) : Parser σ ArgValue := newNode .argValue (.literalValue literal)
def newNodelist (base : NodeName) (elems : List ListElem) : Parser σ NodeList := newNode .nodeList (.mk base elems)
def newListelem (index : UInt8) (node : TreeNode) : Parser σ ListElem := newNode .listElem (.mk index node)
def newLiteral (str : CStr) : Parser σ Literal := newNode .literal ⟨str⟩

def listElemIdx (str : CStr) (pos : Pos) : Parser σ UInt8 :=
  match parseNum IntType.uchar str with
  | some idx => return UInt8.ofNat idx.toNat
  | none => error pos (.listElemIndex str)

def parseNodeName : Parser σ NodeName := do
  needToken next .ident
  newNodename (← prevTok).lex

def parseArgName : Parser σ ArgName := do
  needToken next .name
  newArgname (← prevTok).lex

def parseLiteral : Parser σ Literal := do
  needToken next .str
  newLiteral (← prevTok).lex

/-- The object `arg_ctxt_t guard`. -/
def argCtxtGuard : Parser σ α → Parser σ α :=
  Machine.guarded (fun s => { s with argCtxt := true }) (fun s => { s with argCtxt := false })

mutual

def parseTreeNode : Nat → Parser σ TreeNode
  | 0 => throw .outOfFuel
  | fuel + 1 => do
    let name ← parseNodeName next
    needToken next .openParen
    let args ← parseNodeArgs fuel
    needToken next .closeParen
    newTreenode name args
  termination_by structural fuel => fuel

def parseNodeArgs : Nat → Parser σ NodeArgs
  | 0 => throw .outOfFuel
  | fuel + 1 => do
    if ← peekToken [.closeParen, .dot] then
      newListargs (← parseNodeArgList fuel)
    else if ← peekToken [.str] then
      newLiteralargs (← parseLiteral next)
    else missedToken "parse_node_args"
  termination_by structural fuel => fuel

/-- The loop of `parse_node_args`. -/
def parseNodeArgList : Nat → Parser σ (List NodeArg)
  | 0 => throw .outOfFuel
  | fuel + 1 => do
    if ← peekToken [.dot] then
      let arg ← parseNodeArg fuel
      return arg :: (← parseNodeArgList fuel)
    else return []
  termination_by structural fuel => fuel

def parseNodeArg : Nat → Parser σ NodeArg
  | 0 => throw .outOfFuel
  | fuel + 1 => argCtxtGuard do
    needToken next .dot
    modify fun s => { s with argCtxt := false }
    let name ← parseArgName next
    needToken next .equal
    let value ← parseArgValue fuel
    newNodearg name value
  termination_by structural fuel => fuel

def parseArgValue : Nat → Parser σ ArgValue
  | 0 => throw .outOfFuel
  | fuel + 1 => do
    if ← peekToken [.ident] then
      newNodevalue (← parseTreeNode fuel)
    else if ← tryToken next .kwList then
      needToken next .openAngbrk
      let base ← parseNodeName next
      needToken next .closeAngbrk
      needToken next .openSqbrk
      let elems ← parseListElems fuel
      needToken next .closeSqbrk
      newListvalue (← newNodelist base elems)
    else if ← peekToken [.str] then
      newLiteralvalue (← parseLiteral next)
    else missedToken "parse_arg_value"
  termination_by structural fuel => fuel

/-- The loop of `parse_arg_value`. -/
def parseListElems : Nat → Parser σ (List ListElem)
  | 0 => throw .outOfFuel
  | fuel + 1 => do
    if ← peekToken [.openSqbrk] then
      let elem ← parseListElem fuel
      return elem :: (← parseListElems fuel)
    else return []
  termination_by structural fuel => fuel

def parseListElem : Nat → Parser σ ListElem
  | 0 => throw .outOfFuel
  | fuel + 1 => do
    needToken next .openSqbrk
    needToken next .num
    let tok ← prevTok
    let idx ← listElemIdx tok.lex tok.pos
    needToken next .closeSqbrk
    needToken next .equal
    newListelem idx (← parseTreeNode fuel)
  termination_by structural fuel => fuel

end

def parseTree (fuel : Nat) : Parser σ Tree := do
  newTree (← parseTreeNode next fuel)

/-- `Parser::parse`; the pool of the final state is that of the returned `AST`. -/
def parse (fuel : Nat) : Parser σ Tree := do
  nextToken next
  let tree ← parseTree next fuel
  checkToken .eos
  return tree

/-- The result of a parser without its final state. -/
def result : EStateM.Result Stop (ParserState σ) α → Except Stop α
  | .ok a _ => .ok a
  | .error stop _ => .error stop

end Parser

/-- The tokens of a list, one a call. The list ends with EOS, past which the parser never asks. -/
def listSource : TokenSource (List Token)
  | _, [] => .error .assertFailed
  | _, tok :: toks => .ok (tok, toks)

def parseTokens (toks : List Token) : Except Stop Tree :=
  Parser.result (Parser.parse listSource (2 * toks.length + 8) { src := toks })

def parseText (type : InputType) (input : List Char) : Except Stop Tree :=
  let s := Input.init type input
  Parser.result (Parser.parse nextToken (2 * s.rest.length + 8) { src := s })

end CxxpyTree
