import CxxpyTree.Lib.TwoRuns
import CxxpyTree.LexerRun
import CxxpyTree.Mirror

/-! The tracing code of tree/parser.cpp in a DEBUG build: what `skip_spaces` and `dump` assert before
they print, and the parser with its calls of `dump`. -/

namespace CxxpyTree

open Machine

/-- `Sys::digits(unsigned)`: a position is cut to 32 bits on the way in. -/
def digits (val : Nat) : Nat := (Nat.toDigits 10 (val % 2 ^ 32)).length

/-- The width of a printed position. -/
def Pos.width (pos : Pos) : Nat := digits pos.line + digits pos.col

def sysAssert (holds : Bool) : Except Stop Unit := if holds then .ok ⟨⟩ else .error .assertFailed

/-- The tracing code of `skip_spaces`. Returns whether it has moved `ptr` past the end of the input,
over the newline that ends it. -/
def traceSpaces (debug inputNle : Bool) (s : Input) : Except Stop Bool :=
  let ptr := (skipSpaces s).rest
  if debug ∧ ptr.length < s.rest.length then do
    sysAssert (s.pos.width ≤ 2 + 4)
    return ptr.isEmpty && inputNle
  else return false

/-- The assertions of `dump`. -/
def traceToken (pos : Pos) (tok : Token) : Except Stop Unit := do
  sysAssert (pos.width ≤ 6 + 4)
  sysAssert (tok.pos.width ≤ 6 + 4)
  sysAssert ((tokenName tok.type).length ≤ 5 + 8)
  sysAssert ((cstr tok.lex).length ≤ 2 + 16)

/-- `if (debug) dump(__func__)`, at the position of the source and the current token. -/
def dumpToken (debug : Bool) (pos : Pos) (tok : Token) : Except Stop Unit :=
  if debug then traceToken pos tok else return

/-- `[input_ptr, input_end)`, and whether `input_ptr` is past `input_end`. -/
structure Scanner where
  input : Input
  past : Bool := false

/-- `next_token` of a DEBUG build. From a pointer past the end `find_if` would leave the buffer;
nothing is promised there. -/
def tracedNextToken (debug inputNle : Bool) : TokenSource Scanner := fun argCtxt s => do
  sysAssert (!s.past)
  let past ← traceSpaces debug inputNle s.input
  let (tok, input) ← nextToken argCtxt s.input
  dumpToken debug input.pos tok
  return (tok, { input, past })

def dump (debug : Bool) : Parser Scanner Unit := do
  let s ← get
  match dumpToken debug s.src.input.pos s.tok with
  | .ok _ => return
  | .error stop => throw stop

/-! The methods of the parser with their calls of `dump`. -/

namespace Traced

open CxxpyTree.Parser

variable {σ : Type} (next : TokenSource σ) (dump : Parser σ Unit)

def parseNodeName : Parser σ NodeName := do
  dump
  needToken next .ident
  newNodename (← prevTok).lex

def parseArgName : Parser σ ArgName := do
  dump
  needToken next .name
  newArgname (← prevTok).lex

def parseLiteral : Parser σ Literal := do
  dump
  needToken next .str
  newLiteral (← prevTok).lex

mutual

def parseTreeNode : Nat → Parser σ TreeNode
  | 0 => throw .outOfFuel
  | fuel + 1 => do
    dump
    let name ← parseNodeName next dump
    needToken next .openParen
    let args ← parseNodeArgs fuel
    needToken next .closeParen
    newTreenode name args
  termination_by structural fuel => fuel

def parseNodeArgs : Nat → Parser σ NodeArgs
  | 0 => throw .outOfFuel
  | fuel + 1 => do
    dump
    if ← peekToken [.closeParen, .dot] then
      newListargs (← parseNodeArgList fuel)
    else if ← peekToken [.str] then
      newLiteralargs (← parseLiteral next dump)
    else missedToken "parse_node_args"
  termination_by structural fuel => fuel

/-- The loop of `parse_node_args`. -/
def parseNodeArgList : Nat → Parser σ (List NodeArg)
  | 0 => throw .outOfFuel
  | fuel + 1 => do
    if ← peekToken [.dot] then
      dump
      let arg ← parseNodeArg fuel
      return arg :: (← parseNodeArgList fuel)
    else return []
  termination_by structural fuel => fuel

def parseNodeArg : Nat → Parser σ NodeArg
  | 0 => throw .outOfFuel
  | fuel + 1 => do
    dump
    argCtxtGuard do
      needToken next .dot
      modify fun s => { s with argCtxt := false }
      let name ← parseArgName next dump
      needToken next .equal
      let value ← parseArgValue fuel
      newNodearg name value
  termination_by structural fuel => fuel

def parseArgValue : Nat → Parser σ ArgValue
  | 0 => throw .outOfFuel
  | fuel + 1 => do
    dump
    if ← peekToken [.ident] then
      newNodevalue (← parseTreeNode fuel)
    else if ← tryToken next .kwList then
      needToken next .openAngbrk
      let base ← parseNodeName next dump
      needToken next .closeAngbrk
      needToken next .openSqbrk
      let elems ← parseListElems fuel
      needToken next .closeSqbrk
      newListvalue (← newNodelist base elems)
    else if ← peekToken [.str] then
      newLiteralvalue (← parseLiteral next dump)
    else missedToken "parse_arg_value"
  termination_by structural fuel => fuel

/-- The loop of `parse_arg_value`. -/
def parseListElems : Nat → Parser σ (List ListElem)
  | 0 => throw .outOfFuel
  | fuel + 1 => do
    if ← peekToken [.openSqbrk] then
      dump
      let elem ← parseListElem fuel
      return elem :: (← parseListElems fuel)
    else return []
  termination_by structural fuel => fuel

def parseListElem : Nat → Parser σ ListElem
  | 0 => throw .outOfFuel
  | fuel + 1 => do
    dump
    needToken next .openSqbrk
    needToken next .num
    let tok ← prevTok
    let idx ← listElemIdx tok.lex tok.pos
    needToken next .closeSqbrk
    needToken next .equal
    newListelem idx (← parseTreeNode fuel)
  termination_by structural fuel => fuel

end

def parseTree (fuel : Nat) : Parser σ Tree := do
  dump
  newTree (← parseTreeNode next dump fuel)

def parse (fuel : Nat) : Parser σ Tree := do
  Parser.nextToken next
  dump
  let tree ← parseTree next dump fuel
  checkToken .eos
  return tree

end Traced

section Silent
variable {σ : Type} {next : TokenSource σ} {dump : Parser σ Unit} {shown : Token → σ → Prop}

/-- Every token that the source gives can be shown, and `dump` only looks at such a token. -/
structure Silent (next : TokenSource σ) (dump : Parser σ Unit) (shown : Token → σ → Prop) : Prop where
  dump : ∀ s, shown s.tok s.src → dump s = .ok ⟨⟩ s
  next : ∀ {ctxt src tok src'}, next ctxt src = .ok (tok, src') → shown tok src'

/-- With its calls of `dump` a method does what it does without. -/
def Adds (shown : Token → σ → Prop) (x y : Parser σ α) : Prop := SameUnder (fun s => shown s.tok s.src) x y

namespace Adds
variable {x y : Parser σ α}

theorem bind {f g : α → Parser σ β} (first : Adds shown x y) (rest : ∀ a, Adds shown (f a) (g a)) :
    Adds shown (x >>= f) (y >>= g) := SameUnder.bind first rest

theorem dumped (silent : Silent next dump shown) (body : Adds shown x y) : Adds shown (do dump; x) y :=
  SameUnder.silent silent.dump body

theorem prevTok : Adds shown Parser.prevTok Parser.prevTok := .refl fun _ held => held

theorem newNode {wrap : α → AstNode} {node : α} : Adds shown (Parser.newNode wrap node) (Parser.newNode wrap node) :=
  .refl fun _ held => held

theorem modifyCtxt {ctxt : Bool} : Adds shown (modify fun s => { s with argCtxt := ctxt })
    (modify fun s => { s with argCtxt := ctxt }) := .refl fun _ held => held

theorem pure {a : α} : Adds shown (Pure.pure a) (Pure.pure a) := .refl .pure

theorem outOfFuel : Adds shown (throw .outOfFuel : Parser σ α) (throw .outOfFuel) := .refl .throw

theorem missedToken {func : String} : Adds shown (Parser.missedToken func : Parser σ α) (Parser.missedToken func) :=
  .refl fun _ held => held

theorem listElemIdx {str : CStr} {pos : Pos} : Adds shown (Parser.listElemIdx str pos) (Parser.listElemIdx str pos) := by
  rw [Parser.listElemIdx]
  split
  · exact .pure
  · exact .refl .throw

theorem peek {types : List TokenType} {x' y' : Parser σ α} (first : Adds shown x y) (second : Adds shown x' y') :
    Adds shown (do if ← Parser.peekToken types then x else x') (do if ← Parser.peekToken types then y else y') := by
  apply SameUnder.bind (.refl fun _ held => held)
  intro found
  exact SameUnder.ite first second

theorem argCtxtGuard (body : Adds shown x y) : Adds shown (Parser.argCtxtGuard x) (Parser.argCtxtGuard y) :=
  .guarded (fun _ held => held) (fun _ held => held) body

theorem needToken (silent : Silent next dump shown) {type : TokenType} :
    Adds shown (Parser.needToken next type) (Parser.needToken next type) := by
  apply SameUnder.refl
  intro s held
  apply wp_bind.mpr
  apply wp_checkToken
  · intro _
    apply wp_bind.mpr
    apply wp_nextToken
    · exact fun tok src step => silent.next step
    · exact fun stop step => held
  · exact fun _ => held

/-- The methods of the rules that are a single word. -/
theorem word (silent : Silent next dump shown) {type : TokenType} {wrap : α → AstNode} {make : CStr → α} :
    Adds shown (do
        dump
        Parser.needToken next type
        Parser.newNode wrap (make (← Parser.prevTok).lex))
      (do
        Parser.needToken next type
        Parser.newNode wrap (make (← Parser.prevTok).lex)) :=
  .dumped silent (.bind (.needToken silent) fun _ => .bind .prevTok fun _ => .newNode)

end Adds

variable (silent : Silent next dump shown)
include silent

theorem parseNodeName_adds : Adds shown (Traced.parseNodeName next dump) (Parser.parseNodeName next) := .word silent

theorem parseArgName_adds : Adds shown (Traced.parseArgName next dump) (Parser.parseArgName next) := .word silent

theorem parseLiteral_adds : Adds shown (Traced.parseLiteral next dump) (Parser.parseLiteral next) := .word silent

mutual

theorem parseTreeNode_adds : ∀ fuel, Adds shown (Traced.parseTreeNode next dump fuel) (Parser.parseTreeNode next fuel)
  | 0 => .outOfFuel
  | fuel + 1 => by
    rw [Traced.parseTreeNode, Parser.parseTreeNode]
    apply Adds.dumped silent
    apply Adds.bind (parseNodeName_adds silent)
    intro name
    apply Adds.bind (.needToken silent)
    intro _
    apply Adds.bind (parseNodeArgs_adds fuel)
    intro args
    exact .bind (.needToken silent) fun _ => .newNode
  termination_by structural fuel => fuel

theorem parseNodeArgs_adds : ∀ fuel, Adds shown (Traced.parseNodeArgs next dump fuel) (Parser.parseNodeArgs next fuel)
  | 0 => .outOfFuel
  | fuel + 1 => by
    rw [Traced.parseNodeArgs, Parser.parseNodeArgs]
    apply Adds.dumped silent
    apply Adds.peek
    · exact .bind (parseNodeArgList_adds fuel) fun _ => .newNode
    · apply Adds.peek
      · exact .bind (parseLiteral_adds silent) fun _ => .newNode
      · exact .missedToken
  termination_by structural fuel => fuel

theorem parseNodeArgList_adds : ∀ fuel,
    Adds shown (Traced.parseNodeArgList next dump fuel) (Parser.parseNodeArgList next fuel)
  | 0 => .outOfFuel
  | fuel + 1 => by
    rw [Traced.parseNodeArgList, Parser.parseNodeArgList]
    apply Adds.peek
    · apply Adds.dumped silent
      apply Adds.bind (parseNodeArg_adds fuel)
      intro arg
      exact .bind (parseNodeArgList_adds fuel) fun _ => .pure
    · exact .pure
  termination_by structural fuel => fuel

theorem parseNodeArg_adds : ∀ fuel, Adds shown (Traced.parseNodeArg next dump fuel) (Parser.parseNodeArg next fuel)
  | 0 => .outOfFuel
  | fuel + 1 => by
    rw [Traced.parseNodeArg, Parser.parseNodeArg]
    apply Adds.dumped silent
    apply Adds.argCtxtGuard
    apply Adds.bind (.needToken silent)
    intro _
    apply Adds.bind .modifyCtxt
    intro _
    apply Adds.bind (parseArgName_adds silent)
    intro name
    apply Adds.bind (.needToken silent)
    intro _
    exact .bind (parseArgValue_adds fuel) fun _ => .newNode
  termination_by structural fuel => fuel

theorem parseArgValue_adds : ∀ fuel, Adds shown (Traced.parseArgValue next dump fuel) (Parser.parseArgValue next fuel)
  | 0 => .outOfFuel
  | fuel + 1 => by
    rw [Traced.parseArgValue, Parser.parseArgValue]
    apply Adds.dumped silent
    apply Adds.peek
    · exact .bind (parseTreeNode_adds fuel) fun _ => .newNode
    · rw [tryToken_bind, tryToken_bind]
      apply Adds.peek
      · apply Adds.bind (.needToken silent)
        intro _
        apply Adds.bind (.needToken silent)
        intro _
        apply Adds.bind (parseNodeName_adds silent)
        intro base
        apply Adds.bind (.needToken silent)
        intro _
        apply Adds.bind (.needToken silent)
        intro _
        apply Adds.bind (parseListElems_adds fuel)
        intro elems
        exact .bind (.needToken silent) fun _ => .bind .newNode fun _ => .newNode
      · apply Adds.peek
        · exact .bind (parseLiteral_adds silent) fun _ => .newNode
        · exact .missedToken
  termination_by structural fuel => fuel

theorem parseListElems_adds : ∀ fuel, Adds shown (Traced.parseListElems next dump fuel) (Parser.parseListElems next fuel)
  | 0 => .outOfFuel
  | fuel + 1 => by
    rw [Traced.parseListElems, Parser.parseListElems]
    apply Adds.peek
    · apply Adds.dumped silent
      apply Adds.bind (parseListElem_adds fuel)
      intro elem
      exact .bind (parseListElems_adds fuel) fun _ => .pure
    · exact .pure
  termination_by structural fuel => fuel

theorem parseListElem_adds : ∀ fuel, Adds shown (Traced.parseListElem next dump fuel) (Parser.parseListElem next fuel)
  | 0 => .outOfFuel
  | fuel + 1 => by
    rw [Traced.parseListElem, Parser.parseListElem]
    apply Adds.dumped silent
    apply Adds.bind (.needToken silent)
    intro _
    apply Adds.bind (.needToken silent)
    intro _
    apply Adds.bind .prevTok
    intro tok
    apply Adds.bind .listElemIdx
    intro idx
    apply Adds.bind (.needToken silent)
    intro _
    apply Adds.bind (.needToken silent)
    intro _
    exact .bind (parseTreeNode_adds fuel) fun _ => .newNode
  termination_by structural fuel => fuel

end

theorem parse_adds (fuel : Nat) : Traced.parse next dump fuel = Parser.parse next fuel := by
  have rest : Adds shown (do
      dump
      let tree ← Traced.parseTree next dump fuel
      Parser.checkToken .eos
      return tree) (do
      let tree ← Parser.parseTree next fuel
      Parser.checkToken .eos
      return tree) := by
    apply Adds.dumped silent
    apply Adds.bind
    · apply Adds.dumped silent
      exact .bind (parseTreeNode_adds silent fuel) fun _ => .newNode
    · intro tree
      apply Adds.bind _ fun _ => .pure
      apply SameUnder.refl
      intro s held
      exact wp_checkToken (fun _ => held) fun _ => held
  funext s
  cases outcome : Parser.nextToken next s with
  | ok _ s' =>
    have shows : shown s'.tok s'.src := by
      have run : wp (Parser.nextToken next) (fun _ s' => shown s'.tok s'.src) (fun _ _ => True) s :=
        wp_nextToken (fun tok src step => silent.next step) fun _ _ => trivial
      exact run.of_ok outcome
    rw [Traced.parse, Parser.parse, bind_of_ok outcome, bind_of_ok outcome]
    exact (rest s' shows).1
  | error stop s' => rw [Traced.parse, Parser.parse, bind_of_error outcome, bind_of_error outcome]

end Silent

/-- `Parser::parse` in a DEBUG build, under its debug flag. -/
def parseTextDebug (debug : Bool) (type : InputType) (input : List Char) : Except Stop Tree :=
  let s := Input.init type input
  let inputNle := (inputBytes type input).getLast? = some newline
  Parser.result (Traced.parse (tracedNextToken debug inputNle) (dump debug) (2 * s.rest.length + 8) { src := { input := s } })

end CxxpyTree
