import CxxpyTree.ExtRoundTrip

/-! The `cxxpy` extension library: tree/cxxpy/cxxpy.cpp and tree/cxxpy/printer.cpp. -/

namespace CxxpyTree.Obj.Cxxpy

inductive NodeType where
  | node
  | ident
  | str
  | expr
  | primaryExpr
  | identExpr
  | strExpr
  | parenExpr
  | dictExpr
  | emptyDictExpr
  | keyDatumDictExpr
  | keyDatum
  | keyDatumList
  | attrRef
  | callArg
  | callArgList
  | callExpr
  | emptyCallExpr
  | argsCallExpr
  | orTest
  | andTest
  | notTest
  | comp
  | compExpr
  | stmt
  | simpleStmt
  | exprStmt
  | assertStmt
  | assertStmt1
  | assertStmt2
  | target
  | identTarget
  | attrRefTarget
  | targetList
  | assignStmt
  | delStmt
  | exprList
  | printStmt
  | simpleStmtList
  | stmtList
  | fileInput
  | interactInput
  | evalInput
  | inputInput
  deriving DecidableEq, Repr

open NodeType

def nodeName : NodeType → CStr
  | node => "Node".toList
  | ident => "Ident".toList
  | str => "Str".toList
  | expr => "Expr".toList
  | primaryExpr => "PrimaryExpr".toList
  | identExpr => "IdentExpr".toList
  | strExpr => "StrExpr".toList
  | parenExpr => "ParenExpr".toList
  | dictExpr => "DictExpr".toList
  | emptyDictExpr => "EmptyDictExpr".toList
  | keyDatumDictExpr => "KeyDatumDictExpr".toList
  | keyDatum => "KeyDatum".toList
  | keyDatumList => "KeyDatumList".toList
  | attrRef => "AttrRef".toList
  | callArg => "CallArg".toList
  | callArgList => "CallArgList".toList
  | callExpr => "CallExpr".toList
  | emptyCallExpr => "EmptyCallExpr".toList
  | argsCallExpr => "ArgsCallExpr".toList
  | orTest => "OrTest".toList
  | andTest => "AndTest".toList
  | notTest => "NotTest".toList
  | comp => "Comp".toList
  | compExpr => "CompExpr".toList
  | stmt => "Stmt".toList
  | simpleStmt => "SimpleStmt".toList
  | exprStmt => "ExprStmt".toList
  | assertStmt => "AssertStmt".toList
  | assertStmt1 => "AssertStmt1".toList
  | assertStmt2 => "AssertStmt2".toList
  | target => "Target".toList
  | identTarget => "IdentTarget".toList
  | attrRefTarget => "AttrRefTarget".toList
  | targetList => "TargetList".toList
  | assignStmt => "AssignStmt".toList
  | delStmt => "DelStmt".toList
  | exprList => "ExprList".toList
  | printStmt => "PrintStmt".toList
  | simpleStmtList => "SimpleStmtList".toList
  | stmtList => "StmtList".toList
  | fileInput => "FileInput".toList
  | interactInput => "InteractInput".toList
  | evalInput => "EvalInput".toList
  | inputInput => "InputInput".toList

def types : List NodeType :=
  [node, ident, str, expr, primaryExpr, identExpr, strExpr, parenExpr, dictExpr, emptyDictExpr, keyDatumDictExpr,
    keyDatum, keyDatumList, attrRef, callArg, callArgList, callExpr, emptyCallExpr,
    argsCallExpr, orTest, andTest, notTest, comp, compExpr, stmt, simpleStmt, exprStmt, assertStmt, assertStmt1,
    assertStmt2, target, identTarget, attrRefTarget, targetList, assignStmt, delStmt, exprList, printStmt,
    simpleStmtList, stmtList, fileInput, interactInput, evalInput, inputInput]

def astType : NodeType → AstType NodeType
  | node => ⟨"Node".toList, none, []⟩
  | ident => ⟨"Ident".toList, some node, [⟨"ident".toList, .cptr .charPtr⟩]⟩
  | str => ⟨"Str".toList, some node, [⟨"str".toList, .cptr .charPtr⟩]⟩
  | expr => ⟨"Expr".toList, some node, []⟩
  | primaryExpr => ⟨"PrimaryExpr".toList, some expr, []⟩
  | identExpr => ⟨"IdentExpr".toList, some primaryExpr, [⟨"ident".toList, .node ident⟩]⟩
  | strExpr => ⟨"StrExpr".toList, some primaryExpr, [⟨"str".toList, .node str⟩]⟩
  | parenExpr => ⟨"ParenExpr".toList, some primaryExpr, [⟨"expr".toList, .node expr⟩]⟩
  | dictExpr => ⟨"DictExpr".toList, some primaryExpr, []⟩
  | emptyDictExpr => ⟨"EmptyDictExpr".toList, some dictExpr, []⟩
  | keyDatumDictExpr => ⟨"KeyDatumDictExpr".toList, some dictExpr, [⟨"key_datums".toList, .node keyDatumList⟩]⟩
  | keyDatum => ⟨"KeyDatum".toList, some node, [⟨"expr1".toList, .node expr⟩, ⟨"expr2".toList, .node expr⟩]⟩
  | keyDatumList => ⟨"KeyDatumList".toList, some node, [⟨"list".toList, .list keyDatum⟩]⟩
  | attrRef => ⟨"AttrRef".toList, some primaryExpr, [⟨"expr".toList, .node primaryExpr⟩,
      ⟨"ident".toList, .node identExpr⟩]⟩
  | callArg => ⟨"CallArg".toList, some node, [⟨"expr".toList, .node expr⟩]⟩
  | callArgList => ⟨"CallArgList".toList, some node, [⟨"list".toList, .list callArg⟩]⟩
  | callExpr => ⟨"CallExpr".toList, some primaryExpr, []⟩
  | emptyCallExpr => ⟨"EmptyCallExpr".toList, some callExpr, [⟨"expr".toList, .node primaryExpr⟩]⟩
  | argsCallExpr => ⟨"ArgsCallExpr".toList, some callExpr, [⟨"expr".toList, .node primaryExpr⟩,
      ⟨"args".toList, .node callArgList⟩]⟩
  | orTest => ⟨"OrTest".toList, some expr, [⟨"expr1".toList, .node expr⟩, ⟨"expr2".toList, .node expr⟩]⟩
  | andTest => ⟨"AndTest".toList, some expr, [⟨"expr1".toList, .node expr⟩, ⟨"expr2".toList, .node expr⟩]⟩
  | notTest => ⟨"NotTest".toList, some expr, [⟨"expr".toList, .node expr⟩]⟩
  | comp => ⟨"Comp".toList, some node, [⟨"op".toList, .cptr .compOp⟩, ⟨"prim".toList, .node primaryExpr⟩]⟩
  | compExpr => ⟨"CompExpr".toList, some expr, [⟨"prim".toList, .node primaryExpr⟩, ⟨"comps".toList, .list comp⟩]⟩
  | stmt => ⟨"Stmt".toList, some node, []⟩
  | simpleStmt => ⟨"SimpleStmt".toList, some stmt, []⟩
  | exprStmt => ⟨"ExprStmt".toList, some simpleStmt, [⟨"expr".toList, .node expr⟩]⟩
  | assertStmt => ⟨"AssertStmt".toList, some simpleStmt, []⟩
  | assertStmt1 => ⟨"AssertStmt1".toList, some assertStmt, [⟨"expr1".toList, .node expr⟩]⟩
  | assertStmt2 => ⟨"AssertStmt2".toList, some assertStmt, [⟨"expr1".toList, .node expr⟩,
      ⟨"expr2".toList, .node expr⟩]⟩
  | target => ⟨"Target".toList, some node, []⟩
  | identTarget => ⟨"IdentTarget".toList, some target, [⟨"ident".toList, .node identExpr⟩]⟩
  | attrRefTarget => ⟨"AttrRefTarget".toList, some target, [⟨"attr".toList, .node attrRef⟩]⟩
  | targetList => ⟨"TargetList".toList, some node, [⟨"list".toList, .list target⟩]⟩
  | assignStmt => ⟨"AssignStmt".toList, some simpleStmt, [⟨"targets".toList, .node targetList⟩,
      ⟨"expr".toList, .node expr⟩]⟩
  | delStmt => ⟨"DelStmt".toList, some simpleStmt, [⟨"targets".toList, .node targetList⟩]⟩
  | exprList => ⟨"ExprList".toList, some node, [⟨"list".toList, .list expr⟩]⟩
  | printStmt => ⟨"PrintStmt".toList, some simpleStmt, [⟨"exprs".toList, .node exprList⟩,
      ⟨"trail_comma".toList, .cptr .bool⟩]⟩
  | simpleStmtList => ⟨"SimpleStmtList".toList, some stmt, [⟨"list".toList, .list simpleStmt⟩]⟩
  | stmtList => ⟨"StmtList".toList, some stmt, [⟨"list".toList, .list stmt⟩]⟩
  | fileInput => ⟨"FileInput".toList, some node, [⟨"stmts".toList, .node stmtList⟩]⟩
  | interactInput => ⟨"InteractInput".toList, some node, [⟨"stmts".toList, .node simpleStmtList⟩]⟩
  | evalInput => ⟨"EvalInput".toList, some node, [⟨"expr".toList, .node expr⟩]⟩
  | inputInput => ⟨"InputInput".toList, some node, [⟨"expr".toList, .node expr⟩]⟩

def newFuncs : List (NewFuncs NodeType) :=
  [⟨"AndTest".toList, andTest⟩, ⟨"ArgsCallExpr".toList, argsCallExpr⟩, ⟨"AssertStmt".toList, assertStmt⟩,
    ⟨"AssertStmt1".toList, assertStmt1⟩, ⟨"AssertStmt2".toList, assertStmt2⟩,
    ⟨"AssignStmt".toList, assignStmt⟩, ⟨"AttrRef".toList, attrRef⟩, ⟨"AttrRefTarget".toList, attrRefTarget⟩,
    ⟨"CallArg".toList, callArg⟩, ⟨"CallArgList".toList, callArgList⟩, ⟨"CallExpr".toList, callExpr⟩,
    ⟨"Comp".toList, comp⟩, ⟨"CompExpr".toList, compExpr⟩, ⟨"DelStmt".toList, delStmt⟩, ⟨"DictExpr".toList, dictExpr⟩,
    ⟨"EmptyCallExpr".toList, emptyCallExpr⟩, ⟨"EmptyDictExpr".toList, emptyDictExpr⟩, ⟨"EvalInput".toList, evalInput⟩,
    ⟨"Expr".toList, expr⟩, ⟨"ExprList".toList, exprList⟩, ⟨"ExprStmt".toList, exprStmt⟩,
    ⟨"FileInput".toList, fileInput⟩, ⟨"Ident".toList, ident⟩, ⟨"IdentExpr".toList, identExpr⟩,
    ⟨"IdentTarget".toList, identTarget⟩, ⟨"InputInput".toList, inputInput⟩, ⟨"InteractInput".toList, interactInput⟩,
    ⟨"KeyDatum".toList, keyDatum⟩, ⟨"KeyDatumDictExpr".toList, keyDatumDictExpr⟩,
    ⟨"KeyDatumList".toList, keyDatumList⟩, ⟨"Node".toList, node⟩, ⟨"NotTest".toList, notTest⟩,
    ⟨"OrTest".toList, orTest⟩, ⟨"ParenExpr".toList, parenExpr⟩, ⟨"PrimaryExpr".toList, primaryExpr⟩,
    ⟨"PrintStmt".toList, printStmt⟩, ⟨"SimpleStmt".toList, simpleStmt⟩, ⟨"SimpleStmtList".toList, simpleStmtList⟩,
    ⟨"Stmt".toList, stmt⟩, ⟨"StmtList".toList, stmtList⟩, ⟨"Str".toList, str⟩, ⟨"StrExpr".toList, strExpr⟩,
    ⟨"Target".toList, target⟩, ⟨"TargetList".toList, targetList⟩]

def table : TypeTable NodeType where
  types := types
  complete type := by cases type <;> decide
  astType := astType
  newFuncs := newFuncs

def members : NodeType → List (ArgDef NodeType)
  | node | expr | primaryExpr | dictExpr | emptyDictExpr | callExpr | stmt | simpleStmt | assertStmt | target => []
  | ident => [⟨"ident".toList, .cptr .charPtr⟩]
  | str => [⟨"str".toList, .cptr .charPtr⟩]
  | identExpr => [⟨"ident".toList, .node ident⟩]
  | strExpr => [⟨"str".toList, .node str⟩]
  | parenExpr => [⟨"expr".toList, .node expr⟩]
  | keyDatumDictExpr => [⟨"key_datums".toList, .node keyDatumList⟩]
  | keyDatum => [⟨"expr1".toList, .node expr⟩, ⟨"expr2".toList, .node expr⟩]
  | keyDatumList => [⟨"list".toList, .list keyDatum⟩]
  | attrRef => [⟨"expr".toList, .node primaryExpr⟩, ⟨"ident".toList, .node identExpr⟩]
  | callArg => [⟨"expr".toList, .node expr⟩]
  | callArgList => [⟨"list".toList, .list callArg⟩]
  | emptyCallExpr => [⟨"expr".toList, .node primaryExpr⟩]
  | argsCallExpr => [⟨"expr".toList, .node primaryExpr⟩, ⟨"args".toList, .node callArgList⟩]
  | orTest => [⟨"expr1".toList, .node expr⟩, ⟨"expr2".toList, .node expr⟩]
  | andTest => [⟨"expr1".toList, .node expr⟩, ⟨"expr2".toList, .node expr⟩]
  | notTest => [⟨"expr".toList, .node expr⟩]
  | comp => [⟨"op".toList, .cptr .compOp⟩, ⟨"prim".toList, .node primaryExpr⟩]
  | compExpr => [⟨"prim".toList, .node primaryExpr⟩, ⟨"comps".toList, .list comp⟩]
  | exprStmt => [⟨"expr".toList, .node expr⟩]
  | assertStmt1 => [⟨"expr1".toList, .node expr⟩]
  | assertStmt2 => [⟨"expr1".toList, .node expr⟩, ⟨"expr2".toList, .node expr⟩]
  | identTarget => [⟨"ident".toList, .node identExpr⟩]
  | attrRefTarget => [⟨"attr".toList, .node attrRef⟩]
  | targetList => [⟨"list".toList, .list target⟩]
  | assignStmt => [⟨"targets".toList, .node targetList⟩, ⟨"expr".toList, .node expr⟩]
  | delStmt => [⟨"targets".toList, .node targetList⟩]
  | exprList => [⟨"list".toList, .list expr⟩]
  | printStmt => [⟨"exprs".toList, .node exprList⟩, ⟨"trail_comma".toList, .cptr .bool⟩]
  | simpleStmtList => [⟨"list".toList, .list simpleStmt⟩]
  | stmtList => [⟨"list".toList, .list stmt⟩]
  | fileInput => [⟨"stmts".toList, .node stmtList⟩]
  | interactInput => [⟨"stmts".toList, .node simpleStmtList⟩]
  | evalInput => [⟨"expr".toList, .node expr⟩]
  | inputInput => [⟨"expr".toList, .node expr⟩]

def newNode : NodeType → List (ArgRead NodeType)
  | node | expr | primaryExpr | dictExpr | emptyDictExpr | callExpr | stmt | simpleStmt | assertStmt | target => []
  | ident => [⟨.cptr .charPtr, 0⟩]
  | str => [⟨.cptr .charPtr, 0⟩]
  | identExpr => [⟨.node ident, 0⟩]
  | strExpr => [⟨.node str, 0⟩]
  | parenExpr => [⟨.node expr, 0⟩]
  | keyDatumDictExpr => [⟨.node keyDatumList, 0⟩]
  | keyDatum => [⟨.node expr, 0⟩, ⟨.node expr, 1⟩]
  | keyDatumList => [⟨.list keyDatum, 0⟩]
  | attrRef => [⟨.node primaryExpr, 0⟩, ⟨.node identExpr, 1⟩]
  | callArg => [⟨.node expr, 0⟩]
  | callArgList => [⟨.list callArg, 0⟩]
  | emptyCallExpr => [⟨.node primaryExpr, 0⟩]
  | argsCallExpr => [⟨.node primaryExpr, 0⟩, ⟨.node callArgList, 1⟩]
  | orTest => [⟨.node expr, 0⟩, ⟨.node expr, 1⟩]
  | andTest => [⟨.node expr, 0⟩, ⟨.node expr, 1⟩]
  | notTest => [⟨.node expr, 0⟩]
  | comp => [⟨.cptr .compOp, 0⟩, ⟨.node primaryExpr, 1⟩]
  | compExpr => [⟨.node primaryExpr, 0⟩, ⟨.list comp, 1⟩]
  | exprStmt => [⟨.node expr, 0⟩]
  | assertStmt1 => [⟨.node expr, 0⟩]
  | assertStmt2 => [⟨.node expr, 0⟩, ⟨.node expr, 1⟩]
  | identTarget => [⟨.node identExpr, 0⟩]
  | attrRefTarget => [⟨.node attrRef, 0⟩]
  | targetList => [⟨.list target, 0⟩]
  | assignStmt => [⟨.node targetList, 0⟩, ⟨.node expr, 1⟩]
  | delStmt => [⟨.node targetList, 0⟩]
  | exprList => [⟨.list expr, 0⟩]
  | printStmt => [⟨.node exprList, 0⟩, ⟨.cptr .bool, 1⟩]
  | simpleStmtList => [⟨.list simpleStmt, 0⟩]
  | stmtList => [⟨.list stmt, 0⟩]
  | fileInput => [⟨.node stmtList, 0⟩]
  | interactInput => [⟨.node simpleStmtList, 0⟩]
  | evalInput => [⟨.node expr, 0⟩]
  | inputInput => [⟨.node expr, 0⟩]

def visit : NodeType → VisitBody
  | node | expr | primaryExpr | dictExpr | emptyDictExpr | callExpr | stmt | simpleStmt | assertStmt | target => .empty
  | ident => .items [.arg .repr "ident".toList]
  | str => .items [.arg .repr "str".toList]
  | identExpr => .items [.attr "ident".toList, .arg .node "ident".toList, .endl]
  | strExpr => .items [.attr "str".toList, .arg .node "str".toList, .endl]
  | parenExpr => .items [.attr "expr".toList, .arg .node "expr".toList, .endl]
  | keyDatumDictExpr => .items [.attr "key_datums".toList, .arg .node "key_datums".toList, .endl]
  | keyDatum => .items [.attr "expr1".toList, .arg .node "expr1".toList, .attr "expr2".toList,
      .arg .node "expr2".toList, .endl]
  | keyDatumList => .items [.attr "list".toList, .arg .list "list".toList, .endl]
  | attrRef => .items [.attr "expr".toList, .arg .node "expr".toList, .attr "ident".toList, .arg .node "ident".toList,
      .endl]
  | callArg => .items [.attr "expr".toList, .arg .node "expr".toList, .endl]
  | callArgList => .items [.attr "list".toList, .arg .list "list".toList, .endl]
  | emptyCallExpr => .items [.attr "expr".toList, .arg .node "expr".toList, .endl]
  | argsCallExpr => .items [.attr "expr".toList, .arg .node "expr".toList, .attr "args".toList,
      .arg .node "args".toList, .endl]
  | orTest => .items [.attr "expr1".toList, .arg .node "expr1".toList, .attr "expr2".toList,
      .arg .node "expr2".toList, .endl]
  | andTest => .items [.attr "expr1".toList, .arg .node "expr1".toList, .attr "expr2".toList,
      .arg .node "expr2".toList, .endl]
  | notTest => .items [.attr "expr".toList, .arg .node "expr".toList, .endl]
  | comp => .items [.attr "op".toList, .arg .type "op".toList, .attr "prim".toList, .arg .node "prim".toList, .endl]
  | compExpr => .items [.attr "prim".toList, .arg .node "prim".toList, .attr "comps".toList,
      .arg .list "comps".toList, .endl]
  | exprStmt => .items [.attr "expr".toList, .arg .node "expr".toList, .endl]
  | assertStmt1 => .items [.attr "expr1".toList, .arg .node "expr1".toList, .endl]
  | assertStmt2 => .items [.attr "expr1".toList, .arg .node "expr1".toList, .attr "expr2".toList,
      .arg .node "expr2".toList, .endl]
  | identTarget => .items [.attr "ident".toList, .arg .node "ident".toList, .endl]
  | attrRefTarget => .items [.attr "attr".toList, .arg .node "attr".toList, .endl]
  | targetList => .items [.attr "list".toList, .arg .list "list".toList, .endl]
  | assignStmt => .items [.attr "targets".toList, .arg .node "targets".toList, .attr "expr".toList,
      .arg .node "expr".toList, .endl]
  | delStmt => .items [.attr "targets".toList, .arg .node "targets".toList, .endl]
  | exprList => .items [.attr "list".toList, .arg .list "list".toList, .endl]
  | printStmt => .items [.attr "exprs".toList, .arg .node "exprs".toList, .attr "trail_comma".toList,
      .arg .type "trail_comma".toList, .endl]
  | simpleStmtList => .items [.attr "list".toList, .arg .list "list".toList, .endl]
  | stmtList => .items [.attr "list".toList, .arg .list "list".toList, .endl]
  | fileInput => .items [.attr "stmts".toList, .arg .node "stmts".toList, .endl]
  | interactInput => .items [.attr "stmts".toList, .arg .node "stmts".toList, .endl]
  | evalInput => .items [.attr "expr".toList, .arg .node "expr".toList, .endl]
  | inputInput => .items [.attr "expr".toList, .arg .node "expr".toList, .endl]

def library : ExtLibrary NodeType := { table, nodeName, members, newNode, visit }

theorem sorted : table.Sorted := strcmpLt_total.ascending (by decide +kernel)

/-- Every type stands behind its base. -/
theorem acyclic : table.Acyclic :=
  Walk.acyclic_of_rank (fun type => types.idxOf type) fun type base step => by
    cases type <;> cases step <;> decide

theorem named : Named library where
  nodeName type := by cases type <;> decide
  attr {type _} member := by
    have all : (visit type).attrs.all (fun attr => isWord attr && attr.all isname) = true := by cases type <;> decide
    exact Bool.and_eq_true_iff.mp (List.all_eq_true.mp all _ member)

theorem faithful : Faithful library (fun _ => True) where
  sorted := sorted
  acyclic := acyclic
  named := named
  entry type := by cases type <;> decide
  members type := by cases type <;> rfl
  newNode type := by cases type <;> rfl
  distinct type := by cases type <;> decide
  spells {type} _ := by
    cases type <;>
      first
        | exact .empty
        | exact .attrs
        | exact .literal
  closed _ _ _ := trivial

/-- The pools that the constructor of `AST` makes. -/
def newAst (nodeHeap rawHeap : Heap) : Option Pools := newPools nodeHeap rawHeap 8192 131072 4096 65536

/-- A printed object rebuilds to itself if and only if its texts are whole bodies of literals, the parser has room for the
printed tree and the library for the object. -/
theorem cxxpy_rebuilds_iff {layout : Store.Layout} {nodeHeap rawHeap : Heap} {ast : Store.AST}
    (made : Store.new nodeHeap rawHeap = some ast) (classes : Classes NodeType) (pools : Pools)
    (strict : Bool) (tree : Tree) (start : MakerState NodeType) (root : NodeType) (obj : Node NodeType)
    (built : (eval library.table (library.nodeMaker strict) tree start).1 = .ok (.node root obj))
    (safe : ∀ text ∈ obj.charPtrs, bareApostrophe text = false) (type : InputType) :
    RebuildsIn library layout ast classes pools type obj ↔ (∀ text ∈ obj.charPtrs, Quotable text) ∧
      ast.pools.Fit layout (printedTree library obj).nodes ∧ Serve classes pools obj.requests := by
  rw [nodeMaker_eq strict faithful.newNode] at built
  obtain ⟨ok, _⟩ := eval_object built
  exact rebuildsIn_iff made faithful ok trivial safe type

/-- `print x is not 'it\'s',` -/
def samplePrint : Node NodeType :=
  .mk printStmt [
    .node (.mk exprList [.list [.mk compExpr [
      .node (.mk identExpr [.node (.mk ident [.charPtr ['x']])]),
      .list [.mk comp [.compOp .isNot, .node (.mk strExpr [.node (.mk str [.charPtr "it\\'s".toList])])]]]]]),
    .bool true]

theorem samplePrint_ok : NodeOk table samplePrint := by
  have x : NodeOk table (.mk identExpr [.node (.mk ident [.charPtr ['x']])]) :=
    .mk (.cons (.node ⟨0, rfl⟩ (.mk (.cons .charPtr .nil))) .nil)
  have text : NodeOk table (.mk strExpr [.node (.mk str [.charPtr "it\\'s".toList])]) :=
    .mk (.cons (.node ⟨0, rfl⟩ (.mk (.cons .charPtr .nil))) .nil)
  have isNot : NodesOk table comp [.mk comp [.compOp .isNot, .node (.mk strExpr [.node (.mk str [.charPtr "it\\'s".toList])])]] :=
    .cons ⟨0, rfl⟩ (.mk (.cons .compOp (.cons (.node ⟨1, rfl⟩ text) .nil))) .nil
  refine .mk (.cons (.node ⟨0, rfl⟩ (.mk (.cons (.list (by decide) (.cons ⟨1, rfl⟩ (.mk ?_) .nil)) .nil))) (.cons .bool .nil))
  exact .cons (.node ⟨1, rfl⟩ x) (.cons (.list (by decide) isNot) .nil)

/-- New pools at two addresses. -/
def poolsAt : Pools := ⟨⟨8192, 131072, 65552, 65552, [], false⟩, ⟨4096, 65536, 1081344, 1081344, [], false⟩⟩

theorem poolsAt_new : newAst (heapAt 16 (by decide)) (heapAt 1048576 (by decide)) = some poolsAt := by
  have nodes : PoolAllocator.new (heapAt 16 (by decide)) 8192 131072 = some poolsAt.nodes := by decide +kernel
  have raw : PoolAllocator.new (heapAt 1048576 (by decide)) 4096 65536 = some poolsAt.raw := by decide +kernel
  rw [newAst, newPools, nodes, raw]
  rfl

theorem rebuilds_samplePrint :
    RebuildsIn library ⟨fun _ => 24, fun _ => ⟨3⟩⟩ storeAt ⟨fun _ => 24, fun _ => ⟨3⟩⟩ poolsAt .text samplePrint := by
  refine (cxxpy_rebuilds_iff storeAt_new ⟨fun _ => 24, fun _ => ⟨3⟩⟩ poolsAt false (printedTree library samplePrint) {}
    printStmt samplePrint (eval_printedTree faithful samplePrint_ok) (by decide) .text).mpr ⟨by decide, ?_, by decide +kernel⟩
  unfold Pools.Fit
  decide +kernel

/-- What a file gives whose literal ends in a backslash and a NUL, which the escape takes in. -/
def sampleStr : Node NodeType := .mk str [.charPtr "a\\".toList]

theorem sampleStr_ok : NodeOk table sampleStr := .mk (.cons .charPtr .nil)

theorem sampleStr_not_rebuilt :
    parseText .file "Str('a\\\x00')".toList = .ok (printedTree library sampleStr) ∧
      (eval library.table (library.nodeMaker false) (printedTree library sampleStr) {}).1 = .ok (.node str sampleStr) ∧
      (∀ text ∈ sampleStr.charPtrs, bareApostrophe text = false) ∧ ∀ type,
        ¬ RebuildsIn library ⟨fun _ => 24, fun _ => ⟨3⟩⟩ storeAt ⟨fun _ => 24, fun _ => ⟨3⟩⟩ poolsAt type sampleStr := by
  refine ⟨?_, eval_printedTree faithful sampleStr_ok, by decide, fun type rebuilds => ?_⟩
  · have name : nextToken false (Input.init .file "Str('a\\\x00')".toList) =
        .ok (⟨{}, .ident, "Str".toList⟩, ⟨"('a\\\x00')".toList, ⟨1, 4⟩⟩) := by decide +kernel
    have paren : nextToken false ⟨"('a\\\x00')".toList, ⟨1, 4⟩⟩ =
        .ok (⟨⟨1, 4⟩, .openParen, ['(']⟩, ⟨"'a\\\x00')".toList, ⟨1, 5⟩⟩) := by decide +kernel
    have literal : nextToken false ⟨"'a\\\x00')".toList, ⟨1, 5⟩⟩ =
        .ok (⟨⟨1, 5⟩, .str, "a\\\x00".toList⟩, ⟨[')'], ⟨1, 10⟩⟩) := by decide +kernel
    have last : nextToken false ⟨[')'], ⟨1, 10⟩⟩ = .ok (⟨⟨1, 10⟩, .closeParen, [')']⟩, ⟨[], ⟨1, 11⟩⟩) := by decide +kernel
    have ends : nextToken false ⟨[], ⟨1, 11⟩⟩ = .ok (⟨⟨1, 11⟩, .eos, []⟩, ⟨[], ⟨1, 11⟩⟩) := by decide +kernel
    have reads : Reads nextToken (⟨{}, .ident, "Str".toList⟩, ⟨"('a\\\x00')".toList, ⟨1, 4⟩⟩)
        (printedTree library sampleStr).leaves (⟨⟨1, 11⟩, .eos, []⟩, ⟨[], ⟨1, 11⟩⟩) := by
      refine .cons ⟨rfl, rfl⟩ paren ?_
      refine .cons rfl literal ?_
      refine .cons ⟨rfl, by decide⟩ last ?_
      exact .cons rfl ends .nil
    exact parseText_of_reads name reads rfl (by decide)
  · have quotable := ((rebuildsIn_iff storeAt_new faithful sampleStr_ok trivial (by decide) type).mp rebuilds).1
    revert quotable
    decide

end CxxpyTree.Obj.Cxxpy
