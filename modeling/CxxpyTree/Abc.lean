import CxxpyTree.ExtRoundTrip
import CxxpyTree.LeafOrder

/-! The `abc` extension library: tree/abc/abc.cpp and tree/abc/printer.cpp. -/

namespace CxxpyTree.Obj.Abc

inductive NodeType where
  | node
  | a
  | b
  | c
  | d
  | n
  | m
  | p
  | q
  | r
  | l
  | s
  deriving DecidableEq, Repr

open NodeType

def nodeName : NodeType → CStr
  | node => "Node".toList
  | a => "A".toList
  | b => "B".toList
  | c => "C".toList
  | d => "D".toList
  | n => "N".toList
  | m => "M".toList
  | p => "P".toList
  | q => "Q".toList
  | r => "R".toList
  | l => "L".toList
  | s => "S".toList

def types : List NodeType := [node, a, b, c, d, n, m, p, q, r, l, s]

def astType : NodeType → AstType NodeType
  | node => ⟨"Node".toList, none, []⟩
  | a => ⟨"A".toList, some node, []⟩
  | b => ⟨"B".toList, some node, [⟨"a".toList, .node a⟩]⟩
  | c => ⟨"C".toList, some node, [⟨"b".toList, .list b⟩]⟩
  | d => ⟨"D".toList, some node, [⟨"c".toList, .cptr .charPtr⟩]⟩
  | n => ⟨"N".toList, some node, [⟨"x".toList, .node b⟩, ⟨"y".toList, .node c⟩, ⟨"z".toList, .node d⟩]⟩
  | m => ⟨"M".toList, some node, [⟨"a".toList, .node a⟩, ⟨"b".toList, .list b⟩, ⟨"c".toList, .cptr .charPtr⟩]⟩
  | p => ⟨"P".toList, some node, [⟨"x".toList, .node a⟩, ⟨"y".toList, .node a⟩]⟩
  | q => ⟨"Q".toList, some a, []⟩
  | r => ⟨"R".toList, some q, []⟩
  | l => ⟨"L".toList, some node, [⟨"q".toList, .list q⟩]⟩
  | s => ⟨"S".toList, some q, [⟨"b".toList, .cptr .bool⟩]⟩

def newFuncs : List (NewFuncs NodeType) :=
  [⟨"A".toList, a⟩, ⟨"B".toList, b⟩, ⟨"C".toList, c⟩, ⟨"D".toList, d⟩, ⟨"L".toList, l⟩, ⟨"M".toList, m⟩,
    ⟨"N".toList, n⟩, ⟨"Node".toList, node⟩, ⟨"P".toList, p⟩, ⟨"Q".toList, q⟩, ⟨"R".toList, r⟩, ⟨"S".toList, s⟩]

def table : TypeTable NodeType where
  types := types
  complete type := by cases type <;> decide
  astType := astType
  newFuncs := newFuncs

def members : NodeType → List (ArgDef NodeType)
  | node | a | q | r => []
  | b => [⟨"a".toList, .node a⟩]
  | c => [⟨"b".toList, .list b⟩]
  | d => [⟨"c".toList, .cptr .charPtr⟩]
  | n => [⟨"x".toList, .node b⟩, ⟨"y".toList, .node c⟩, ⟨"z".toList, .node d⟩]
  | m => [⟨"a".toList, .node a⟩, ⟨"b".toList, .list b⟩, ⟨"c".toList, .cptr .charPtr⟩]
  | p => [⟨"x".toList, .node a⟩, ⟨"y".toList, .node a⟩]
  | l => [⟨"q".toList, .list q⟩]
  | s => [⟨"b".toList, .cptr .bool⟩]

def newNode : NodeType → List (ArgRead NodeType)
  | node | a | q | r => []
  | b => [⟨.node a, 0⟩]
  | c => [⟨.list b, 0⟩]
  | d => [⟨.cptr .charPtr, 0⟩]
  | n => [⟨.node b, 0⟩, ⟨.node c, 1⟩, ⟨.node d, 2⟩]
  | m => [⟨.node a, 0⟩, ⟨.list b, 1⟩, ⟨.cptr .charPtr, 2⟩]
  | p => [⟨.node a, 0⟩, ⟨.node a, 1⟩]
  | l => [⟨.list q, 0⟩]
  | s => [⟨.cptr .bool, 0⟩]

/-- The method of `M` has no `attr("c")` before its last member. -/
def visit : NodeType → VisitBody
  | node | a | q | r => .empty
  | b => .items [.attr "a".toList, .arg .node "a".toList, .endl]
  | c => .items [.attr "b".toList, .arg .list "b".toList, .endl]
  | d => .items [.arg .repr "c".toList]
  | n => .items [.attr "x".toList, .arg .node "x".toList, .attr "y".toList, .arg .node "y".toList,
      .attr "z".toList, .arg .node "z".toList, .endl]
  | m => .items [.attr "a".toList, .arg .node "a".toList, .attr "b".toList, .arg .list "b".toList,
      .arg .repr "c".toList, .endl]
  | p => .items [.attr "x".toList, .arg .node "x".toList, .attr "y".toList, .arg .node "y".toList, .endl]
  | l => .items [.attr "q".toList, .arg .list "q".toList, .endl]
  | s => .items [.attr "b".toList, .arg .type "b".toList, .endl]

def library : ExtLibrary NodeType := { table, nodeName, members, newNode, visit }

/-- The pools that the constructor of `AST` makes. -/
def newAst (nodeHeap rawHeap : Heap) : Option Pools := newPools nodeHeap rawHeap 256 16384 256 16384

theorem sorted : table.Sorted := strcmpLt_total.ascending (by decide +kernel)

/-- Every type stands behind its base. -/
theorem acyclic : table.Acyclic :=
  Walk.acyclic_of_rank (fun type => types.idxOf type) fun type base step => by
    cases type <;> cases step <;> decide

theorem named : Named library where
  nodeName type := by cases type <;> decide
  attr {type _} member := by
    have all : (visit type).attrs.all (fun attr => isWord attr && attr.all isname) = true := by cases type <;> decide
    exact Bool.and_eq_true_iff.mp (List.all_eq_true.mp all _ member)

/-- Only a pointer to a `Node` could hold an `M`. -/
theorem derives_m {T : NodeType} (derives : table.Derives m T) : T = m ∨ T = node := by
  rcases Walk.Meets.cases_head derives with rfl | ⟨base, step, rest⟩
  · exact .inl rfl
  · cases step
    rcases Walk.Meets.cases_head rest with rfl | ⟨base, step, _⟩
    · exact .inr rfl
    · cases step

theorem faithful : Faithful library (· ≠ m) where
  sorted := sorted
  acyclic := acyclic
  named := named
  entry type := by cases type <;> decide
  members type := by cases type <;> rfl
  newNode type := by cases type <;> rfl
  distinct type := by cases type <;> decide
  spells {type} good := by
    cases type <;>
      first
        | exact .empty
        | exact .attrs
        | exact .literal
        | exact absurd rfl good
  closed {type src T arg} member target derives := by
    have targets : ∀ arg ∈ (astType type).args, arg.argType.target ≠ some m ∧ arg.argType.target ≠ some node := by
      cases type <;> decide
    obtain ⟨notM, notNode⟩ := targets arg member
    rintro rfl
    rcases derives_m derives with rfl | rfl
    · exact notM target
    · exact notNode target

theorem fields_m : ∀ {fields : List (Field NodeType)}, FieldsOk table (astType m).args fields →
    ∃ ptr elems str, fields = [.node ptr, .list elems, .charPtr str]
  | _, .cons (.node _ _) (.cons (.list _ _) (.cons .charPtr .nil)) => ⟨_, _, _, rfl⟩

theorem printNode_m {ptr : Node NodeType} {elems : List (Node NodeType)} {str : CStr} :
    printNode leafSink library (.mk m [.node ptr, .list elems, .charPtr str]) =
      leafSink.nodeBegin (nodeName m) ++ (leafSink.attr "a".toList ++ (printNode leafSink library ptr ++
        (leafSink.attr "b".toList ++ (leafSink.listBegin (nodeName b) ++
          printElems leafSink (printNodes leafSink library elems) 0)))) ++
      .token .closeSqbrk :: .lexeme .str str :: [.token .closeParen] := by
  simp [printNode, showFields, showField, printVisit, printBody, printItem, shownMember, printArg, library, visit, members, leafSink]

/-- The text of the last member of an `M` is printed right behind the list before it. -/
theorem not_rebuilds_m {obj : Node NodeType} (ok : NodeOk table obj) (quotable : ∀ text ∈ obj.charPtrs, Quotable text)
    (isM : obj.astType = m) (type : InputType) : ¬ Rebuilds library type obj := by
  rintro ⟨tree, _, parsed, _⟩
  have chain := follow_of_parseText (printNode_shows named ok quotable) parsed
  obtain ⟨oks⟩ := ok
  obtain rfl := isM
  obtain ⟨ptr, elems, str, rfl⟩ := fields_m oks
  rw [printNode_m, List.isChain_append_cons_cons] at chain
  have behind := chain.2.1.2 rfl
  simp [Leaf.type] at behind

/-- A printed object rebuilds to itself unless it is an `M` or has a text that is not the whole body of a literal. -/
theorem abc_rebuilds_iff (strict : Bool) (tree : Tree) (start : MakerState NodeType) (root : NodeType) (obj : Node NodeType)
    (built : (eval library.table (library.nodeMaker strict) tree start).1 = .ok (.node root obj))
    (safe : ∀ text ∈ obj.charPtrs, bareApostrophe text = false) (type : InputType) :
    Rebuilds library type obj ↔ obj.astType ≠ m ∧ ∀ text ∈ obj.charPtrs, Quotable text := by
  rw [nodeMaker_eq strict faithful.newNode] at built
  obtain ⟨ok, _⟩ := eval_object built
  constructor
  · intro rebuilds
    have quotable := quotable_of_rebuilds faithful ok safe rebuilds
    exact ⟨fun isM => not_rebuilds_m ok quotable isM type rebuilds, quotable⟩
  · rintro ⟨good, quotable⟩
    exact rebuilds_of_quotable faithful ok good quotable type

/-- An object with a node, a list, a bool and a text with an escaped apostrophe. -/
def sampleN : Node NodeType :=
  .mk n [.node (.mk b [.node (.mk s [.bool true])]),
    .node (.mk c [.list [.mk b [.node (.mk a [])], .mk b [.node (.mk r [])]]]), .node (.mk d [.charPtr "it\\'s".toList])]

theorem sampleN_ok : NodeOk table sampleN := by
  have bOf {node : Node NodeType} (fits : NodeFits table false a node) (ok : NodeOk table node) :
      NodeOk table (.mk b [.node node]) := .mk (.cons (.node fits ok) .nil)
  have listed : NodesOk table b [.mk b [.node (.mk a [])], .mk b [.node (.mk r [])]] :=
    .cons ⟨0, rfl⟩ (bOf ⟨0, rfl⟩ (.mk .nil)) (.cons ⟨0, rfl⟩ (bOf ⟨2, rfl⟩ (.mk .nil)) .nil)
  exact .mk (.cons (.node ⟨0, rfl⟩ (bOf ⟨2, rfl⟩ (.mk (.cons .bool .nil))))
    (.cons (.node ⟨0, rfl⟩ (.mk (.cons (.list (by decide) listed) .nil)))
      (.cons (.node ⟨0, rfl⟩ (.mk (.cons .charPtr .nil))) .nil)))

theorem rebuilds_sampleN : Rebuilds library .text sampleN :=
  (abc_rebuilds_iff false (printedTree library sampleN) {} n sampleN (eval_printedTree faithful sampleN_ok) (by decide)
    .text).mpr ⟨by decide, by decide⟩

/-- `M(.a=A().b=list<B>[].c='x')`, which is printed without `.c=`. -/
def sampleM : Node NodeType := .mk m [.node (.mk a []), .list [], .charPtr ['x']]

theorem abc_not_all_rebuild : ¬ ∀ (strict : Bool) (tree : Tree) (start : MakerState NodeType) (root : NodeType)
    (obj : Node NodeType), (eval library.table (library.nodeMaker strict) tree start).1 = .ok (.node root obj) →
    (∀ text ∈ obj.charPtrs, bareApostrophe text = false) → ∀ type, Rebuilds library type obj := by
  intro all
  have ok : NodeOk table sampleM :=
    .mk (.cons (.node ⟨0, rfl⟩ (.mk .nil)) (.cons (.list (by decide) .nil) (.cons .charPtr .nil)))
  exact not_rebuilds_m ok (by decide) rfl .text
    (all false (printedTree library sampleM) {} m sampleM (eval_printedTree faithful ok) (by decide) .text)

end CxxpyTree.Obj.Abc
