import CxxpyTree.BasicPrinter
import CxxpyTree.StoredTree

/-! The printers of tree/printer.cpp over an `AST` as it lies in its pools: they follow its pointers, and a visit
depends on the class of the node that a pointer leads to. -/

namespace CxxpyTree
open BasicPrinter Store

namespace Stored

/-! Every pointer that is followed spends one unit of fuel. A visit ends with nothing when a pointer leads to no
node, or to one whose class has other members. -/

section Visitors
variable (verbose : Bool) (ast : Store.AST)

/-- The loop of `print_list` from element `k` on. -/
def printList (print : Int → Nat → Option (List Write)) (level : Int) (k : Nat) : List Nat → Option (List Write)
  | [] => some []
  | ptr :: list => do
    let elem ← print (level + 1) ptr
    return elemWrites verbose level k ++ elem ++ (← printList print level (k + 1) list)

/-- `print(node)` of `Printer` and `Dumper`; the level is the one that it has entered. -/
def print : Nat → Int → Nat → Option (List Write)
  | 0, _, _ => none
  | fuel + 1, level, ptr => do
    let node ← ast.object ptr
    match node.type, node.members with
    | .literal, [.string str] => return textNode "Literal".toList str
    | .listElem, [.index index, .node node] =>
      return fieldsNode level "ListElem".toList
        (attr verbose level "index".toList ++ typeIndex index ++ attr verbose level "node".toList ++
          (← print fuel (level + 1) node))
    | .nodeName, [.string ident] => return textNode "NodeName".toList ident
    | .nodeList, [.node base, .list elems] =>
      return fieldsNode level "NodeList".toList
        (attr verbose level "base".toList ++ (← print fuel (level + 1) base) ++ attr verbose level "elems".toList ++
          listWrites (level + 1) "ListElem".toList elems.isEmpty (← printList verbose (print fuel) (level + 1) 0 elems))
    | .argName, [.string str] => return textNode "ArgName".toList str
    | .nodeValue, [.node node] =>
      return fieldsNode level "NodeValue".toList (attr verbose level "node".toList ++ (← print fuel (level + 1) node))
    | .listValue, [.node list] =>
      return fieldsNode level "ListValue".toList (attr verbose level "list".toList ++ (← print fuel (level + 1) list))
    | .literalValue, [.node literal] =>
      return fieldsNode level "LiteralValue".toList
        (attr verbose level "literal".toList ++ (← print fuel (level + 1) literal))
    | .nodeArg, [.node name, .node value] =>
      return fieldsNode level "NodeArg".toList
        (attr verbose level "name".toList ++ (← print fuel (level + 1) name) ++ attr verbose level "value".toList ++
          (← print fuel (level + 1) value))
    | .listArgs, [.list list] =>
      return fieldsNode level "ListArgs".toList
        (attr verbose level "list".toList ++
          listWrites (level + 1) "NodeArg".toList list.isEmpty (← printList verbose (print fuel) (level + 1) 0 list))
    | .literalArgs, [.node literal] =>
      return fieldsNode level "LiteralArgs".toList
        (attr verbose level "literal".toList ++ (← print fuel (level + 1) literal))
    | .treeNode, [.node name, .node args] =>
      return fieldsNode level "TreeNode".toList
        (attr verbose level "name".toList ++ (← print fuel (level + 1) name) ++ attr verbose level "args".toList ++
          (← print fuel (level + 1) args))
    | .tree, [.node root] =>
      return fieldsNode level "Tree".toList (attr verbose level "root".toList ++ (← print fuel (level + 1) root))
    | _, _ => none

/-- `Printer::print(ast)` and `Dumper::print(ast)`. -/
def printAst (dots : Bool) : Option (List Char) := do
  return output dots (← print verbose ast ast.objects.length 0 ast.root) ++ [newline]

end Visitors

/-! `SourcePrinter`. -/

namespace Source
variable (pretty : Bool) (ast : Store.AST)

/-- The loop of `print` over a list; `level` is one more than outside. -/
def printList (print : Int → Nat → Option (List Write)) (level : Int) : List Nat → Option (List Write)
  | [] => some []
  | ptr :: list => do
    let elem ← print level ptr
    return BasicPrinter.Source.whenPretty pretty [.endl level] ++ (elem ++ (← printList print level list))

/-- The whole of `print` over a list. -/
def listWrites (level : Int) (empty : Bool) (elems : List Write) : List Write :=
  elems ++ BasicPrinter.Source.whenPretty pretty (if empty then [] else [.endl level])

def print : Nat → Int → Nat → Option (List Write)
  | 0, _, _ => none
  | fuel + 1, level, ptr => do
    let node ← ast.object ptr
    match node.type, node.members with
    | .literal, [.string str] => return [.text ('\'' :: (str ++ ['\'']))]
    | .listElem, [.index index, .node node] =>
      return BasicPrinter.Source.printIndex pretty index ++ (← print fuel level node)
    | .nodeName, [.string ident] => return [.text ident]
    | .nodeList, [.node base, .list elems] => do
      let name ← print fuel level base
      let list := listWrites pretty level elems.isEmpty (← printList pretty (print fuel) (level + 1) elems)
      return .text "list<".toList :: (name ++ .text (if pretty then "> [".toList else ">[".toList) :: (list ++ [.text [']']]))
    | .argName, [.string str] => return [.text ('.' :: (str ++ if pretty then " = ".toList else "=".toList))]
    | .nodeValue, [.node node] => print fuel level node
    | .listValue, [.node list] => print fuel level list
    | .literalValue, [.node literal] => print fuel level literal
    | .nodeArg, [.node name, .node value] => return (← print fuel level name) ++ (← print fuel level value)
    | .listArgs, [.list list] => return listWrites pretty level list.isEmpty (← printList pretty (print fuel) (level + 1) list)
    | .literalArgs, [.node literal] => print fuel level literal
    | .treeNode, [.node name, .node args] =>
      return (← print fuel level name) ++ .text ['('] :: ((← print fuel level args) ++ [.text [')']])
    | .tree, [.node root] => print fuel level root
    | _, _ => none

/-- `SourcePrinter::print(ast)`. -/
def printAst (dots : Bool) : Option (List Char) := do
  return output dots (← print pretty ast ast.objects.length 0 ast.root) ++ [newline]

end Source
end Stored

/-! What `Printer` and `Dumper` print from the pools is what they print for the tree. -/

/-- The `visit` of a node by its class. -/
def BasicPrinter.visit (verbose : Bool) (level : Int) : AstNode → List Write
  | .literal node => visitLiteral node
  | .listElem node => visitListElem verbose level node
  | .nodeName node => visitNodeName node
  | .nodeList node => visitNodeList verbose level node
  | .argName node => visitArgName node
  | .argValue node => visitArgValue verbose level node
  | .nodeArg node => visitNodeArg verbose level node
  | .nodeArgs node => visitNodeArgs verbose level node
  | .treeNode node => visitTreeNode verbose level node
  | .tree node => visitTree verbose level node

section Printed
variable {verbose : Bool} {w : World} {ast : Store.AST}

theorem printList_shown {α : Type} {wrap : α → AstNode} {print : Int → Nat → Option (List Write)}
    {written : Int → Nat → List α → List Write} (nil : ∀ level k, written level k [] = [])
    (cons : ∀ level k a list, written level k (a :: list) =
      elemWrites verbose level k ++ visit verbose (level + 1) (wrap a) ++ written level (k + 1) list)
    {list : List α} {ptrs : List Nat} (all : List.Forall₂ w.At (list.map wrap) ptrs)
    (each : ∀ child ∈ list.map wrap, ∀ p level, w.At child p → print level p = some (visit verbose level child))
    (level : Int) (k : Nat) : Stored.printList verbose print level k ptrs = some (written level k list) := by
  induction list generalizing ptrs k with
  | nil =>
    cases all
    rw [nil]
    rfl
  | cons a list ih =>
    obtain ⟨p, rest, at_, later, rfl⟩ := List.forall₂_cons_left_iff.mp all
    obtain ⟨here, others⟩ := List.forall_mem_cons.mp each
    have shown := ih later others (k + 1)
    rw [Stored.printList, here p (level + 1) at_, shown, cons]
    rfl

variable (holds : w.Holds ast) (sorted : ast.nodeAlloc.ptrs.Pairwise (· < ·))
include holds sorted

/-- The induction is on the fuel: one unit is spent on the node, and the rest is enough for each child. -/
theorem print_shown {fuel : Nat} {node : AstNode} {p : Nat} (level : Int) (at_ : w.At node p)
    (enough : node.nodes.length ≤ fuel) : Stored.print verbose ast fuel level p = some (visit verbose level node) := by
  induction fuel generalizing node p level with
  | zero => exact absurd node.nodes_pos (Nat.not_lt_of_le enough)
  | succ fuel ih =>
    obtain ⟨members, found, shown⟩ := at_.object holds sorted
    have child : ∀ child ∈ node.parts.flatMap Part.children, ∀ q level, w.At child q →
        Stored.print verbose ast fuel level q = some (visit verbose level child) := by
      intro child inside q level below
      exact ih level below (Nat.le_of_lt_succ (Nat.lt_of_lt_of_le (AstNode.nodes_child inside) enough))
    rcases node with ⟨str⟩ | ⟨index, node⟩ | ⟨ident⟩ | ⟨base, elems⟩ | ⟨str⟩ | (node | list | literal) | ⟨name, value⟩ |
      (list | literal) | ⟨name, args⟩ | ⟨root⟩
    case literal | nodeName | argName =>
      obtain ⟨rest, rfl, later⟩ := World.shown_string shown
      cases World.shown_nil later
      simp only [Stored.print, found, AstNode.type, Option.bind_eq_bind, Option.bind_some]
      rfl
    case listElem =>
      obtain ⟨rest, rfl, later⟩ := World.shown_index shown
      obtain ⟨q, rest, rfl, given, last⟩ := World.shown_node later
      cases World.shown_nil last
      have value := child (.treeNode node) (by simp [AstNode.parts, Part.children]) q (level + 1) given
      simp only [Stored.print, found, AstNode.type, value, Option.bind_eq_bind, Option.bind_some, visit, visitListElem]
      rfl
    case nodeValue | listValue | literalValue | literalArgs | tree =>
      obtain ⟨q, rest, rfl, given, later⟩ := World.shown_node shown
      cases World.shown_nil later
      have value := child _ (List.mem_singleton_self _) q (level + 1) given
      simp only [Stored.print, found, AstNode.type, value, Option.bind_eq_bind, Option.bind_some, visit, visitArgValue,
        visitNodeArgs, visitTree]
      rfl
    case nodeArg | treeNode =>
      obtain ⟨q, rest, rfl, named, later⟩ := World.shown_node shown
      obtain ⟨r, rest, rfl, given, last⟩ := World.shown_node later
      cases World.shown_nil last
      have first := child _ (List.mem_cons_self ..) q (level + 1) named
      have second := child _ (List.mem_cons_of_mem _ (List.mem_singleton_self _)) r (level + 1) given
      simp only [Stored.print, found, AstNode.type, first, second, Option.bind_eq_bind, Option.bind_some, visit, visitNodeArg,
        visitTreeNode]
      rfl
    case nodeList =>
      obtain ⟨q, rest, rfl, named, later⟩ := World.shown_node shown
      obtain ⟨ptrs, rest, rfl, all, last⟩ := World.shown_list later
      cases World.shown_nil last
      simp only [AstNode.parts, Part.children, List.flatMap_cons, List.flatMap_nil, List.append_nil] at child
      have first := child (.nodeName base) (List.mem_cons_self ..) q (level + 1) named
      have second : Stored.printList verbose _ (level + 1) 0 ptrs = some (printListElems verbose (level + 1) 0 elems) :=
        printList_shown (fun _ _ => rfl) (fun _ _ _ _ => rfl) all
          (fun elem inside => child elem (List.mem_cons_of_mem _ inside)) (level + 1) 0
      simp only [Stored.print, found, AstNode.type, first, second, World.isEmpty_shown all, Option.bind_eq_bind,
        Option.bind_some, visit, visitNodeList]
      rfl
    case listArgs =>
      obtain ⟨ptrs, rest, rfl, all, later⟩ := World.shown_list shown
      cases World.shown_nil later
      simp only [AstNode.parts, Part.children, List.flatMap_cons, List.flatMap_nil, List.append_nil] at child
      have elems : Stored.printList verbose _ (level + 1) 0 ptrs = some (printNodeArgs verbose (level + 1) 0 list) :=
        printList_shown (fun _ _ => rfl) (fun _ _ _ _ => rfl) all child (level + 1) 0
      simp only [Stored.print, found, AstNode.type, elems, World.isEmpty_shown all, Option.bind_eq_bind, Option.bind_some,
        visit, visitNodeArgs]
      rfl

end Printed

/-! The same for `SourcePrinter`. -/

namespace BasicPrinter.Source

def visit (pretty : Bool) (level : Int) : AstNode → List Write
  | .literal node => visitLiteral node
  | .listElem node => visitListElem pretty level node
  | .nodeName node => visitNodeName node
  | .nodeList node => visitNodeList pretty level node
  | .argName node => visitArgName pretty node
  | .argValue node => visitArgValue pretty level node
  | .nodeArg node => visitNodeArg pretty level node
  | .nodeArgs node => visitNodeArgs pretty level node
  | .treeNode node => visitTreeNode pretty level node
  | .tree node => visitTreeNode pretty level node.root

variable {pretty : Bool} {w : World} {ast : Store.AST}

theorem printList_shown {α : Type} {wrap : α → AstNode} {print : Int → Nat → Option (List Write)}
    {written : Int → List α → List Write} (nil : ∀ level, written level [] = [])
    (cons : ∀ level a list, written level (a :: list) =
      whenPretty pretty [.endl level] ++ (visit pretty level (wrap a) ++ written level list))
    {list : List α} {ptrs : List Nat} (all : List.Forall₂ w.At (list.map wrap) ptrs)
    (each : ∀ child ∈ list.map wrap, ∀ p level, w.At child p → print level p = some (visit pretty level child))
    (level : Int) : Stored.Source.printList pretty print level ptrs = some (written level list) := by
  induction list generalizing ptrs with
  | nil =>
    cases all
    rw [nil]
    rfl
  | cons a list ih =>
    obtain ⟨p, rest, at_, later, rfl⟩ := List.forall₂_cons_left_iff.mp all
    obtain ⟨here, others⟩ := List.forall_mem_cons.mp each
    have shown := ih later others
    rw [Stored.Source.printList, here p level at_, shown, cons]
    rfl

variable (holds : w.Holds ast) (sorted : ast.nodeAlloc.ptrs.Pairwise (· < ·))
include holds sorted

theorem print_shown {fuel : Nat} {node : AstNode} {p : Nat} (level : Int) (at_ : w.At node p)
    (enough : node.nodes.length ≤ fuel) : Stored.Source.print pretty ast fuel level p = some (visit pretty level node) := by
  induction fuel generalizing node p level with
  | zero => exact absurd node.nodes_pos (Nat.not_lt_of_le enough)
  | succ fuel ih =>
    obtain ⟨members, found, shown⟩ := at_.object holds sorted
    have child : ∀ child ∈ node.parts.flatMap Part.children, ∀ q level, w.At child q →
        Stored.Source.print pretty ast fuel level q = some (visit pretty level child) := by
      intro child inside q level below
      exact ih level below (Nat.le_of_lt_succ (Nat.lt_of_lt_of_le (AstNode.nodes_child inside) enough))
    rcases node with ⟨str⟩ | ⟨index, node⟩ | ⟨ident⟩ | ⟨base, elems⟩ | ⟨str⟩ | (node | list | literal) | ⟨name, value⟩ |
      (list | literal) | ⟨name, args⟩ | ⟨root⟩
    case literal | nodeName | argName =>
      obtain ⟨rest, rfl, later⟩ := World.shown_string shown
      cases World.shown_nil later
      simp only [Stored.Source.print, found, AstNode.type, Option.bind_eq_bind, Option.bind_some]
      rfl
    case listElem =>
      obtain ⟨rest, rfl, later⟩ := World.shown_index shown
      obtain ⟨q, rest, rfl, given, last⟩ := World.shown_node later
      cases World.shown_nil last
      have value := child (.treeNode node) (by simp [AstNode.parts, Part.children]) q level given
      simp only [Stored.Source.print, found, AstNode.type, value, Option.bind_eq_bind, Option.bind_some, visit, visitListElem]
      rfl
    case nodeValue | listValue | literalValue | literalArgs | tree =>
      obtain ⟨q, rest, rfl, given, later⟩ := World.shown_node shown
      cases World.shown_nil later
      have value := child _ (List.mem_singleton_self _) q level given
      simp only [Stored.Source.print, found, AstNode.type, value, Option.bind_eq_bind, Option.bind_some, visit, visitArgValue,
        visitNodeArgs]
    case nodeArg | treeNode =>
      obtain ⟨q, rest, rfl, named, later⟩ := World.shown_node shown
      obtain ⟨r, rest, rfl, given, last⟩ := World.shown_node later
      cases World.shown_nil last
      have first := child _ (List.mem_cons_self ..) q level named
      have second := child _ (List.mem_cons_of_mem _ (List.mem_singleton_self _)) r level given
      simp only [Stored.Source.print, found, AstNode.type, first, second, Option.bind_eq_bind, Option.bind_some, visit,
        visitNodeArg, visitTreeNode]
      rfl
    case nodeList =>
      obtain ⟨q, rest, rfl, named, later⟩ := World.shown_node shown
      obtain ⟨ptrs, rest, rfl, all, last⟩ := World.shown_list later
      cases World.shown_nil last
      simp only [AstNode.parts, Part.children, List.flatMap_cons, List.flatMap_nil, List.append_nil] at child
      have first := child (.nodeName base) (List.mem_cons_self ..) q level named
      have second : Stored.Source.printList pretty _ (level + 1) ptrs = some (printListElems pretty (level + 1) elems) :=
        printList_shown (fun _ => rfl) (fun _ _ _ => rfl) all
          (fun elem inside => child elem (List.mem_cons_of_mem _ inside)) (level + 1)
      simp only [Stored.Source.print, found, AstNode.type, first, second, World.isEmpty_shown all, Option.bind_eq_bind,
        Option.bind_some, visit, visitNodeList, Stored.Source.listWrites, List.append_assoc]
      rfl
    case listArgs =>
      obtain ⟨ptrs, rest, rfl, all, later⟩ := World.shown_list shown
      cases World.shown_nil later
      simp only [AstNode.parts, Part.children, List.flatMap_cons, List.flatMap_nil, List.append_nil] at child
      have elems : Stored.Source.printList pretty _ (level + 1) ptrs = some (printNodeArgs pretty (level + 1) list) :=
        printList_shown (fun _ => rfl) (fun _ _ _ => rfl) all child (level + 1)
      simp only [Stored.Source.print, found, AstNode.type, elems, World.isEmpty_shown all, Option.bind_eq_bind,
        Option.bind_some, visit, visitNodeArgs]
      rfl

end BasicPrinter.Source

/-- The tree of `ast` is `tree`, for whoever follows its pointers. -/
structure Stored.Shows (ast : Store.AST) (tree : Tree) : Prop where
  read : Stored.tree ast = some tree
  printed (verbose dots : Bool) : Stored.printAst verbose ast dots = some (BasicPrinter.print verbose dots tree)
  reprinted (pretty dots : Bool) : Stored.Source.printAst pretty ast dots = some (BasicPrinter.Source.print pretty dots tree)

section Texts
variable {layout : Layout} {nodeHeap rawHeap : Heap} {ast : Store.AST} (made : Store.new nodeHeap rawHeap = some ast)
variable {type : InputType} {input : List Char} {tree : Tree}
include made

theorem storedText_shows (room : ast.pools.Fit layout (parseNodes type input)) (parsed : parseText type input = .ok tree) :
    ∃ ast', Stored.parseText layout type input ast = .ok ast' ∧ Stored.Shows ast' tree := by
  obtain ⟨-, ptrs, ast', ran, sorted, -, holds, at_, -⟩ := (storedText_paid made room).2 tree parsed
  have recorded : ast'.nodeAlloc.ptrs = ptrs := holds.ptrs
  rw [← recorded] at sorted
  have enough : tree.nodes.length ≤ ast'.objects.length := Nat.le_of_eq holds.objects.length_eq
  refine ⟨ast', ran, tree_shown holds sorted at_ enough, fun verbose dots => ?_, fun pretty dots => ?_⟩
  · rw [Stored.printAst, print_shown holds sorted 0 at_ enough]
    rfl
  · rw [Stored.Source.printAst, BasicPrinter.Source.print_shown holds sorted 0 at_ enough]
    rfl

/-- An `AST` comes only from a text that the parser accepts, and that the pools have room for. -/
theorem storedText_returned {ast' : Store.AST} (ran : Stored.parseText layout type input ast = .ok ast') :
    ast.pools.Fit layout (parseNodes type input) ∧ ∃ tree, parseText type input = .ok tree ∧ Stored.Shows ast' tree := by
  by_cases room : ast.pools.Fit layout (parseNodes type input)
  · refine ⟨room, ?_⟩
    cases outcome : parseText type input with
    | error stop => cases ran.symm.trans ((storedText_paid made room).1 stop outcome)
    | ok tree =>
      obtain ⟨ast'', ran', shows_⟩ := storedText_shows made room outcome
      cases ran.symm.trans ran'
      exact ⟨tree, rfl, shows_⟩
  · obtain ⟨what, short⟩ := storedText_short made room
    cases ran.symm.trans short

/-- A text that the pools have room for lies in them as its tree, and is printed from them as its tree is. -/
theorem stored_print (room : ast.pools.Fit layout (parseNodes type input)) (parsed : parseText type input = .ok tree) :
    ∃ ast', Stored.parseText layout type input ast = .ok ast' ∧ Stored.tree ast' = some tree ∧ ∀ dots,
      (∀ verbose, Stored.printAst verbose ast' dots = some (BasicPrinter.print verbose dots tree)) ∧
      ∀ pretty, Stored.Source.printAst pretty ast' dots = some (BasicPrinter.Source.print pretty dots tree) := by
  obtain ⟨ast', ran, shows_⟩ := storedText_shows made room parsed
  exact ⟨ast', ran, shows_.read, fun dots => ⟨fun verbose => shows_.printed verbose dots, fun pretty => shows_.reprinted pretty dots⟩⟩

end Texts

theorem stored_print_nested :
    let layout : Layout := ⟨fun _ => 24, fun _ => ⟨3⟩⟩
    ∃ ast', Stored.parseText layout .text ("A(.a=B())".toList ++ [newline]) storeAt = .ok ast' ∧
      Stored.tree ast' = some nestedTree ∧ ∀ dots,
      (∀ verbose, Stored.printAst verbose ast' dots = some (BasicPrinter.print verbose dots nestedTree)) ∧
      ∀ pretty, Stored.Source.printAst pretty ast' dots = some (BasicPrinter.Source.print pretty dots nestedTree) := by
  intro layout
  have room : storeAt.pools.Fit layout (parseNodes .text ("A(.a=B())".toList ++ [newline])) := by
    unfold Pools.Fit
    decide +kernel
  exact stored_print storeAt_new room parseText_nested

end CxxpyTree
