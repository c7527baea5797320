import CxxpyTree.Lib.FilterIterator
import CxxpyTree.Lib.PostOrder
import CxxpyTree.ParserCorrect
import CxxpyTree.SourceRoundTrip

/-! The `AST` that the parser returns: its nodes are those of the tree in post-order, and
`treenode_iterator` passes through the nodes of class `TreeNode`. -/

namespace CxxpyTree
open Machine

/-- The nodes a node points to, its members in the order of their declaration. -/
def AstNode.children : AstNode → List AstNode
  | .literal _ => []
  | .listElem (.mk _ node) => [.treeNode node]
  | .nodeName _ => []
  | .nodeList (.mk base elems) => .nodeName base :: elems.map AstNode.listElem
  | .argName _ => []
  | .argValue (.nodeValue value) => [.treeNode value]
  | .argValue (.listValue value) => [.nodeList value]
  | .argValue (.literalValue value) => [.literal value]
  | .nodeArg (.mk name value) => [.argName name, .argValue value]
  | .nodeArgs (.listArgs list) => list.map AstNode.nodeArg
  | .nodeArgs (.literalArgs value) => [.literal value]
  | .treeNode (.mk name args) => [.nodeName name, .nodeArgs args]
  | .tree ⟨root⟩ => [.treeNode root]

/-- `AST::IsTreeNode`. -/
def isTreeNode : AstNode → Bool
  | .treeNode _ => true
  | _ => false

/-- What is left of an `AST` when its pointers are values: the contents of `node_alloc`. -/
structure Ast where
  nodes : List AstNode := []
  root : Option AstNode := none
  nTreenodes : Nat := 0

/-- `AST::root_node` on a node of the pool, which passes the check. -/
def Ast.rootNode (ast : Ast) (node : AstNode) : Ast :=
  { ast with root := some node, nTreenodes := ast.nodes.countP isTreeNode }

/-- `Parser::parse` with the `AST` it returns. -/
def Parser.parseAst {σ : Type} (next : TokenSource σ) (fuel : Nat) : Parser σ Ast := do
  nextToken next
  let tree ← parseTree next fuel
  let s ← get
  let ast := Ast.rootNode { nodes := s.pool } (.tree tree)
  checkToken .eos
  return ast

def parseTextAst (type : InputType) (input : List Char) : Except Stop Ast :=
  let s := Input.init type input
  Parser.result (Parser.parseAst nextToken (2 * s.rest.length + 8) { src := s })

/-- `AST::treenode_iterator` over the nodes of an `AST`. -/
def Ast.treenodeBegin (ast : Ast) : OpIterator := .start ast.nodes isTreeNode 0 ast.nodes.length
def Ast.treenodeEnd (ast : Ast) : OpIterator := .stop ast.nodes.length

/-! The `TreeNode`s of a tree, every one after those in its arguments. -/

mutual

def TreeNode.treeNodes : TreeNode → List TreeNode
  | .mk name args => args.treeNodes ++ [.mk name args]
  termination_by structural node => node

def NodeArgs.treeNodes : NodeArgs → List TreeNode
  | .listArgs list => nodeArgListTreeNodes list
  | .literalArgs _ => []
  termination_by structural args => args

def nodeArgListTreeNodes : List NodeArg → List TreeNode
  | [] => []
  | arg :: list => arg.treeNodes ++ nodeArgListTreeNodes list
  termination_by structural list => list

def NodeArg.treeNodes : NodeArg → List TreeNode
  | .mk _ value => value.treeNodes
  termination_by structural arg => arg

def ArgValue.treeNodes : ArgValue → List TreeNode
  | .nodeValue node => node.treeNodes
  | .listValue list => list.treeNodes
  | .literalValue _ => []
  termination_by structural value => value

def NodeList.treeNodes : NodeList → List TreeNode
  | .mk _ elems => listElemsTreeNodes elems
  termination_by structural list => list

def listElemsTreeNodes : List ListElem → List TreeNode
  | [] => []
  | elem :: elems => elem.treeNodes ++ listElemsTreeNodes elems
  termination_by structural elems => elems

def ListElem.treeNodes : ListElem → List TreeNode
  | .mk _ node => node.treeNodes
  termination_by structural elem => elem

end

section Nodes
open PostOrder

/-- The pool of one production after the other. -/
abbrev Posts := Lists AstNode.children
abbrev PostsAll := ListsAll AstNode.children

theorem Literal.posts (node : Literal) : Posts (.literal node) node.nodes := .leaf rfl
theorem NodeName.posts (node : NodeName) : Posts (.nodeName node) node.nodes := .leaf rfl
theorem ArgName.posts (node : ArgName) : Posts (.argName node) node.nodes := .leaf rfl

mutual

theorem TreeNode.posts : ∀ node : TreeNode, Posts (.treeNode node) node.nodes
  | .mk name args => by
    rw [TreeNode.nodes]
    exact .node (.cons name.posts args.posts.singleton)
  termination_by structural node => node

theorem NodeArgs.posts : ∀ args : NodeArgs, Posts (.nodeArgs args) args.nodes
  | .listArgs list => by
    rw [NodeArgs.nodes]
    exact .node (nodeArgList_posts list)
  | .literalArgs literal => by
    rw [NodeArgs.nodes]
    exact .node literal.posts.singleton
  termination_by structural args => args

theorem nodeArgList_posts : ∀ list : List NodeArg, PostsAll (list.map AstNode.nodeArg) (nodeArgListNodes list)
  | [] => .nil
  | arg :: list => by
    rw [nodeArgListNodes]
    exact .cons arg.posts (nodeArgList_posts list)
  termination_by structural list => list

theorem NodeArg.posts : ∀ arg : NodeArg, Posts (.nodeArg arg) arg.nodes
  | .mk name value => by
    rw [NodeArg.nodes]
    exact .node (.cons name.posts value.posts.singleton)
  termination_by structural arg => arg

theorem ArgValue.posts : ∀ value : ArgValue, Posts (.argValue value) value.nodes
  | .nodeValue node => by
    rw [ArgValue.nodes]
    exact .node node.posts.singleton
  | .listValue list => by
    rw [ArgValue.nodes]
    exact .node list.posts.singleton
  | .literalValue literal => by
    rw [ArgValue.nodes]
    exact .node literal.posts.singleton
  termination_by structural value => value

theorem NodeList.posts : ∀ list : NodeList, Posts (.nodeList list) list.nodes
  | .mk base elems => by
    rw [NodeList.nodes]
    exact .node (.cons base.posts (listElems_posts elems))
  termination_by structural list => list

theorem listElems_posts : ∀ elems : List ListElem, PostsAll (elems.map AstNode.listElem) (listElemsNodes elems)
  | [] => .nil
  | elem :: elems => by
    rw [listElemsNodes]
    exact .cons elem.posts (listElems_posts elems)
  termination_by structural elems => elems

theorem ListElem.posts : ∀ elem : ListElem, Posts (.listElem elem) elem.nodes
  | .mk index node => by
    rw [ListElem.nodes]
    exact .node node.posts.singleton
  termination_by structural elem => elem

end

theorem Tree.posts (tree : Tree) : Posts (.tree tree) tree.nodes := .node tree.root.posts.singleton

end Nodes

section TreeNodes

set_option linter.unusedSectionVars false in
mutual

/-- The nodes of class `TreeNode` are met in the order of `treeNodes`. -/
theorem TreeNode.filter_nodes : ∀ node : TreeNode, node.nodes.filter isTreeNode = node.treeNodes.map .treeNode
  | .mk name args => by
    simp [TreeNode.nodes, TreeNode.treeNodes, NodeName.nodes, isTreeNode, NodeArgs.filter_nodes args]
  termination_by structural node => node

theorem NodeArgs.filter_nodes : ∀ args : NodeArgs, args.nodes.filter isTreeNode = args.treeNodes.map .treeNode
  | .listArgs list => by
    simp [NodeArgs.nodes, NodeArgs.treeNodes, isTreeNode, nodeArgList_filter_nodes list]
  | .literalArgs literal => by simp [NodeArgs.nodes, NodeArgs.treeNodes, Literal.nodes, isTreeNode]
  termination_by structural args => args

theorem nodeArgList_filter_nodes : ∀ list : List NodeArg,
    (nodeArgListNodes list).filter isTreeNode = (nodeArgListTreeNodes list).map .treeNode
  | [] => rfl
  | arg :: list => by
    simp [nodeArgListNodes, nodeArgListTreeNodes, NodeArg.filter_nodes arg, nodeArgList_filter_nodes list]
  termination_by structural list => list

theorem NodeArg.filter_nodes : ∀ arg : NodeArg, arg.nodes.filter isTreeNode = arg.treeNodes.map .treeNode
  | .mk name value => by
    simp [NodeArg.nodes, NodeArg.treeNodes, ArgName.nodes, isTreeNode, ArgValue.filter_nodes value]
  termination_by structural arg => arg

theorem ArgValue.filter_nodes : ∀ value : ArgValue, value.nodes.filter isTreeNode = value.treeNodes.map .treeNode
  | .nodeValue node => by simp [ArgValue.nodes, ArgValue.treeNodes, isTreeNode, TreeNode.filter_nodes node]
  | .listValue list => by simp [ArgValue.nodes, ArgValue.treeNodes, isTreeNode, NodeList.filter_nodes list]
  | .literalValue literal => by simp [ArgValue.nodes, ArgValue.treeNodes, Literal.nodes, isTreeNode]
  termination_by structural value => value

theorem NodeList.filter_nodes : ∀ list : NodeList, list.nodes.filter isTreeNode = list.treeNodes.map .treeNode
  | .mk base elems => by
    simp [NodeList.nodes, NodeList.treeNodes, NodeName.nodes, isTreeNode, listElems_filter_nodes elems]
  termination_by structural list => list

theorem listElems_filter_nodes : ∀ elems : List ListElem,
    (listElemsNodes elems).filter isTreeNode = (listElemsTreeNodes elems).map .treeNode
  | [] => rfl
  | elem :: elems => by
    simp [listElemsNodes, listElemsTreeNodes, ListElem.filter_nodes elem, listElems_filter_nodes elems]
  termination_by structural elems => elems

theorem ListElem.filter_nodes : ∀ elem : ListElem, elem.nodes.filter isTreeNode = elem.treeNodes.map .treeNode
  | .mk index node => by simp [ListElem.nodes, ListElem.treeNodes, isTreeNode, TreeNode.filter_nodes node]
  termination_by structural elem => elem

end

theorem Tree.filter_nodes (tree : Tree) : tree.nodes.filter isTreeNode = tree.root.treeNodes.map .treeNode := by
  simp [Tree.nodes, isTreeNode, tree.root.filter_nodes]

end TreeNodes

section Parsed
variable {σ : Type} {next : TokenSource σ} {fuel : Nat} {s s' : ParserState σ}

/-- The run with its `AST` is the run that returns the tree alone. -/
theorem parseAst_run : Parser.parseAst next fuel s =
    match Parser.parse next fuel s with
    | .ok tree s' => .ok (Ast.rootNode { nodes := s'.pool } (.tree tree)) s'
    | .error stop s' => .error stop s' := by
  unfold Parser.parseAst Parser.parse
  cases first : Parser.nextToken next s with
  | error stop s₁ => simp only [bind_of_error first]
  | ok _ s₁ =>
    simp only [bind_of_ok first]
    cases second : Parser.parseTree next fuel s₁ with
    | error stop s₂ => simp only [bind_of_error second]
    | ok tree s₂ =>
      simp only [bind_of_ok second, get_bind]
      by_cases isEos : s₂.tok.type = .eos
      · have passed : Parser.checkToken .eos s₂ = .ok () s₂ := by
          simp [Parser.checkToken, get_bind, isEos, pure, EStateM.pure]
        simp only [bind_of_ok passed]
        rfl
      · have failed : Parser.checkToken .eos s₂ = .error (.error ⟨s₂.tok.pos, .expectedToken .eos s₂.tok.type⟩) s₂ := by
          rw [Parser.checkToken, get_bind, if_pos isEos]
          rfl
        simp only [bind_of_error failed]

end Parsed

/-- The loop over a range of `treenode_iterator`s passes through the nodes of class `TreeNode`. -/
theorem Ast.visits_treenodes (ast : Ast) :
    OpIterator.Visits ast.nodes isTreeNode ast.treenodeEnd ast.treenodeBegin (ast.nodes.filter isTreeNode) :=
  OpIterator.visits_start 0 (Nat.zero_le _)

/-- The `AST` of a text that parses to a tree holds the nodes of the tree in post-order and no
others, counts its `TreeNode`s and passes through them in that order. -/
theorem parsed_pool_is_tree {type : InputType} {input : List Char} {tree : Tree} (parsed : parseText type input = .ok tree) :
    ∃ ast, parseTextAst type input = .ok ast ∧ ast.root = some (.tree tree) ∧ Posts (.tree tree) ast.nodes ∧
      (∀ node ∈ ast.nodes, PostOrder.Reaches AstNode.children (.tree tree) node) ∧
      (∀ before node after, ast.nodes = before ++ node :: after → ∀ child ∈ node.children, child ∈ before) ∧
      ast.nTreenodes = tree.root.treeNodes.length ∧
      OpIterator.Visits ast.nodes isTreeNode ast.treenodeEnd ast.treenodeBegin (tree.root.treeNodes.map .treeNode) := by
  cases outcome : Parser.parse nextToken (2 * (Input.init type input).rest.length + 8) { src := Input.init type input }
  with
  | error stop s' =>
    rw [parseText] at parsed
    simp only [outcome] at parsed
    cases parsed
  | ok result s' =>
    rw [parseText] at parsed
    simp only [outcome] at parsed
    cases parsed
    have pool : s'.pool = tree.nodes :=
      parse_pool nextToken_shrinks (s := { src := Input.init type input }) rfl (by simp only; omega) outcome
    have posts : Posts (.tree tree) s'.pool := pool ▸ tree.posts
    have treenodes : s'.pool.filter isTreeNode = tree.root.treeNodes.map .treeNode := pool ▸ tree.filter_nodes
    let ast := Ast.rootNode { nodes := s'.pool } (.tree tree)
    refine ⟨ast, ?_, rfl, posts, posts.reaches, fun _ _ _ => posts.children_before, ?_, ?_⟩
    · rw [parseTextAst, parseAst_run]
      simp only [outcome]
      rfl
    · change s'.pool.countP isTreeNode = _
      rw [List.countP_eq_length_filter, treenodes, List.length_map]
    · exact treenodes ▸ ast.visits_treenodes

/-- `A(.a=B())` and a newline. -/
def nestedTree : Tree := ⟨.mk ⟨['A']⟩ (.listArgs [.mk ⟨['a']⟩ (.nodeValue (.mk ⟨['B']⟩ (.listArgs [])))])⟩

theorem parseText_nested : parseText .text ("A(.a=B())".toList ++ [newline]) = .ok nestedTree := by
  have word : ∀ c, isident0 c = true → Item.Spelled (.word [c]) [c] := fun c first => .word first (by simp)
  have shown : Shows false nestedTree.leaves "A(.a=B())".toList :=
    @Shows.ident _ _ ['A'] ⟨word _ (by decide), by decide⟩ (by rintro c ⟨⟩; decide)
      (.punct rfl (.punct rfl (@Shows.name _ _ ['a'] ⟨word _ (by decide), by decide⟩ (by rintro c ⟨⟩; decide)
        (.punct rfl (@Shows.ident _ _ ['B'] ⟨word _ (by decide), by decide⟩ (by rintro c ⟨⟩; decide)
          (.punct rfl (.punct rfl (.punct rfl .done))))))))
  exact parseText_of_shows shown .text

/-- Its two `TreeNode`s are met from the inner one to the outer one. -/
theorem parsed_pool_is_tree_nested :
    ∃ ast, parseTextAst .text ("A(.a=B())".toList ++ [newline]) = .ok ast ∧ ast.nTreenodes = 2 ∧
      OpIterator.Visits ast.nodes isTreeNode ast.treenodeEnd ast.treenodeBegin
        [.treeNode (.mk ⟨['B']⟩ (.listArgs [])), .treeNode nestedTree.root] := by
  obtain ⟨ast, same, -, -, -, -, count, visits⟩ := parsed_pool_is_tree parseText_nested
  exact ⟨ast, same, count, visits⟩

end CxxpyTree
