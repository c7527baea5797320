import CxxpyTree.Ctype

/-! The syntax trees of tree/ast.hpp and the pool that records the nodes an `AST` has made.
A child pointer is the child itself: a node is built from nodes built before it. -/

namespace CxxpyTree

structure Literal where
  str : CStr
  deriving DecidableEq, Repr

structure NodeName where
  ident : CStr
  deriving DecidableEq, Repr

structure ArgName where
  str : CStr
  deriving DecidableEq, Repr

mutual

inductive TreeNode where
  | mk (name : NodeName) (args : NodeArgs)

inductive NodeArgs where
  | listArgs (list : List NodeArg)
  | literalArgs (literal : Literal)

inductive NodeArg where
  | mk (name : ArgName) (value : ArgValue)

inductive ArgValue where
  | nodeValue (node : TreeNode)
  | listValue (list : NodeList)
  | literalValue (literal : Literal)

inductive NodeList where
  | mk (base : NodeName) (elems : List ListElem)

/-- `list_elem_idx_t` is `unsigned char`. -/
inductive ListElem where
  | mk (index : UInt8) (node : TreeNode)

end

def NodeArg.name : NodeArg → ArgName
  | .mk name _ => name

def NodeArg.value : NodeArg → ArgValue
  | .mk _ value => value

structure Tree where
  root : TreeNode

/-- A node of any class, as `node_alloc` holds it. -/
inductive AstNode where
  | literal (node : Literal)
  | listElem (node : ListElem)
  | nodeName (node : NodeName)
  | nodeList (node : NodeList)
  | argName (node : ArgName)
  | argValue (node : ArgValue)
  | nodeArg (node : NodeArg)
  | nodeArgs (node : NodeArgs)
  | treeNode (node : TreeNode)
  | tree (node : Tree)

/-! The nodes of a tree, every node after its children. -/

def Literal.nodes (node : Literal) : List AstNode := [.literal node]
def NodeName.nodes (node : NodeName) : List AstNode := [.nodeName node]
def ArgName.nodes (node : ArgName) : List AstNode := [.argName node]

mutual

def TreeNode.nodes : TreeNode → List AstNode
  | .mk name args => name.nodes ++ args.nodes ++ [.treeNode (.mk name args)]
  termination_by structural node => node

def NodeArgs.nodes : NodeArgs → List AstNode
  | .listArgs list => nodeArgListNodes list ++ [.nodeArgs (.listArgs list)]
  | .literalArgs literal => literal.nodes ++ [.nodeArgs (.literalArgs literal)]
  termination_by structural args => args

def nodeArgListNodes : List NodeArg → List AstNode
  | [] => []
  | arg :: list => arg.nodes ++ nodeArgListNodes list
  termination_by structural list => list

def NodeArg.nodes : NodeArg → List AstNode
  | .mk name value => name.nodes ++ value.nodes ++ [.nodeArg (.mk name value)]
  termination_by structural arg => arg

def ArgValue.nodes : ArgValue → List AstNode
  | .nodeValue node => node.nodes ++ [.argValue (.nodeValue node)]
  | .listValue list => list.nodes ++ [.argValue (.listValue list)]
  | .literalValue literal => literal.nodes ++ [.argValue (.literalValue literal)]
  termination_by structural value => value

def NodeList.nodes : NodeList → List AstNode
  | .mk base elems => base.nodes ++ listElemsNodes elems ++ [.nodeList (.mk base elems)]
  termination_by structural list => list

def listElemsNodes : List ListElem → List AstNode
  | [] => []
  | elem :: elems => elem.nodes ++ listElemsNodes elems
  termination_by structural elems => elems

def ListElem.nodes : ListElem → List AstNode
  | .mk index node => node.nodes ++ [.listElem (.mk index node)]
  termination_by structural elem => elem

end

def Tree.nodes (tree : Tree) : List AstNode := tree.root.nodes ++ [.tree tree]

end CxxpyTree
