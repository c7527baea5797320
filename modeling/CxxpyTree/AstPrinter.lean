import CxxpyTree.SourcePrinter

/-! `Printer` of tree/printer.cpp with `indent_dots` off, which `-p` calls, and what it dumps: every
node with its fields. -/

namespace CxxpyTree

namespace AstPrinter

def repr (str : CStr) : List Char := '\'' :: (str ++ ['\''])

def typeIndex (idx : UInt8) : List Char := repr (decimalText idx.toNat)

def attr (level : Int) (attr : CStr) : List Char := dotsEndl (level + 1) ++ '.' :: (attr ++ " = ".toList)

/-- `print_list` around its elements, inside its `Level`. -/
def listText (level : Int) (base : CStr) (empty : Bool) (elems : List Char) : List Char :=
  "list<".toList ++ (base ++ ("> [".toList ++ (elems ++ ((if empty then [] else dotsEndl level) ++ [']']))))

theorem listText_eq (level : Int) (base : CStr) (empty : Bool) (elems : List Char) : listText level base empty elems =
    "list".toList ++ '<' :: (base ++ '>' :: ' ' :: '[' :: (elems ++ ((if empty then [] else dotsEndl level) ++ [']']))) :=
  rfl

/-- What `print_list` writes before element `k`. -/
def elemText (level : Int) (k : Nat) : List Char := dotsEndl (level + 1) ++ '[' :: (decimalText k ++ "] = ".toList)

/-- `name(arg)`, and what a node without fields of nodes has between the parentheses. -/
def textNode (name str : CStr) : List Char := name ++ '(' :: (repr str ++ [')'])

/-- `name(arg)` and the parentheses around fields. -/
def fieldsNode (level : Int) (name : CStr) (fields : List Char) : List Char :=
  name ++ '(' :: (fields ++ (dotsEndl level ++ [')']))

def visitLiteral (arg : Literal) : List Char := textNode "Literal".toList arg.str
def visitNodeName (arg : NodeName) : List Char := textNode "NodeName".toList arg.ident
def visitArgName (arg : ArgName) : List Char := textNode "ArgName".toList arg.str

/-! `level` is `indent_level` in the method; `node` enters one more `Level`, and so does `print_list`. -/

mutual

def visitTreeNode (level : Int) : TreeNode → List Char
  | .mk name args => fieldsNode level "TreeNode".toList
      (attr level "name".toList ++ visitNodeName name ++ attr level "args".toList ++ visitNodeArgs (level + 1) args)
  termination_by structural arg => arg

def visitNodeArgs (level : Int) : NodeArgs → List Char
  | .listArgs list => fieldsNode level "ListArgs".toList
      (attr level "list".toList ++ listText (level + 1) "NodeArg".toList list.isEmpty (printNodeArgs (level + 1) 0 list))
  | .literalArgs literal => fieldsNode level "LiteralArgs".toList (attr level "literal".toList ++ visitLiteral literal)
  termination_by structural arg => arg

/-- The loop of `print_list<NodeArg>` from element `k` on. -/
def printNodeArgs (level : Int) (k : Nat) : List NodeArg → List Char
  | [] => []
  | arg :: list => elemText level k ++ visitNodeArg (level + 1) arg ++ printNodeArgs level (k + 1) list
  termination_by structural list => list

def visitNodeArg (level : Int) : NodeArg → List Char
  | .mk name value => fieldsNode level "NodeArg".toList
      (attr level "name".toList ++ visitArgName name ++ attr level "value".toList ++ visitArgValue (level + 1) value)
  termination_by structural arg => arg

def visitArgValue (level : Int) : ArgValue → List Char
  | .nodeValue node => fieldsNode level "NodeValue".toList (attr level "node".toList ++ visitTreeNode (level + 1) node)
  | .listValue list => fieldsNode level "ListValue".toList (attr level "list".toList ++ visitNodeList (level + 1) list)
  | .literalValue literal =>
    fieldsNode level "LiteralValue".toList (attr level "literal".toList ++ visitLiteral literal)
  termination_by structural arg => arg

def visitNodeList (level : Int) : NodeList → List Char
  | .mk base elems => fieldsNode level "NodeList".toList
      (attr level "base".toList ++ visitNodeName base ++ attr level "elems".toList ++
        listText (level + 1) "ListElem".toList elems.isEmpty (printListElems (level + 1) 0 elems))
  termination_by structural arg => arg

/-- The loop of `print_list<ListElem>` from element `k` on. -/
def printListElems (level : Int) (k : Nat) : List ListElem → List Char
  | [] => []
  | elem :: elems => elemText level k ++ visitListElem (level + 1) elem ++ printListElems level (k + 1) elems
  termination_by structural elems => elems

def visitListElem (level : Int) : ListElem → List Char
  | .mk index node => fieldsNode level "ListElem".toList
      (attr level "index".toList ++ typeIndex index ++ attr level "node".toList ++ visitTreeNode (level + 1) node)
  termination_by structural arg => arg

end

def visitTree (level : Int) : Tree → List Char
  | ⟨root⟩ => fieldsNode level "Tree".toList (attr level "root".toList ++ visitTreeNode (level + 1) root)

/-- `print(ast)`: `indent_level` starts at -1 and one `Level` is entered for the root. -/
def print (tree : Tree) : List Char := visitTree 0 tree ++ [newline]

end AstPrinter

/-! A dumped node, of whatever class. -/

mutual

/-- A node that holds a text, or one that holds named fields. -/
inductive Dump where
  | text (type str : CStr)
  | fields (type : CStr) (fields : List DumpField)

inductive DumpField where
  | text (name str : CStr)
  | node (name : CStr) (node : Dump)
  | list (name base : CStr) (elems : List Dump)

end

def Literal.dump (arg : Literal) : Dump := .text "Literal".toList arg.str
def NodeName.dump (arg : NodeName) : Dump := .text "NodeName".toList arg.ident
def ArgName.dump (arg : ArgName) : Dump := .text "ArgName".toList arg.str

/-! Every node is dumped under the name of its class, with its fields in the order of their declaration. -/

mutual

def TreeNode.dump : TreeNode → Dump
  | .mk name args => .fields "TreeNode".toList [.node "name".toList name.dump, .node "args".toList args.dump]
  termination_by structural arg => arg

def NodeArgs.dump : NodeArgs → Dump
  | .listArgs list => .fields "ListArgs".toList [.list "list".toList "NodeArg".toList (nodeArgListDump list)]
  | .literalArgs literal => .fields "LiteralArgs".toList [.node "literal".toList literal.dump]
  termination_by structural arg => arg

def nodeArgListDump : List NodeArg → List Dump
  | [] => []
  | arg :: list => arg.dump :: nodeArgListDump list
  termination_by structural list => list

def NodeArg.dump : NodeArg → Dump
  | .mk name value => .fields "NodeArg".toList [.node "name".toList name.dump, .node "value".toList value.dump]
  termination_by structural arg => arg

def ArgValue.dump : ArgValue → Dump
  | .nodeValue node => .fields "NodeValue".toList [.node "node".toList node.dump]
  | .listValue list => .fields "ListValue".toList [.node "list".toList list.dump]
  | .literalValue literal => .fields "LiteralValue".toList [.node "literal".toList literal.dump]
  termination_by structural arg => arg

def NodeList.dump : NodeList → Dump
  | .mk base elems => .fields "NodeList".toList
      [.node "base".toList base.dump, .list "elems".toList "ListElem".toList (listElemsDump elems)]
  termination_by structural arg => arg

def listElemsDump : List ListElem → List Dump
  | [] => []
  | elem :: elems => elem.dump :: listElemsDump elems
  termination_by structural elems => elems

def ListElem.dump : ListElem → Dump
  | .mk index node => .fields "ListElem".toList
      [.text "index".toList (decimalText index.toNat), .node "node".toList node.dump]
  termination_by structural arg => arg

end

def Tree.dump (tree : Tree) : Dump := .fields "Tree".toList [.node "root".toList tree.root.dump]

/-! The tree that encodes a dumped node: a text is a literal, and the elements of a list are numbered. -/

mutual

def Dump.toTree : Dump → TreeNode
  | .text type str => .mk ⟨type⟩ (.literalArgs ⟨str⟩)
  | .fields type fields => .mk ⟨type⟩ (.listArgs (dumpFieldsToTree fields))
  termination_by structural node => node

def dumpFieldsToTree : List DumpField → List NodeArg
  | [] => []
  | field :: fields => field.toTree :: dumpFieldsToTree fields
  termination_by structural fields => fields

def DumpField.toTree : DumpField → NodeArg
  | .text name str => .mk ⟨name⟩ (.literalValue ⟨str⟩)
  | .node name node => .mk ⟨name⟩ (.nodeValue node.toTree)
  | .list name base elems => .mk ⟨name⟩ (.listValue (.mk ⟨base⟩ (dumpElemsToTree 0 elems)))
  termination_by structural field => field

def dumpElemsToTree (k : Nat) : List Dump → List ListElem
  | [] => []
  | elem :: elems => .mk (UInt8.ofNat k) elem.toTree :: dumpElemsToTree (k + 1) elems
  termination_by structural elems => elems

end

def Tree.reify (tree : Tree) : Tree := ⟨tree.dump.toTree⟩

def AstNode.entries : AstNode → Nat
  | .nodeArgs (.listArgs list) => list.length
  | .nodeList (.mk _ elems) => elems.length
  | _ => 0

end CxxpyTree
